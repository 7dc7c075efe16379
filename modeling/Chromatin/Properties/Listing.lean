import Chromatin.Cli.Listing
import Chromatin.Infra.Paging
import Chromatin.Properties.EngineCalls
import Chromatin.Properties.SequenceIndex

/-!
# Listing a namespace page by page

The paging loop of the clients against the list handler of a node is `follow` on the node's
sequence entries (`listPages_eq_follow`). So a listing always ends; it gives every matching blob
once exactly if every matching blob has one sequence entry that no page-length run of hidden
entries comes before: the handler filters a page after it has cut it off, and the client takes an
empty page for the end.
-/

namespace Cli

open Infra Util Wire Storage Peer

variable {ref : BlobRef}

/-! ## Request and response -/

theorem parseListRequest_listRequest (ns : Hash32) (sinceSeq : UInt64) (limit : UInt32)
    (options : ListOptions) : parseListRequest (listRequest ns sinceSeq limit options) =
      some { ns, sinceSeq, limit, includeAll := options.includeAll
             typeFilter := options.typeFilter } := by
  simp only [parseListRequest, listRequest]
  simp [List.getElem?_append_right]
  obtain ⟨includeAll, typeFilter⟩ := options
  cases typeFilter with
  | none => cases includeAll <;> exact ⟨by decide, by decide⟩
  | some filter =>
    have hbits : ∀ all : Bool, ((((if all = true then 1 else 0) ||| 2 : UInt8) &&& 1) != 0) = all ∧
        ¬ ((if all = true then 1 else 0) ||| 2 : UInt8) &&& 2 = 0 := by decide
    simp [listFlags]
    exact hbits includeAll

@[simp] theorem length_encodeListEntry (entry : ListEntry) :
    (encodeListEntry entry).length = LIST_ENTRY_SIZE := by
  simp [encodeListEntry, LIST_ENTRY_SIZE]

theorem parseListEntry_append (pre : Bytes) (entry : ListEntry) (post : Bytes) :
    parseListEntry (pre ++ (encodeListEntry entry ++ post)) pre.length = some entry := by
  simp [parseListEntry, encodeListEntry]

theorem parseListEntries_append : ∀ (entries : List ListEntry) (pre post : Bytes),
    parseListEntries (pre ++ (entries.flatMap encodeListEntry ++ post)) entries.length pre.length =
      some entries
  | [], _, _ => rfl
  | entry :: rest, pre, post => by
    have hentry := parseListEntry_append pre entry (rest.flatMap encodeListEntry ++ post)
    have ih := parseListEntries_append rest (pre ++ encodeListEntry entry) post
    rw [List.append_assoc, List.length_append, length_encodeListEntry] at ih
    rw [List.flatMap_cons, List.append_assoc, List.length_cons, parseListEntries, hentry]
    simp only [Option.bind_eq_bind, Option.bind_some, ih]

theorem length_flatMap_encodeListEntry (entries : List ListEntry) :
    (entries.flatMap encodeListEntry).length = entries.length * LIST_ENTRY_SIZE := by
  simp [List.length_flatMap]

theorem parseListResponse_encodeListResponse {entries : List ListEntry}
    (hlength : entries.length < 2 ^ 32) (hasMore : Bool) :
    parseListResponse (encodeListResponse entries hasMore) =
      some (entries, if hasMore then 1 else 0) := by
  have hcount : (UInt32.ofNat entries.length).toNat = entries.length :=
    UInt32.toNat_ofNat_of_lt' hlength
  have hentries := parseListEntries_append entries (writeU32Be (UInt32.ofNat entries.length))
    [if hasMore then 1 else 0]
  have hmore : (encodeListResponse entries hasMore)[4 + entries.length * LIST_ENTRY_SIZE]? =
      some (if hasMore then 1 else 0) := by
    rw [encodeListResponse, List.getElem?_append_right (by simp), length_writeU32Be,
      Nat.add_sub_cancel_left, List.getElem?_append_right (by rw [length_flatMap_encodeListEntry]),
      length_flatMap_encodeListEntry, Nat.sub_self, List.getElem?_cons_zero]
  have hread : readU32Be (encodeListResponse entries hasMore) 0 = _ := readU32Be_zero _ _
  rw [length_writeU32Be, ← encodeListResponse] at hentries
  simp only [parseListResponse, hread, hcount, hentries, hmore, Option.bind_eq_bind,
    Option.bind_some]

/-! ## The loop -/

/-- The blob is stored, and the request does not hide it. -/
def matching (t : Tables) (now : UInt64) (ns : Hash32) (options : ListOptions) (hash : Hash32) :
    Bool :=
  match t.getBlob ns hash with
  | none => false
  | some blob =>
    typeAdmitted options.includeAll options.typeFilter (extractBlobType blob.data) &&
      (options.includeAll || !isBlobExpired blob now)

/-- What a client may rely on in a listing. -/
structure Listable (t : Tables) (ns : Hash32) : Prop where
  numbered : ∀ ref ∈ blobRefs t ns, 0 < ref.seqNum ∧ ref.seqNum + 1 < 2 ^ 64
  listed : ∀ hash blob, t.getBlob ns hash = some blob →
    ∃ ref ∈ blobRefs t ns, ref.blobHash = hash
  typed : ∀ ref ∈ blobRefs t ns, ∀ blob, t.getBlob ns ref.blobHash = some blob →
    ref.blobType = extractBlobType blob.data

theorem pairwise_blobRefs (t : Tables) (ns : Hash32) :
    (blobRefs t ns).Pairwise fun a b => a.seqNum < b.seqNum := by
  rw [blobRefs, List.pairwise_map]
  exact (pairwise_seqEntries t ns).filter _

/-- Where every row is there, a list of rows is an image of the list. -/
theorem map_filterMap {α β γ : Type*} {f : α → Option β} {g : β → γ} {h : α → γ} :
    ∀ {l : List α}, (∀ x ∈ l, ∃ row, f x = some row ∧ g row = h x) →
      (l.filterMap f).map g = l.map h
  | [], _ => rfl
  | x :: l, hrow => by
    obtain ⟨row, hx, hg⟩ := hrow x List.mem_cons_self
    rw [List.filterMap_cons_some hx, List.map_cons, List.map_cons, hg,
      map_filterMap fun y hy => hrow y (List.mem_cons_of_mem _ hy)]

/-- Elements without a row can be left out first. -/
theorem filterMap_filter_isSome {α β : Type*} {f : α → Option β} {p : α → Bool} {l : List α}
    (h : ∀ x ∈ l, (f x).isSome = p x) : (l.filter p).filterMap f = l.filterMap f := by
  rw [← List.filter_congr h, List.filterMap_filter]
  refine List.filterMap_congr fun x _ => ?_
  cases f x <;> rfl

section Loop

variable {t : Tables} {now : UInt64} {ns : Hash32} {options : ListOptions}

/-- The rows of a listing; they do not depend on position and limit. -/
def rowOf (t : Tables) (now : UInt64) (ns : Hash32) (options : ListOptions) :
    BlobRef → Option ListEntry :=
  listRow t now { ns, sinceSeq := 0, limit := 0, includeAll := options.includeAll
                  typeFilter := options.typeFilter }

theorem rowOf_eq_some {entry : ListEntry} (h : rowOf t now ns options ref = some entry) :
    entry.blobHash = ref.blobHash ∧ entry.seqNum = UInt64.ofNat ref.seqNum := by
  unfold rowOf listRow at h
  split_ifs at h
  split at h
  · exact absurd h (by simp)
  · split_ifs at h
    obtain rfl := Option.some.inj h
    exact ⟨rfl, rfl⟩

/-- A sequence entry has a row exactly if its blob matches. -/
theorem isSome_rowOf (h : Listable t ns) (href : ref ∈ blobRefs t ns) :
    (rowOf t now ns options ref).isSome = matching t now ns options ref.blobHash := by
  unfold rowOf listRow matching
  cases hblob : t.getBlob ns ref.blobHash with
  | none => split_ifs <;> rfl
  | some blob =>
    rw [h.typed ref href blob hblob]
    dsimp only
    generalize typeAdmitted options.includeAll options.typeFilter (extractBlobType blob.data) =
      admitted
    generalize options.includeAll = includeAll
    generalize isBlobExpired blob now = expired
    cases admitted <;> cases includeAll <;> cases expired <;> rfl

theorem exists_rowOf (h : Listable t ns) (href : ref ∈ blobRefs t ns)
    (hmatching : matching t now ns options ref.blobHash = true) :
    ∃ entry, rowOf t now ns options ref = some entry ∧ entry.blobHash = ref.blobHash ∧
      entry.seqNum = UInt64.ofNat ref.seqNum := by
  rw [← isSome_rowOf h href] at hmatching
  obtain ⟨entry, hentry⟩ := Option.isSome_iff_exists.mp hmatching
  exact ⟨entry, hentry, rowOf_eq_some hentry⟩

/-- The answer to a request is the page behind its position. -/
theorem handleListRequest_listRequest {sinceSeq : UInt64} (hsince : sinceSeq.toNat + 1 < 2 ^ 64)
    (limit : UInt32) :
    let rest := behind BlobRef.seqNum sinceSeq.toNat (blobRefs t ns)
    handleListRequest t now (listRequest ns sinceSeq limit options) =
      .ok (encodeListResponse
        ((rest.take (effectiveLimit limit)).filterMap (rowOf t now ns options))
        (decide (effectiveLimit limit < rest.length))) := by
  intro rest
  have hrefs : getBlobRefsSince t ns sinceSeq (effectiveLimit limit + 1) =
      rest.take (effectiveLimit limit + 1) := by
    have hnext : (sinceSeq + 1).toNat = sinceSeq.toNat + 1 := by
      rw [UInt64.toNat_add]
      exact Nat.mod_eq_of_lt hsince
    simp only [getBlobRefsSince, hnext, gt_iff_lt, Nat.succ_pos, if_true]
    rfl
  have hmore : decide ((rest.take (effectiveLimit limit + 1)).length > effectiveLimit limit) =
      decide (effectiveLimit limit < rest.length) := by
    rw [decide_eq_decide, List.length_take]
    omega
  have hpage : (if decide (effectiveLimit limit < rest.length) = true then
      (rest.take (effectiveLimit limit + 1)).take (effectiveLimit limit)
      else rest.take (effectiveLimit limit + 1)) = rest.take (effectiveLimit limit) := by
    split_ifs with h
    · rw [List.take_take, Nat.min_eq_left (Nat.le_succ _)]
    · have hshort : rest.length ≤ effectiveLimit limit := by simpa using h
      rw [List.take_of_length_le hshort, List.take_of_length_le (Nat.le_succ_of_le hshort)]
  simp only [handleListRequest, parseListRequest_listRequest, hrefs, hmore, hpage]
  rfl

/-- One turn of the loop, with the response at hand. -/
theorem listPages_succ {server : Bytes → Except UInt8 Bytes} {limit : UInt32} {fuel : Nat}
    {sinceSeq : UInt64} {payload : Bytes} {entries : List ListEntry} {hasMore : UInt8}
    (hserver : server (listRequest ns sinceSeq limit options) = .ok payload)
    (hparse : parseListResponse payload = some (entries, hasMore)) :
    listPages server ns limit options (fuel + 1) sinceSeq =
      match entries.getLast? with
      | none => some entries
      | some last =>
        if hasMore = 0 then some entries
        else (listPages server ns limit options fuel last.seqNum).map (entries ++ ·) := by
  cases hlast : entries.getLast? <;> simp only [listPages, hserver, hparse, hlast]

/-- **The paging loop follows the sequence entries.** -/
theorem listPages_eq_follow (h : Listable t ns) (limit : UInt32) :
    ∀ (fuel : Nat) (sinceSeq : UInt64),
    sinceSeq.toNat + 1 < 2 ^ 64 →
    listPages (handleListRequest t now) ns limit options fuel sinceSeq =
      (follow BlobRef.seqNum (fun ref => matching t now ns options ref.blobHash)
        (effectiveLimit limit) (blobRefs t ns) fuel sinceSeq.toNat).map
          (List.filterMap (rowOf t now ns options))
  | 0, _, _ => rfl
  | fuel + 1, sinceSeq, hsince => by
    set visible : BlobRef → Bool := fun ref => matching t now ns options ref.blobHash with hvisible
    set rest := behind BlobRef.seqNum sinceSeq.toNat (blobRefs t ns) with hrest
    set page := shown visible (effectiveLimit limit) rest with hpage
    have hmem {ref : BlobRef} (href : ref ∈ rest.take (effectiveLimit limit)) :
        ref ∈ blobRefs t ns := List.mem_of_mem_filter (List.mem_of_mem_take href)
    have hentries : (rest.take (effectiveLimit limit)).filterMap (rowOf t now ns options) =
        page.filterMap (rowOf t now ns options) :=
      (filterMap_filter_isSome fun ref href => isSome_rowOf h (hmem href)).symm
    have hlength : (page.filterMap (rowOf t now ns options)).length < 2 ^ 32 := by
      have hle : (page.filterMap (rowOf t now ns options)).length ≤ effectiveLimit limit := by
        rw [← hentries]
        exact (List.length_filterMap_le _ _).trans (List.length_take_le _ _)
      have hmax : effectiveLimit limit ≤ MAX_LIST_LIMIT := by
        unfold effectiveLimit
        split_ifs <;> omega
      exact (hle.trans hmax).trans_lt (by decide)
    have hlast : (page.filterMap (rowOf t now ns options)).getLast?.map ListEntry.seqNum =
        page.getLast?.map fun ref => UInt64.ofNat ref.seqNum := by
      rw [← List.getLast?_map, ← List.getLast?_map, map_filterMap fun ref href => ?_]
      obtain ⟨hpresent, hmatches⟩ := List.mem_filter.mp href
      obtain ⟨entry, hentry, -, hseq⟩ := exists_rowOf h (hmem hpresent) hmatches
      exact ⟨entry, hentry, hseq⟩
    have hserver : handleListRequest t now (listRequest ns sinceSeq limit options) =
        .ok (encodeListResponse (page.filterMap (rowOf t now ns options))
          (decide (effectiveLimit limit < rest.length))) := by
      rw [handleListRequest_listRequest hsince, hentries]
    rw [listPages_succ hserver (parseListResponse_encodeListResponse hlength _), follow]
    simp only [← hrest]
    cases hend : page.getLast? with
    | none =>
      obtain hempty : page = [] := List.getLast?_eq_none_iff.mp hend
      simp only [hempty]
      rfl
    | some last =>
      have hpresent : last ∈ blobRefs t ns :=
        hmem (List.mem_of_mem_filter (List.mem_of_getLast? hend))
      rw [hend, Option.map_some, Option.map_eq_some_iff] at hlast
      obtain ⟨lastEntry, hlastEntry, hseq⟩ := hlast
      have hbound := (h.numbered last hpresent).2
      have hnumber : lastEntry.seqNum.toNat = last.seqNum := by
        rw [hseq, UInt64.toNat_ofNat']
        exact Nat.mod_eq_of_lt (by omega)
      have ih := listPages_eq_follow h limit fuel lastEntry.seqNum (by rw [hnumber]; exact hbound)
      simp only [← hpage, hlastEntry]
      by_cases hshort : rest.length ≤ effectiveLimit limit
      · have hno : decide (effectiveLimit limit < rest.length) = false := by simpa using hshort
        simp [hshort, hno]
      · have hyes : decide (effectiveLimit limit < rest.length) = true := by simpa using hshort
        rw [if_neg hshort, hyes, if_neg (by simp), ih, hnumber, Option.map_map, Option.map_map]
        congr 1
        funext given
        exact (List.filterMap_append ..).symm

end Loop

/-! ## Complete listings -/

section Complete

variable {t : Tables} {now : UInt64} {ns : Hash32} {options : ListOptions} {P : Primitives}
  {events : List Engine.Event}

/-- Every matching blob has one sequence entry that `limit` hidden entries in a row do not come
before. -/
def Reachable (t : Tables) (now : UInt64) (ns : Hash32) (options : ListOptions) (limit : Nat) :
    Prop :=
  ∀ hash, matching t now ns options hash = true →
    ∃! ref, ref ∈ blobRefs t ns ∧ ref.blobHash = hash ∧
      ¬Obscured (fun ref => matching t now ns options ref.blobHash) limit (blobRefs t ns) ref

/-- A listing ends. Its sequence numbers ascend, and every matching blob is listed once exactly if
it can be reached. -/
theorem listPages_complete_iff (h : Listable t ns) (limit : UInt32) {fuel : Nat}
    (hfuel : (blobRefs t ns).length < fuel) :
    ∃ given, listPages (handleListRequest t now) ns limit options fuel 0 = some given ∧
      given.Pairwise (fun a b => a.seqNum < b.seqNum) ∧
      ((∀ hash, (given.map ListEntry.blobHash).count hash =
          if matching t now ns options hash then 1 else 0) ↔
        Reachable t now ns options (effectiveLimit limit)) := by
  set visible : BlobRef → Bool := fun ref => matching t now ns options ref.blobHash with hvisible
  have hall : behind BlobRef.seqNum 0 (blobRefs t ns) = blobRefs t ns :=
    List.filter_eq_self.mpr fun ref href => by simpa using (h.numbered ref href).1
  obtain ⟨given, hgiven, hbegins, hmem⟩ := @follow_spec _ BlobRef.seqNum visible
    (effectiveLimit limit) _ (pairwise_blobRefs t ns) fuel 0 (by rwa [hall])
  rw [hall] at hbegins hmem
  have hrow : ∀ ref ∈ given, ∃ entry, rowOf t now ns options ref = some entry ∧
      entry.blobHash = ref.blobHash ∧ entry.seqNum = UInt64.ofNat ref.seqNum := by
    intro ref href
    obtain ⟨hpresent, hmatches, -⟩ := (hmem ref).mp href
    exact exists_rowOf h hpresent hmatches
  have hordered : given.Pairwise fun a b => a.seqNum < b.seqNum :=
    (pairwise_blobRefs t ns).sublist (hbegins.sublist.trans List.filter_sublist)
  have hhashes : (given.filterMap (rowOf t now ns options)).map ListEntry.blobHash =
      given.map BlobRef.blobHash := by
    refine map_filterMap fun ref href => ?_
    obtain ⟨entry, hentry, hhash, -⟩ := hrow ref href
    exact ⟨entry, hentry, hhash⟩
  refine ⟨given.filterMap (rowOf t now ns options), ?_, ?_, ?_⟩
  · rw [listPages_eq_follow h limit fuel 0 (by decide)]
    exact congrArg (Option.map _) hgiven
  · have hnumbers : (given.filterMap (rowOf t now ns options)).map ListEntry.seqNum =
        given.map fun ref => UInt64.ofNat ref.seqNum := by
      refine map_filterMap fun ref href => ?_
      obtain ⟨entry, hentry, -, hseq⟩ := hrow ref href
      exact ⟨entry, hentry, hseq⟩
    rw [← List.pairwise_map (f := ListEntry.seqNum) (R := (· < ·)), hnumbers, List.pairwise_map]
    refine hordered.imp_of_mem fun {a b} ha hb hlt => ?_
    have hbound (ref : BlobRef) (href : ref ∈ given) : ref.seqNum < 2 ^ 64 :=
      Nat.lt_of_succ_lt (h.numbered ref ((hmem ref).mp href).1).2
    rw [UInt64.lt_iff_toNat_lt, UInt64.toNat_ofNat_of_lt' (hbound a ha),
      UInt64.toNat_ofNat_of_lt' (hbound b hb)]
    exact hlt
  · rw [hhashes]
    have hnodup : given.Nodup := hordered.imp fun hlt heq => absurd (heq ▸ hlt) (Nat.lt_irrefl _)
    have hnone : ∀ hash, matching t now ns options hash = false →
        (given.map BlobRef.blobHash).count hash = 0 := by
      intro hash hhidden
      rw [List.count_eq_zero]
      intro hpresent
      obtain ⟨ref, href, rfl⟩ := List.mem_map.mp hpresent
      have hmatches : matching t now ns options ref.blobHash = true := ((hmem ref).mp href).2.1
      rw [hhidden] at hmatches
      exact absurd hmatches (by simp)
    have hone : ∀ hash, matching t now ns options hash = true →
        ((given.map BlobRef.blobHash).count hash = 1 ↔ ∃! ref, ref ∈ blobRefs t ns ∧
          ref.blobHash = hash ∧ ¬Obscured visible (effectiveLimit limit) (blobRefs t ns) ref) := by
      intro hash hmatches
      rw [count_map_eq_one_iff hnodup]
      refine existsUnique_congr fun ref => ?_
      rw [hmem]
      constructor
      · rintro ⟨⟨hpresent, -, hclear⟩, hhash⟩
        exact ⟨hpresent, hhash, hclear⟩
      · rintro ⟨hpresent, rfl, hclear⟩
        exact ⟨⟨hpresent, hmatches, hclear⟩, rfl⟩
    constructor
    · intro hcount hash hmatches
      refine (hone hash hmatches).mp ?_
      rw [hcount hash, hmatches, if_pos rfl]
    · intro hreach hash
      cases hmatches : matching t now ns options hash with
      | false => simpa using hnone hash hmatches
      | true => simpa using (hone hash hmatches).mpr (hreach hash hmatches)

/-- A namespace with fewer hidden entries than a page has can be reached, if no blob has two
entries. -/
theorem reachable_of_countP_lt (h : Listable t ns) {limit : Nat}
    (hhidden : (blobRefs t ns).countP (fun ref => !matching t now ns options ref.blobHash) < limit)
    (hnodup : ((blobRefs t ns).map BlobRef.blobHash).Nodup) : Reachable t now ns options limit := by
  intro hash hmatches
  obtain ⟨blob, hblob⟩ : ∃ blob, t.getBlob ns hash = some blob := by
    unfold matching at hmatches
    cases hblob : t.getBlob ns hash with
    | none => simp [hblob] at hmatches
    | some blob => exact ⟨blob, rfl⟩
  obtain ⟨ref, href, rfl⟩ := h.listed hash blob hblob
  refine ⟨ref, ⟨href, rfl, not_obscured_of_countP_lt hhidden ref⟩, ?_⟩
  rintro other ⟨hother, hsame, -⟩
  exact List.inj_on_of_nodup_map hnodup hother href hsame

theorem mem_blobRefs : ref ∈ blobRefs t ns ↔
    get₂ t.seq ns ref.seqNum = some { hash := ref.blobHash, blobType := ref.blobType } ∧
      ref.blobHash ≠ zeroHash := by
  obtain ⟨blobHash, seqNum, blobType⟩ := ref
  simp only [blobRefs, List.mem_map, List.mem_filter, bne_iff_ne, ne_eq, BlobRef.mk.injEq,
    Prod.exists, mem_seqEntries]
  constructor
  · rintro ⟨n, entry, ⟨hentry, hne⟩, rfl, rfl, rfl⟩
    exact ⟨hentry, hne⟩
  · rintro ⟨hentry, hne⟩
    exact ⟨seqNum, _, ⟨hentry, hne⟩, rfl, rfl, rfl⟩

section Run

variable (hzero : ∀ blob, Engine.Handed events blob → contentHash P blob ≠ zeroHash)
  (htype : ∀ a b, Engine.Handed events a → Engine.Handed events b →
    contentHash P a = contentHash P b → extractBlobType a.data = extractBlobType b.data)

include hzero in
/-- Every stored blob of a run has a sequence entry. -/
theorem listed_run {hash : Hash32} {blob : BlobData}
    (hblob : (run (Engine.Node.step P) {} events).tables.getBlob ns hash = some blob) :
    ∃ ref ∈ blobRefs (run (Engine.Node.step P) {} events).tables ns, ref.blobHash = hash := by
  obtain ⟨hhanded, rfl, n, entry, hentry, hname⟩ :=
    (Engine.catalogued_run events).listed ns hash blob hblob
  refine ⟨{ blobHash := entry.hash, seqNum := n, blobType := entry.blobType },
    mem_blobRefs.mpr ⟨hentry, ?_⟩, hname⟩
  rw [hname]
  exact hzero blob hhanded

include htype in
/-- The type of an entry is that of the blob that is stored, if one hash stands for one type. -/
theorem typed_run
    (href : ref ∈ blobRefs (run (Engine.Node.step P) {} events).tables ns) {blob : BlobData}
    (hblob : (run (Engine.Node.step P) {} events).tables.getBlob ns ref.blobHash = some blob) :
    ref.blobType = extractBlobType blob.data := by
  obtain ⟨hentry, hne⟩ := mem_blobRefs.mp href
  obtain ⟨described, hdescribed, hhash, htyped⟩ :=
    (Engine.catalogued_run events).described ns _ _ hentry hne
  obtain ⟨hhanded, hname, -⟩ := (Engine.catalogued_run events).listed ns _ blob hblob
  exact htyped.symm.trans (htype described blob hdescribed hhanded (hhash.trans hname.symm))

include hzero htype in
/-- The tables of a run can be listed, if blobs are told apart by their hashes. -/
theorem listable_run
    (hnumber : ∀ ref ∈ blobRefs (run (Engine.Node.step P) {} events).tables ns,
      ref.seqNum + 1 < 2 ^ 64) :
    Listable (run (Engine.Node.step P) {} events).tables ns where
  numbered ref href :=
    ⟨(Engine.catalogued_run events).numbered ns _ _ (mem_blobRefs.mp href).1, hnumber ref href⟩
  listed _ _ hblob := listed_run hzero hblob
  typed _ href _ hblob := typed_run htype href hblob

end Run

/-- **Listing a namespace.** In every state a node reaches, the paging loop ends, and the sequence
numbers it was given ascend. It was given each matching blob once, and nothing else, exactly if
every matching blob has one sequence entry that no page-length run of hidden entries comes
before. -/
theorem listing_complete_iff (P : Primitives) (events : List Engine.Event)
    (hzero : ∀ blob, Engine.Handed events blob → contentHash P blob ≠ zeroHash)
    (htype : ∀ a b, Engine.Handed events a → Engine.Handed events b →
      contentHash P a = contentHash P b → extractBlobType a.data = extractBlobType b.data)
    (ns : Hash32) (hnumber : ∀ ref ∈ blobRefs (run (Engine.Node.step P) {} events).tables ns,
      ref.seqNum + 1 < 2 ^ 64)
    (now : UInt64) (options : ListOptions) (limit : UInt32) (fuel : Nat)
    (hfuel : (blobRefs (run (Engine.Node.step P) {} events).tables ns).length < fuel) :
    let t := (run (Engine.Node.step P) {} events).tables
    ∃ given, listPages (handleListRequest t now) ns limit options fuel 0 = some given ∧
      given.Pairwise (fun a b => a.seqNum < b.seqNum) ∧
      ((∀ hash, (given.map ListEntry.blobHash).count hash =
          if matching t now ns options hash then 1 else 0) ↔
        Reachable t now ns options (effectiveLimit limit)) :=
  listPages_complete_iff (listable_run hzero htype hnumber) limit hfuel

end Complete

section Sample

open Wire.Sample Engine

/-- A namespace with a key and a note. -/
def keyAndNote : List Engine.Event := ownerEvents [pubk 1 (owned 1) 3000000, note]

-- the list of the PUBK's bytes is as deep as it is long
set_option maxRecDepth 20000 in
/-- Two pages of one entry. -/
theorem listing_complete_keyAndNote :
    let t := (run (Node.step primitives) {} keyAndNote).tables
    ∃ given, listPages (handleListRequest t 3000000) (owned 1) 1 {} 3 0 = some given ∧
      given.Pairwise (fun a b => a.seqNum < b.seqNum) ∧
      ∀ hash, (given.map ListEntry.blobHash).count hash =
        if matching t 3000000 (owned 1) {} hash then 1 else 0 := by
  have hblobs : (∀ blob ∈ blobsOf keyAndNote, contentHash primitives blob ≠ zeroHash) ∧
      ∀ a ∈ blobsOf keyAndNote, ∀ b ∈ blobsOf keyAndNote,
        contentHash primitives a = contentHash primitives b →
        extractBlobType a.data = extractBlobType b.data := by
    decide +kernel
  have hhanded {blob : BlobData} : Handed keyAndNote blob → blob ∈ blobsOf keyAndNote :=
    fun ⟨_, _, hcall⟩ => mem_blobsOf hcall
  have hzero : ∀ blob, Handed keyAndNote blob → contentHash primitives blob ≠ zeroHash :=
    fun blob h => hblobs.1 blob (hhanded h)
  have htype : ∀ a b, Handed keyAndNote a → Handed keyAndNote b →
      contentHash primitives a = contentHash primitives b →
      extractBlobType a.data = extractBlobType b.data :=
    fun a b ha hb => hblobs.2 a (hhanded ha) b (hhanded hb)
  have hnumber : ∀ ref ∈ blobRefs (run (Node.step primitives) {} keyAndNote).tables (owned 1),
      ref.seqNum + 1 < 2 ^ 64 := by
    decide +kernel
  obtain ⟨given, hgiven, hordered, hcomplete⟩ := listing_complete_iff primitives keyAndNote hzero
    htype (owned 1) hnumber 3000000 {} 1 3 (by decide +kernel)
  refine ⟨given, hgiven, hordered, hcomplete.mpr ?_⟩
  exact reachable_of_countP_lt (listable_run hzero htype hnumber) (by decide +kernel)
    (by decide +kernel)

/-- A key, two tombstones, and then a note. -/
def noteBehindGraves : List Engine.Event :=
  ownerEvents [pubk 1 (owned 1) 3000000] ++
  ((List.range 2).flatMap fun n =>
    callAlone (n + 1) sampleEnv .deleteBlob (owned 1)
      (signed (key 1) (owned 1) (owned 1)
        (TOMBSTONE_MAGIC ++ (owned (UInt8.ofNat (n + 2))).toList) 0 (3000002 + UInt64.ofNat n))) ++
  callAlone 3 sampleEnv .ingest (owned 1) note

/-- With pages of two entries, a page with nothing but tombstones ends the listing before the
note. -/
theorem listing_hidden_page :
    let t := (run (Node.step primitives) {} noteBehindGraves).tables
    matching t 3000000 (owned 1) {} noteHash = true ∧
      (listPages (handleListRequest t 3000000) (owned 1) 2 {} 100 0).map
          (fun given => given.map ListEntry.blobHash) =
        some [contentHash primitives (pubk 1 (owned 1) 3000000)] := by
  decide +kernel

end Sample

end Cli
