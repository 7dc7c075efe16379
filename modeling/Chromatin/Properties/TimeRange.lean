import Chromatin.Peer.QueryClient
import Chromatin.Properties.Listing
import Chromatin.Properties.NamespaceHashes

/-!
# Time ranges

`TimeRangeRequest` looks at the first sequence entries of a namespace and stops when it has as many
results as were asked for. A response that is not marked as truncated has come to the end of the
entries, so it lists the blobs of the range. It lists one of them twice if the blob has two entries:
an expiry scan that removes a blob leaves its entry, and the blob may be stored again when the clock
has gone back.

* `timeRange_complete` — without the mark, the results are the rows of all entries
* `time_range_iff` — they name the blobs of the range, and each once exactly if it has one entry
-/

namespace Peer

open Infra Util Wire Storage

/-! ## The two cut-offs -/

section Cut

variable {row : BlobRef → Option TimeRangeEntry} {limit : Nat}

/-- The loop comes to its end below the limit, with the rows of all entries. -/
theorem timeRangeFrom_eq :
    ∀ {refs : List BlobRef} {results : List TimeRangeEntry}, results.length < limit →
    (timeRangeFrom row limit refs results).2 = false →
    (timeRangeFrom row limit refs results).1 = results ++ refs.filterMap row ∧
      (timeRangeFrom row limit refs results).1.length < limit
  | [], results, hlimit, _ => ⟨by simp [timeRangeFrom], hlimit⟩
  | ref :: rest, results, hlimit, hend => by
    unfold timeRangeFrom at hend ⊢
    cases hrow : row ref with
    | none =>
      rw [List.filterMap_cons_none hrow]
      simp only [hrow] at hend
      exact timeRangeFrom_eq hlimit hend
    | some result =>
      simp only [hrow] at hend ⊢
      split_ifs at hend ⊢ with hfull
      obtain ⟨hresults, hlength⟩ := timeRangeFrom_eq (Nat.not_le.mp hfull) hend
      rw [List.append_assoc, List.singleton_append] at hresults
      rw [List.filterMap_cons_some hrow]
      exact ⟨hresults, hlength⟩

/-- It never has more results than the limit. -/
theorem length_timeRangeFrom_le :
    ∀ {refs : List BlobRef} {results : List TimeRangeEntry}, results.length < limit →
    (timeRangeFrom row limit refs results).1.length ≤ limit
  | [], _, hlimit => hlimit.le
  | ref :: rest, results, hlimit => by
    unfold timeRangeFrom
    cases row ref with
    | none => exact length_timeRangeFrom_le hlimit
    | some result =>
      dsimp only
      split_ifs with hfull
      · rw [List.length_append, List.length_singleton]
        exact hlimit
      · exact length_timeRangeFrom_le (Nat.not_le.mp hfull)

end Cut

theorem effectiveLimit_bounds (limit : UInt32) :
    0 < effectiveLimit limit ∧ effectiveLimit limit ≤ 100 := by
  unfold effectiveLimit MAX_LIST_LIMIT
  split_ifs <;> omega

section Complete

variable {t : Tables} {now : UInt64} {q : TimeRangeQuery} {ref : BlobRef}

/-- A response that is not marked has the rows of all entries. -/
theorem timeRange_complete (hnumbered : ∀ ref ∈ blobRefs t q.ns, 0 < ref.seqNum)
    (hend : (timeRange t now q).2 = false) :
    (timeRange t now q).1 = (blobRefs t q.ns).filterMap (timeRangeRow t now q) := by
  have hfrom : ((blobRefs t q.ns).filter fun ref => ((0 : UInt64) + 1).toNat ≤ ref.seqNum) =
    blobRefs t q.ns :=
    List.filter_eq_self.mpr fun ref href => decide_eq_true (hnumbered ref href)
  have hrefs : getBlobRefsSince t q.ns 0 SCAN_LIMIT = (blobRefs t q.ns).take SCAN_LIMIT := by
    unfold getBlobRefsSince
    rw [hfrom]
    exact if_pos (by decide)
  unfold timeRange at hend ⊢
  rw [hrefs] at hend ⊢
  simp only [Bool.or_eq_false_iff, Bool.and_eq_false_iff, decide_eq_false_iff_not] at hend
  obtain ⟨hfull, hscan⟩ := hend
  obtain ⟨hresults, hlength⟩ := timeRangeFrom_eq (effectiveLimit_bounds q.limit).1 hfull
  have hall : (blobRefs t q.ns).take SCAN_LIMIT = blobRefs t q.ns := by
    have hshort := hscan.resolve_right (not_not_intro hlength)
    rw [List.length_take] at hshort
    exact List.take_of_length_le (by omega)
  rw [hall] at hresults ⊢
  simpa using hresults

/-- The blob is stored and has not expired, its data begins with neither magic, and its time is in
the range. -/
def InRange (t : Tables) (now : UInt64) (q : TimeRangeQuery) (hash : Hash32) : Prop :=
  ∃ blob, t.getBlob q.ns hash = some blob ∧ isBlobExpired blob now = false ∧
    hasMagic TOMBSTONE_MAGIC blob.data = false ∧ hasMagic DELEGATION_MAGIC blob.data = false ∧
    q.startTs ≤ blob.timestamp ∧ blob.timestamp ≤ q.endTs

/-- The type that is stored in the index tells whether the data begins with a magic. -/
theorem extractBlobType_eq_iff {magic data : Bytes} (hlength : magic.length = 4)
    (hzero : magic ≠ [0, 0, 0, 0]) : (extractBlobType data).toList = magic ↔
    hasMagic magic data = true := by
  unfold extractBlobType hasMagic readFixed
  rw [beq_iff_eq, List.drop_zero]
  split_ifs with htake
  · rfl
  · refine iff_of_false (fun h => hzero h.symm) fun h => htake ?_
    rw [h, hlength]

/-- An entry has a row exactly if its blob is in the range. -/
theorem isSome_timeRangeRow
    (htyped : ∀ blob, t.getBlob q.ns ref.blobHash = some blob →
      ref.blobType = extractBlobType blob.data) :
    (∃ entry, timeRangeRow t now q ref = some entry ∧ entry.blobHash = ref.blobHash) ↔
      InRange t now q ref.blobHash := by
  unfold timeRangeRow InRange
  cases hblob : t.getBlob q.ns ref.blobHash with
  | none => simp
  | some blob =>
    have htombstone := @extractBlobType_eq_iff TOMBSTONE_MAGIC blob.data rfl (by decide)
    have hdelegation := @extractBlobType_eq_iff DELEGATION_MAGIC blob.data rfl (by decide)
    simp only [htyped blob hblob, htombstone, hdelegation, Option.some.injEq, exists_eq_left']
    split_ifs with hmagic hexpired hrange
    · refine iff_of_false (by simp) ?_
      rintro ⟨-, htomb, hdeleg, -⟩
      rw [htomb, hdeleg] at hmagic
      simp at hmagic
    · simp [hexpired]
    · push Not at hmagic
      exact iff_of_true ⟨_, rfl, rfl⟩
        ⟨Bool.eq_false_of_not_eq_true hexpired, Bool.eq_false_of_not_eq_true hmagic.1,
          Bool.eq_false_of_not_eq_true hmagic.2, hrange⟩
    · exact iff_of_false (by simp) fun h => hrange h.2.2.2

theorem blobHash_timeRangeRow {entry : TimeRangeEntry}
    (h : timeRangeRow t now q ref = some entry) : entry.blobHash = ref.blobHash := by
  unfold timeRangeRow at h
  split_ifs at h
  split at h
  · exact absurd h (by simp)
  · split_ifs at h
    obtain rfl := Option.some.inj h
    rfl

/-- The hashes of the rows are those of the entries that have one. -/
theorem map_blobHash_rows (refs : List BlobRef) :
    (refs.filterMap (timeRangeRow t now q)).map TimeRangeEntry.blobHash =
      (refs.filter fun ref => (timeRangeRow t now q ref).isSome).map BlobRef.blobHash := by
  rw [← Cli.filterMap_filter_isSome fun _ _ => rfl, Cli.map_filterMap fun ref href => ?_]
  obtain ⟨entry, hentry⟩ := Option.isSome_iff_exists.mp (List.mem_filter.mp href).2
  exact ⟨entry, hentry, blobHash_timeRangeRow hentry⟩

/-- The index of a namespace: every stored blob has an entry, and an entry has the type of its blob.
-/
structure SeqIndexed (t : Tables) (ns : Hash32) : Prop where
  numbered : ∀ ref ∈ blobRefs t ns, 0 < ref.seqNum
  listed : ∀ hash blob, t.getBlob ns hash = some blob → ∃ ref ∈ blobRefs t ns, ref.blobHash = hash
  typed : ∀ ref ∈ blobRefs t ns, ∀ blob, t.getBlob ns ref.blobHash = some blob →
    ref.blobType = extractBlobType blob.data

/-- The entry of a blob of the range is the only one. -/
def SoleEntries (t : Tables) (now : UInt64) (q : TimeRangeQuery) : Prop :=
  ∀ hash, InRange t now q hash → ∃! ref, ref ∈ blobRefs t q.ns ∧ ref.blobHash = hash

theorem mem_rows (h : SeqIndexed t q.ns) :
    ref ∈ (blobRefs t q.ns).filter (fun ref => (timeRangeRow t now q ref).isSome) ↔
      ref ∈ blobRefs t q.ns ∧ InRange t now q ref.blobHash := by
  rw [List.mem_filter]
  refine and_congr_right fun href => ?_
  rw [← isSome_timeRangeRow (h.typed ref href), Option.isSome_iff_exists]
  exact exists_congr fun entry => ⟨fun hentry => ⟨hentry, blobHash_timeRangeRow hentry⟩, And.left⟩

/-- What the rows of all entries name. -/
theorem rows_spec (h : SeqIndexed t q.ns) :
    let hashes := ((blobRefs t q.ns).filterMap (timeRangeRow t now q)).map TimeRangeEntry.blobHash
    (∀ hash, hash ∈ hashes ↔ InRange t now q hash) ∧ (hashes.Nodup ↔ SoleEntries t now q) := by
  intro hashes
  have hhashes : hashes = _ := map_blobHash_rows (blobRefs t q.ns)
  have hnodup : (blobRefs t q.ns).Nodup :=
    (Cli.pairwise_blobRefs t q.ns).imp fun hlt heq => absurd (heq ▸ hlt) (Nat.lt_irrefl _)
  rw [hhashes]
  refine ⟨fun hash => ?_, fun hrows hash hrange => ?_, fun hsole => ?_⟩
  · rw [List.mem_map]
    constructor
    · rintro ⟨ref, href, rfl⟩
      exact ((mem_rows h).mp href).2
    · rintro ⟨blob, hblob, hrest⟩
      obtain ⟨ref, href, rfl⟩ := h.listed hash blob hblob
      exact ⟨ref, (mem_rows h).mpr ⟨href, blob, hblob, hrest⟩, rfl⟩
  · obtain ⟨blob, hblob, -⟩ := id hrange
    obtain ⟨ref, href, rfl⟩ := h.listed hash blob hblob
    refine ⟨ref, ⟨href, rfl⟩, ?_⟩
    rintro other ⟨hother, hsame⟩
    exact List.inj_on_of_nodup_map hrows ((mem_rows h).mpr ⟨hother, hsame ▸ hrange⟩)
      ((mem_rows h).mpr ⟨href, hrange⟩) hsame
  · refine List.Nodup.map_on ?_ (hnodup.filter _)
    intro a ha b hb hsame
    obtain ⟨hmema, hrange⟩ := (mem_rows h).mp ha
    exact (hsole _ hrange).unique ⟨hmema, rfl⟩ ⟨((mem_rows h).mp hb).1, hsame.symm⟩

end Complete

/-- The answer to an accepted request, as the client reads it. -/
theorem parse_handleTimeRangeRequest {t : Tables} {now : UInt64} {payload : Bytes}
    {q : TimeRangeQuery}
    (haccepted : parseTimeRangeRequest payload = .ok q) :
    ∃ response, handleTimeRangeRequest t now payload = .ok response ∧
      parseTimeRangeResponse response =
        some ((timeRange t now q).1, if (timeRange t now q).2 then 1 else 0) := by
  have hlength : (timeRange t now q).1.length ≤ effectiveLimit q.limit :=
    length_timeRangeFrom_le (effectiveLimit_bounds q.limit).1
  have hbound := (effectiveLimit_bounds q.limit).2
  refine ⟨encodeTimeRangeResponse (timeRange t now q).1 (timeRange t now q).2, ?_,
    parseTimeRangeResponse_encode (by omega) _⟩
  unfold handleTimeRangeRequest
  rw [haccepted]
  rfl

section Run

variable {P : Primitives} {events : List Engine.Event}
  (hcollision : Set.InjOn (contentHash P) { blob | Engine.Handed events blob })
  (hzero : ∀ blob, Engine.Handed events blob → contentHash P blob ≠ zeroHash)

include hcollision hzero

theorem seqIndexed_run (ns : Hash32) :
    SeqIndexed (run (Engine.Node.step P) {} events).tables ns where
  numbered _ href := (Engine.catalogued_run events).numbered ns _ _ (Cli.mem_blobRefs.mp href).1
  listed _ _ hblob := Cli.listed_run hzero hblob
  typed _ href _ hblob :=
    Cli.typed_run (fun _ _ ha hb heq => by rw [hcollision ha hb heq]) href hblob

/-- If no scan ran at a later time, a blob of the range has one entry. -/
theorem soleEntries_run {now : UInt64}
    (hclock : ∀ now', .expiryScan now' ∈ events → now' ≤ now) (q : TimeRangeQuery) :
    SoleEntries (run (Engine.Node.step P) {} events).tables now q := by
  rintro hash ⟨blob, hblob, hfresh, -⟩
  obtain ⟨ref, href, rfl⟩ := Cli.listed_run hzero hblob
  refine ⟨ref, ⟨href, rfl⟩, ?_⟩
  rintro other ⟨hother, hsame⟩
  obtain ⟨hentry, hne⟩ := Cli.mem_blobRefs.mp href
  obtain ⟨hentry', -⟩ := Cli.mem_blobRefs.mp hother
  have hnumber : other.seqNum = ref.seqNum := by
    rcases (Engine.stale_run (P := P) events hclock).unique q.ns _ _ _ _ hentry' hentry hsame
      (hsame ▸ hne) with hequal | hlapsed
    · exact hequal
    · exact absurd (hsame ▸ hlapsed) (Engine.not_lapsed_run hcollision hblob hfresh)
  rw [hnumber, hentry] at hentry'
  obtain ⟨_, _, _⟩ := ref
  obtain ⟨_, _, _⟩ := other
  simp_all

end Run

/-- **A response that is not truncated names the blobs of the range**, in every state a node
reaches: those that are stored, have not expired, are neither tombstones nor delegations by their
magic, and lie in the range of time. It names each of them once exactly if each has one sequence
entry, and that is so if no expiry scan ran at a later time than the request. -/
theorem time_range_iff (P : Primitives) (events : List Engine.Event)
    (hcollision : Set.InjOn (contentHash P) { blob | Engine.Handed events blob })
    (hzero : ∀ blob, Engine.Handed events blob → contentHash P blob ≠ zeroHash)
    (now : UInt64) (payload : Bytes) (q : TimeRangeQuery)
    (haccepted : parseTimeRangeRequest payload = .ok q) :
    let t := (run (Engine.Node.step P) {} events).tables
    ∃ response results truncated, handleTimeRangeRequest t now payload = .ok response ∧
      parseTimeRangeResponse response = some (results, truncated) ∧
      (truncated = 0 →
        (∀ hash, hash ∈ results.map TimeRangeEntry.blobHash ↔ InRange t now q hash) ∧
        ((results.map TimeRangeEntry.blobHash).Nodup ↔ SoleEntries t now q) ∧
        ((∀ now', .expiryScan now' ∈ events → now' ≤ now) → SoleEntries t now q)) := by
  intro t
  have hindexed : SeqIndexed t q.ns := seqIndexed_run hcollision hzero q.ns
  obtain ⟨response, hresponse, hread⟩ := @parse_handleTimeRangeRequest t now _ _ haccepted
  refine ⟨response, _, _, hresponse, hread, fun htruncated => ?_⟩
  have hend : (timeRange t now q).2 = false := by
    cases hflag : (timeRange t now q).2 with
    | false => rfl
    | true => simp [hflag] at htruncated
  obtain ⟨hnamed, honce⟩ := @rows_spec t now q hindexed
  rw [timeRange_complete hindexed.numbered hend]
  exact ⟨hnamed, honce, fun hclock => soleEntries_run hcollision hzero hclock q⟩

section Sample

open Wire.Sample Engine

/-- All times. -/
def anyTime : TimeRangeQuery :=
  { ns := owned 1, startTs := 0, endTs := 0xFFFFFFFFFFFFFFFF, limit := 100 }

/-- A blob that was stored again after it had expired is not in the range any more. -/
theorem time_range_storedAgain :
    let t := (run (Node.step primitives) {} storedAgain).tables
    ∃ response results truncated, handleTimeRangeRequest t 3000020 (timeRangeRequest anyTime) =
      .ok response ∧
      parseTimeRangeResponse response = some (results, truncated) ∧
      (truncated = 0 →
        (∀ hash, hash ∈ results.map TimeRangeEntry.blobHash ↔ InRange t 3000020 anyTime hash) ∧
        ((results.map TimeRangeEntry.blobHash).Nodup ↔ SoleEntries t 3000020 anyTime) ∧
        ((∀ now', .expiryScan now' ∈ storedAgain → now' ≤ 3000020) →
          SoleEntries t 3000020 anyTime)) :=
  time_range_iff primitives storedAgain injOn_storedAgain nonzero_storedAgain 3000020 _ anyTime
    (parseTimeRangeRequest_timeRangeRequest (by decide))

/-- A blob is removed when it expires. Then the clock is set back, and the blob is stored once more.
-/
def clockSetBack : List Event :=
  ownerEvents [pubk 1 (owned 1) 2999999, shortLived 3000000] ++ .expiryScan 3000020 ::
    callAlone 2 { sampleEnv with now := 3000005 } .ingest (owned 1) (shortLived 3000000)

/-- It is listed twice. -/
theorem time_range_twice :
    let t := (run (Node.step primitives) {} clockSetBack).tables
    let answer := handleTimeRangeRequest t 3000005 (timeRangeRequest anyTime)
    (answer.toOption.bind parseTimeRangeResponse).map
        (fun (results, truncated) => (results.map TimeRangeEntry.blobHash, truncated)) =
      some ([contentHash primitives (pubk 1 (owned 1) 2999999),
        contentHash primitives (shortLived 3000000),
        contentHash primitives (shortLived 3000000)], 0) := by
  decide +kernel

end Sample

end Peer
