import Chromatin.Properties.EngineSteps
import Chromatin.Storage.Cursors

/-!
# The sequence index

Every namespace has a sequence table, which only grows: a new blob gets the next number, and the
entry of a deleted blob is overwritten by the zero sentinel. `Indexed` says that the entries that
are left are those of the stored blobs, one for each, and `indexed_run` that it holds in every run
without an expiry scan, which leaves the entries of the blobs it removes. `Catalogued` is what is
left with expiry scans: every stored blob has an entry (`catalogued_run`).
-/

namespace Storage

open Infra Util Wire

/-- The entries that are not sentinels are those of the stored blobs, one for each. -/
structure Indexed (t : Tables) : Prop where
  live : ∀ ns n entry, get₂ t.seq ns n = some entry → entry.hash ≠ zeroHash →
    (t.getBlob ns entry.hash).isSome = true
  listed : ∀ ns hash blob, t.getBlob ns hash = some blob →
    ∃ n entry, get₂ t.seq ns n = some entry ∧ entry.hash = hash
  unique : ∀ ns n m entry entry', get₂ t.seq ns n = some entry → get₂ t.seq ns m = some entry' →
    entry.hash = entry'.hash → entry.hash ≠ zeroHash → n = m
  nonzero : ∀ ns, t.getBlob ns zeroHash = none

/-- The hashes of a namespace are those of its blobs. -/
theorem Indexed.mem_getHashesByNamespace {t : Tables} (h : Indexed t) {ns hash : Hash32} :
    hash ∈ t.getHashesByNamespace ns ↔ ∃ blob, t.getBlob ns hash = some blob := by
  rw [Tables.getHashesByNamespace, List.mem_filter, List.mem_map]
  constructor
  · rintro ⟨⟨⟨n, entry⟩, hmem, rfl⟩, hne⟩
    exact Option.isSome_iff_exists.mp
      (h.live ns n entry (mem_seqEntries.mp hmem) (by simpa using hne))
  · rintro ⟨blob, hblob⟩
    obtain ⟨n, entry, hentry, rfl⟩ := h.listed ns hash blob hblob
    refine ⟨⟨(n, entry), mem_seqEntries.mpr hentry, rfl⟩, ?_⟩
    rw [bne_iff_ne]
    intro hzero
    rw [hzero, h.nonzero ns] at hblob
    exact absurd hblob (by simp)

/-- Each of them is listed once. -/
theorem Indexed.nodup_getHashesByNamespace {t : Tables} (h : Indexed t) (ns : Hash32) :
    (t.getHashesByNamespace ns).Nodup := by
  rw [Tables.getHashesByNamespace, List.Nodup, List.pairwise_filter, List.pairwise_map]
  refine (pairwise_seqEntries t ns).imp_of_mem fun {a b} ha hb hlt hne _ heq => ?_
  have hsame := h.unique ns a.1 b.1 a.2 b.2 (mem_seqEntries.mp ha) (mem_seqEntries.mp hb) heq
    (by simpa using hne)
  omega

theorem indexed_empty : Indexed {} where
  live ns n entry h := by simp [get₂] at h
  listed ns hash blob h := by simp at h
  unique ns n m entry entry' h := by simp [get₂] at h
  nonzero ns := getBlob_empty

section Steps

variable {P : Primitives} {t : Tables} {ns hash ns' : Hash32} {blob : BlobData} {n : Nat}

theorem seq_insertBlob : get₂ (t.insertBlob P ns blob).seq ns' n =
    if ns = ns' ∧ t.nextSeqNum ns = n then
      some { hash := contentHash P blob, blobType := extractBlobType blob.data }
    else get₂ t.seq ns' n :=
  get₂_insert₂ t.seq ns ns' (t.nextSeqNum ns) n _

/-- Storing a new blob appends its entry. -/
theorem Indexed.insertBlob (h : Indexed t) (hfresh : t.getBlob ns (contentHash P blob) = none)
    (hzero : contentHash P blob ≠ zeroHash) : Indexed (t.insertBlob P ns blob) where
  live ns' n entry hentry hne := by
    rw [seq_insertBlob] at hentry
    rw [getBlob_insertBlob]
    split_ifs at hentry with hnew
    · obtain rfl := Option.some.inj hentry
      simp [hnew.1]
    · split_ifs
      · rfl
      · exact h.live ns' n entry hentry hne
  listed ns' hash blob' hblob := by
    rw [getBlob_insertBlob] at hblob
    split_ifs at hblob with hkey
    · obtain ⟨rfl, rfl⟩ := hkey
      exact ⟨t.nextSeqNum ns, _, by rw [seq_insertBlob, if_pos ⟨rfl, rfl⟩], rfl⟩
    · obtain ⟨n, entry, hentry, hhash⟩ := h.listed ns' hash blob' hblob
      refine ⟨n, entry, ?_, hhash⟩
      rw [seq_insertBlob, if_neg ?_]
      · exact hentry
      · rintro ⟨rfl, rfl⟩
        exact absurd (lt_nextSeqNum hentry) (Nat.lt_irrefl _)
  unique ns' n m entry entry' hentry hentry' hsame hne := by
    -- an old entry cannot carry the hash of a blob that was not stored
    have hold {k : Nat} {e : SeqEntry} (he : get₂ t.seq ns k = some e) :
        e.hash ≠ contentHash P blob := by
      intro heq
      have hlive := h.live ns k e he (heq ▸ hzero)
      rw [heq, hfresh] at hlive
      simp at hlive
    rw [seq_insertBlob] at hentry hentry'
    split_ifs at hentry with hnew
    · obtain rfl := Option.some.inj hentry
      split_ifs at hentry' with hnew'
      · rw [← hnew.2, ← hnew'.2]
      · exact absurd hsame.symm (hold (hnew.1 ▸ hentry'))
    · split_ifs at hentry' with hnew'
      · obtain rfl := Option.some.inj hentry'
        exact absurd hsame (hold (hnew'.1 ▸ hentry))
      · exact h.unique ns' n m entry entry' hentry hentry' hsame hne
  nonzero ns' := by rw [getBlob_insertBlob, if_neg fun hkey => hzero hkey.2, h.nonzero]

theorem seq_removeBlob : get₂ (t.removeBlob P ns hash blob).seq ns' n =
    if ns = ns' ∧ t.findSeq ns hash = some n then some zeroSentinel else get₂ t.seq ns' n := by
  unfold Tables.removeBlob
  cases hfind : t.findSeq ns hash with
  | none => simp
  | some k =>
    simp only [Option.some.injEq]
    exact get₂_insert₂ t.seq ns ns' k n _

/-- An entry that is left was there, and is not the one that was overwritten. -/
theorem seq_of_removeBlob {entry : SeqEntry}
    (h : get₂ (t.removeBlob P ns hash blob).seq ns' n = some entry) (hne : entry.hash ≠ zeroHash) :
    get₂ t.seq ns' n = some entry ∧ ¬ (ns = ns' ∧ t.findSeq ns hash = some n) := by
  rw [seq_removeBlob] at h
  split_ifs at h with hsentinel
  · obtain rfl := Option.some.inj h
    exact absurd rfl hne
  · exact ⟨h, hsentinel⟩

/-- The entries of other blobs stay when a blob is removed. -/
theorem seq_removeBlob_of_ne {entry : SeqEntry} (hentry : get₂ t.seq ns' n = some entry)
    (hne : ns = ns' → hash ≠ entry.hash) :
    get₂ (t.removeBlob P ns hash blob).seq ns' n = some entry := by
  rw [seq_removeBlob, if_neg ?_]
  · exact hentry
  · rintro ⟨rfl, hfind⟩
    obtain ⟨entry', hentry', hhash⟩ := findSeq_eq_some hfind
    rw [hentry] at hentry'
    obtain rfl := Option.some.inj hentry'
    exact hne rfl hhash.symm

/-- Removing a blob overwrites its entry. -/
theorem Indexed.removeBlob (h : Indexed t) : Indexed (t.removeBlob P ns hash blob) where
  live ns' n entry hentry hne := by
    obtain ⟨hold, hsentinel⟩ := seq_of_removeBlob hentry hne
    rw [getBlob_removeBlob, if_neg ?_]
    · exact h.live ns' n entry hold hne
    · rintro ⟨rfl, rfl⟩
      -- the one entry of the hash is the one that was overwritten
      cases hfind : t.findSeq ns entry.hash with
      | none => exact findSeq_eq_none hfind hold rfl
      | some k =>
        obtain ⟨entry', hentry', hhash⟩ := findSeq_eq_some hfind
        obtain rfl := h.unique ns k n entry' entry hentry' hold hhash (hhash ▸ hne)
        exact hsentinel ⟨rfl, hfind⟩
  listed ns' hash' blob' hblob := by
    rw [getBlob_removeBlob] at hblob
    split_ifs at hblob with hkey
    obtain ⟨n, entry, hentry, rfl⟩ := h.listed ns' hash' blob' hblob
    exact ⟨n, entry, seq_removeBlob_of_ne hentry fun hns heq => hkey ⟨hns, heq⟩, rfl⟩
  unique ns' n m entry entry' hentry hentry' hsame hne := by
    exact h.unique ns' n m entry entry' (seq_of_removeBlob hentry hne).1
      (seq_of_removeBlob hentry' (hsame ▸ hne)).1 hsame hne
  nonzero ns' := by
    rw [getBlob_removeBlob]
    split_ifs
    · rfl
    · exact h.nonzero ns'

/-- What an index says of blobs that were handed to the node: entries describe such blobs, and
every stored blob is one of them and has an entry. -/
structure Catalogued (P : Primitives) (handed : BlobData → Prop) (t : Tables) : Prop where
  described : ∀ ns n entry, get₂ t.seq ns n = some entry → entry.hash ≠ zeroHash →
    ∃ blob, handed blob ∧ contentHash P blob = entry.hash ∧
      extractBlobType blob.data = entry.blobType
  numbered : ∀ ns n entry, get₂ t.seq ns n = some entry → 0 < n
  listed : ∀ ns hash blob, t.getBlob ns hash = some blob →
    handed blob ∧ contentHash P blob = hash ∧
      ∃ n entry, get₂ t.seq ns n = some entry ∧ entry.hash = hash

variable {handed : BlobData → Prop}

theorem catalogued_empty : Catalogued P handed {} where
  described ns n entry h := by simp [get₂] at h
  numbered ns n entry h := by simp [get₂] at h
  listed ns hash blob h := by simp at h

theorem Catalogued.insertBlob (h : Catalogued P handed t) (hblob : handed blob) :
    Catalogued P handed (t.insertBlob P ns blob) where
  described ns' n entry hentry hne := by
    rw [seq_insertBlob] at hentry
    split_ifs at hentry
    · obtain rfl := Option.some.inj hentry
      exact ⟨blob, hblob, rfl, rfl⟩
    · exact h.described ns' n entry hentry hne
  numbered ns' n entry hentry := by
    rw [seq_insertBlob] at hentry
    split_ifs at hentry with hnew
    · rw [← hnew.2]
      unfold Tables.nextSeqNum
      split <;> omega
    · exact h.numbered ns' n entry hentry
  listed ns' hash blob' hstored := by
    rw [getBlob_insertBlob] at hstored
    split_ifs at hstored with hkey
    · obtain ⟨rfl, rfl⟩ := hkey
      obtain rfl := Option.some.inj hstored
      exact ⟨hblob, rfl, t.nextSeqNum ns, _, by rw [seq_insertBlob, if_pos ⟨rfl, rfl⟩], rfl⟩
    · obtain ⟨hhanded, hhash, n, entry, hentry, hname⟩ := h.listed ns' hash blob' hstored
      refine ⟨hhanded, hhash, n, entry, ?_, hname⟩
      rw [seq_insertBlob, if_neg ?_]
      · exact hentry
      · rintro ⟨rfl, rfl⟩
        exact absurd (lt_nextSeqNum hentry) (Nat.lt_irrefl _)

theorem Catalogued.removeBlob (h : Catalogued P handed t) :
    Catalogued P handed (t.removeBlob P ns hash blob) where
  described ns' n entry hentry hne :=
    h.described ns' n entry (seq_of_removeBlob hentry hne).1 hne
  numbered ns' n entry hentry := by
    rw [seq_removeBlob] at hentry
    split_ifs at hentry with hsentinel
    · obtain ⟨entry', hentry', -⟩ := findSeq_eq_some hsentinel.2
      exact h.numbered ns n entry' hentry'
    · exact h.numbered ns' n entry hentry
  listed ns' hash' blob' hstored := by
    rw [getBlob_removeBlob] at hstored
    split_ifs at hstored with hkey
    obtain ⟨hhanded, hhash, n, entry, hentry, hname⟩ := h.listed ns' hash' blob' hstored
    exact ⟨hhanded, hhash, n, entry, seq_removeBlob_of_ne hentry fun hns => hname ▸ fun heq =>
      hkey ⟨hns, heq⟩, hname⟩

/-- An expiry scan leaves the sequence table alone. -/
theorem Catalogued.expireEntry (h : Catalogued P handed t) (entry : ExpiryEntry) :
    Catalogued P handed (expireEntry P t entry) := by
  have hseq : (Storage.expireEntry P t entry).seq = t.seq := by
    unfold Storage.expireEntry
    cases t.getBlob entry.ns entry.hash <;> rfl
  refine ⟨?_, ?_, fun ns' hash' blob' hstored => ?_⟩
  · rw [hseq]
    exact h.described
  · rw [hseq]
    exact h.numbered
  · rw [getBlob_expireEntry] at hstored
    split_ifs at hstored
    rw [hseq]
    exact h.listed ns' hash' blob' hstored

end Steps

end Storage

namespace Engine

open Infra Util Wire Storage

variable {P : Primitives} {env : Env} {t t' : Tables} {ns : Hash32} {blob : BlobData}
  {result : IngestResult} {I : Tables → Prop} {events : List Event}

/-- **Rule for a commit.** What removing a blob, registering an owner's key and storing a blob that
is not stored keep, a commit keeps. -/
theorem committed_rule (hcommit : Committed P env t ns blob t' result) (h : I t)
    (hremove : ∀ t ns hash stored, t.getBlob ns hash = some stored → I t →
      I (t.removeBlob P ns hash stored))
    (hregister : ∀ t ownerPubkeys, I t → I { t with ownerPubkeys })
    (hinsert : ∀ t, t.getBlob ns (contentHash P blob) = none → I t → I (t.insertBlob P ns blob)) :
    I t' := by
  have hprepared : I (prepared P env t ns blob) := by
    have hdelete : I (deleteTargets P t ns (deletedBy env blob)) := by
      refine List.foldlRecOn _ _ h fun t ht target _ => ?_
      unfold deleteBlobData
      cases hstored : t.getBlob ns target with
      | none => exact ht
      | some stored => exact hremove t ns target stored hstored ht
    unfold prepared registered
    split_ifs
    · exact hregister _ _ hdelete
    · exact hdelete
  cases hcommit with
  | blocked _ _ => exact h
  | mismatch _ => exact h
  | refused error detail _ _ _ => exact hprepared
  | duplicate ack _ _ => exact hprepared
  | stored ack _ _ hfresh => exact hinsert _ hfresh hprepared

theorem indexed_committed (h : Indexed t) (hcommit : Committed P env t ns blob t' result)
    (hzero : contentHash P blob ≠ zeroHash) : Indexed t' :=
  committed_rule hcommit h (fun _ _ _ _ _ ht => ht.removeBlob)
    (fun _ _ ht => ⟨ht.live, ht.listed, ht.unique, ht.nonzero⟩)
    fun _ hfresh ht => ht.insertBlob hfresh hzero

/-- Not an expiry scan. -/
def Event.isCall : Event → Bool
  | .expiryScan _ => false
  | _ => true

/-- **Invariant rule for the tables.** What the empty tables have, and what every commit of a blob
that was handed to the node and every expiry scan keeps, the tables of every run have. -/
theorem tables_rule (hempty : I {})
    (hcommit : ∀ env t t' ns blob result, (∃ i, .resume i env ∈ events) →
      (∃ entry, .call entry ns blob ∈ events) → I t → Committed P env t ns blob t' result → I t')
    (hscan : ∀ t now, .expiryScan now ∈ events → I t → I (runExpiryScan P t now).1) :
    I (run (Node.step P) {} events).tables := by
  induction events using List.reverseRecOn with
  | nil => exact hempty
  | append_singleton events event ih =>
    have hbefore : I (run (Node.step P) {} events).tables := by
      refine ih (fun env t t' ns blob result hresume hcall => ?_)
        fun t now hmem => hscan t now (List.mem_append_left _ hmem)
      obtain ⟨i, hresume⟩ := hresume
      obtain ⟨entry, hmem⟩ := hcall
      exact hcommit env t t' ns blob result ⟨i, List.mem_append_left _ hresume⟩
        ⟨entry, List.mem_append_left _ hmem⟩
    rw [run_append, run_cons, run_nil]
    rcases tables_step_cases (P := P) (sound_run events) event with
      hsame | ⟨now, rfl, hscanned⟩ | ⟨i, env, task, signer, result, rfl, hi, -, -, -, hcommitted⟩
    · rw [hsame]
      exact hbefore
    · rw [hscanned]
      exact hscan _ now (List.mem_append_right _ List.mem_cons_self) hbefore
    · have hcall := called_of_mem_tasks (List.mem_of_getElem? hi)
      exact hcommit env _ _ _ _ _ ⟨i, List.mem_append_right _ List.mem_cons_self⟩
        ⟨task.entry, List.mem_append_left _ hcall⟩ hbefore hcommitted

/-- The rule for runs without an expiry scan. -/
theorem tables_invariant (hempty : I {})
    (hcommit : ∀ env t t' ns blob result, (∃ i, .resume i env ∈ events) →
      (∃ entry, .call entry ns blob ∈ events) → I t → Committed P env t ns blob t' result → I t')
    (hscan : ∀ event ∈ events, event.isCall = true) : I (run (Node.step P) {} events).tables :=
  tables_rule hempty hcommit fun _ _ hmem _ => absurd (hscan _ hmem) (by simp [Event.isCall])

/-- **The sequence index is sound** in every run without an expiry scan, if no blob that was handed
to the node hashes to zero. -/
theorem indexed_run (hscan : ∀ event ∈ events, event.isCall = true)
    (hzero : ∀ entry ns blob, .call entry ns blob ∈ events → contentHash P blob ≠ zeroHash) :
    Indexed (run (Node.step P) {} events).tables := by
  refine tables_invariant indexed_empty (fun env t t' ns blob result _ hcall h hcommit => ?_) hscan
  obtain ⟨entry, hmem⟩ := hcall
  exact indexed_committed h hcommit (hzero entry ns blob hmem)

/-- A blob that was handed to the node. -/
def Handed (events : List Event) (blob : BlobData) : Prop :=
  ∃ entry ns, .call entry ns blob ∈ events

/-- **Every stored blob is in the sequence index**, in every run. -/
theorem catalogued_run (events : List Event) :
    Catalogued P (Handed events) (run (Node.step P) {} events).tables := by
  refine tables_rule catalogued_empty (fun env t t' ns blob result _ hcall h hcommit => ?_)
    fun t now _ h => runExpiryScan_preserves now (fun t entry ht => ht.expireEntry entry) h
  obtain ⟨entry, hmem⟩ := hcall
  exact committed_rule hcommit h (fun _ _ _ _ _ ht => ht.removeBlob)
    (fun _ _ ht => ⟨ht.described, ht.numbered, ht.listed⟩)
    fun _ _ ht => ht.insertBlob ⟨entry, ns, hmem⟩

end Engine
