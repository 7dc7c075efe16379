import Chromatin.Properties.StoreRuns
import Chromatin.Storage.SequenceScan

/-!
# Paging by sequence number

The scans behind a number start at `since_seq + 1`. For the greatest number of 64 bits the sum wraps
to 0, and the scan starts at the beginning of the namespace: a client that asks for what is behind
the last possible number gets everything.

* `sequence_paging_iff` — the scans return exactly the entries behind the number, unless it is the
  greatest one and there is something to return
-/

namespace Storage

open Infra Util Wire

/-- The rows of a namespace behind a number. -/
def SeqStore.rowsAfter (s : SeqStore) (ns : Hash32) (sinceSeq : UInt64) : List SeqRow :=
  (s.rowsOf ns).filter fun row => sinceSeq < rowSeqNum row

/-- The blob an entry of the namespace refers to. -/
def SeqStore.referenced (s : SeqStore) (ns : Hash32) (row : SeqRow) : Option BlobData :=
  s.blobs[makeBlobKey ns row.2.hash]?

def isSentinel (row : SeqRow) : Bool := row.2.hash = zeroHash

/-- What the two scans have to return. -/
structure Paged (s : SeqStore) (ns : Hash32) (sinceSeq : UInt64) (maxCount : UInt32) : Prop where
  refs : s.getBlobRefsSince ns sinceSeq maxCount =
    cut maxCount (((s.rowsAfter ns sinceSeq).filter fun row => !isSentinel row).map refOf)
  blobs : s.getBlobsBySeq ns sinceSeq = (s.rowsAfter ns sinceSeq).filterMap (s.referenced ns)

section

variable {s : SeqStore} {ns : Hash32} {sinceSeq : UInt64} {maxCount : UInt32}

theorem pairwise_rowsAfter (s : SeqStore) (ns : Hash32) (sinceSeq : UInt64) :
    (s.rowsAfter ns sinceSeq).Pairwise fun a b => rowSeqNum a < rowSeqNum b :=
  (pairwise_rowsOf s ns).filter _

theorem mem_rowsAfter {n : UInt64} {entry : SeqEntry} :
    (seqMapKey ns n, entry) ∈ s.rowsAfter ns sinceSeq ↔
    s.seqMap[seqMapKey ns n]? = some entry ∧ sinceSeq < n := by
  rw [SeqStore.rowsAfter, List.mem_filter, mem_rowsOf, decide_eq_true_iff]
  simp [rowNs, rowSeqNum]

/-- The number behind another one, as the scans compute it. -/
theorem succ_le_iff_lt {n : UInt64} (h : sinceSeq ≠ 0xFFFFFFFFFFFFFFFF) :
    sinceSeq + 1 ≤ n ↔ sinceSeq < n := by
  have hmax : sinceSeq.toNat ≠ 0xFFFFFFFFFFFFFFFF := fun heq => h (UInt64.toNat_inj.mp heq)
  have hlt := sinceSeq.toNat_lt
  have hone : (1 : UInt64).toNat = 1 := rfl
  rw [UInt64.le_iff_toNat_le, UInt64.lt_iff_toNat_lt, UInt64.toNat_add]
  omega

theorem paged_of_ne (s : SeqStore) (ns : Hash32) (maxCount : UInt32)
    (h : sinceSeq ≠ 0xFFFFFFFFFFFFFFFF) :
    Paged s ns sinceSeq maxCount := by
  have hrows : ((s.rowsOf ns).filter fun row => sinceSeq + 1 ≤ rowSeqNum row) =
    s.rowsAfter ns sinceSeq :=
    List.filter_congr fun row _ => decide_eq_decide.mpr (succ_le_iff_lt h)
  constructor
  · rw [getBlobRefsSince_eq, hrows]
    simp only [isSentinel, ne_eq, decide_not]
  · rw [getBlobsBySeq_eq, hrows]
    rfl

/-- Behind the greatest number there is nothing. -/
theorem rowsAfter_max (s : SeqStore) (ns : Hash32) : s.rowsAfter ns 0xFFFFFFFFFFFFFFFF = [] := by
  refine List.filter_eq_nil_iff.mpr fun row _ => ?_
  have hlt := (rowSeqNum row).toNat_lt
  have hmax : (0xFFFFFFFFFFFFFFFF : UInt64).toNat = 2 ^ 64 - 1 := rfl
  rw [decide_eq_true_iff, UInt64.lt_iff_toNat_lt, hmax]
  omega

theorem cut_eq_nil {α : Type} {l : List α} : cut maxCount l = [] ↔ l = [] := by
  unfold cut
  split_ifs with hmax
  · have hpos : maxCount.toNat ≠ 0 := Nat.ne_of_gt (UInt32.lt_iff_toNat_lt.mp hmax)
    rw [List.take_eq_nil_iff, or_iff_right hpos]
  · rfl

/-- The scans behind the greatest number return all there is. -/
theorem paged_max_iff (s : SeqStore) (ns : Hash32) (maxCount : UInt32) :
    Paged s ns 0xFFFFFFFFFFFFFFFF maxCount ↔
      ∀ row ∈ s.rowsOf ns, isSentinel row = true ∧ s.referenced ns row = none := by
  have hall : ((s.rowsOf ns).filter fun row => (0xFFFFFFFFFFFFFFFF : UInt64) + 1 ≤ rowSeqNum row) =
      s.rowsOf ns := by
    refine List.filter_eq_self.mpr fun row _ => decide_eq_true ?_
    exact UInt64.le_iff_toNat_le.mpr (Nat.zero_le _)
  have hrefs : s.getBlobRefsSince ns 0xFFFFFFFFFFFFFFFF maxCount =
      cut maxCount (((s.rowsOf ns).filter fun row => !isSentinel row).map refOf) := by
    rw [getBlobRefsSince_eq, hall]
    simp only [isSentinel, ne_eq, decide_not]
  have hblobs : s.getBlobsBySeq ns 0xFFFFFFFFFFFFFFFF =
      (s.rowsOf ns).filterMap (s.referenced ns) := by
    rw [getBlobsBySeq_eq, hall]
    rfl
  have hnil : cut maxCount (([] : List SeqRow).map refOf) = [] := cut_eq_nil.mpr rfl
  constructor
  · rintro ⟨hgot, hgot'⟩
    rw [hrefs, rowsAfter_max, List.filter_nil, hnil, cut_eq_nil, List.map_eq_nil_iff,
      List.filter_eq_nil_iff] at hgot
    rw [hblobs, rowsAfter_max, List.filterMap_nil, List.filterMap_eq_nil_iff] at hgot'
    intro row hrow
    exact ⟨by simpa using hgot row hrow, hgot' row hrow⟩
  · intro hnone
    constructor
    · rw [hrefs, rowsAfter_max, List.filter_nil, hnil, cut_eq_nil, List.map_eq_nil_iff,
        List.filter_eq_nil_iff]
      intro row hrow
      simp [(hnone row hrow).1]
    · rw [hblobs, rowsAfter_max, List.filterMap_nil, List.filterMap_eq_nil_iff]
      exact fun row hrow => (hnone row hrow).2

end

/-- **The scans behind a number return exactly the entries behind it**, in the order of the numbers
and cut to the first `max_count`, or the blobs they refer to. The exception is the greatest number,
for which they return all there is. -/
theorem sequence_paging_iff (s : SeqStore) (ns : Hash32) (sinceSeq : UInt64) (maxCount : UInt32) :
    (∀ n entry, (seqMapKey ns n, entry) ∈ s.rowsAfter ns sinceSeq ↔
      s.seqMap[seqMapKey ns n]? = some entry ∧ sinceSeq < n) ∧
    ((s.rowsAfter ns sinceSeq).Pairwise fun a b => rowSeqNum a < rowSeqNum b) ∧
    (Paged s ns sinceSeq maxCount ↔ sinceSeq ≠ 0xFFFFFFFFFFFFFFFF ∨
      ∀ row ∈ s.rowsOf ns, isSentinel row = true ∧ s.referenced ns row = none) := by
  refine ⟨fun n entry => mem_rowsAfter, pairwise_rowsAfter s ns sinceSeq, ?_⟩
  by_cases hmax : sinceSeq = 0xFFFFFFFFFFFFFFFF
  · subst hmax
    rw [paged_max_iff]
    simp
  · exact iff_of_true (paged_of_ne s ns maxCount hmax) (.inl hmax)

section Sample

open Wire.Sample

set_option maxRecDepth 20000 in
/-- One blob is stored; who asks for what is behind the greatest number gets it. -/
theorem sequence_paging_wraps :
    let blob := signed (key 1) (owned 1) (owned 1) [1, 2, 3] 0 3000000
    let s := (run (StoreOp.step primitives) {} [.storeBlob 0 false (owned 1) blob {}]).seqStore
    s.rowsAfter (owned 1) 0xFFFFFFFFFFFFFFFF = [] ∧
    (s.getBlobRefsSince (owned 1) 0xFFFFFFFFFFFFFFFF 0).map Peer.BlobRef.seqNum = [1] ∧
    s.getBlobsBySeq (owned 1) 0xFFFFFFFFFFFFFFFF = [blob] := by
  decide

end Sample

end Storage
