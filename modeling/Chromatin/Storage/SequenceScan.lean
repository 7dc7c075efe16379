import Chromatin.Peer.MessageDispatcher
import Chromatin.Storage.Cursors

/-!
# Scans of the sequence map (`storage/storage.cpp`)

`get_blob_refs_since`, `get_blobs_by_seq` and `list_namespaces` put a cursor at a key
`[namespace:32][seq:8]` and walk on from there. Here the map is the one of the source, with the
bytes of its keys: its order is the byte order, and the numbers are those that fit into eight bytes.

`SeqStore` is what the scans read of the store; `Tables.seqStore` is that part of the `Tables`.
`getBlobRefsSince_seqStore` and `listNamespaces_seqStore` say that the scans compute what
`Peer.getBlobRefsSince` and `Tables.listNamespaces` say.
-/

namespace Storage

open Infra Util Wire

/-! ## Keys -/

/-- `make_seq_key`: `[namespace:32][seq_num:8BE]`. -/
def seqMapKey (ns : Hash32) (seqNum : UInt64) : FixedBytes 40 :=
  ⟨ns.toList ++ writeU64Be seqNum, by simp⟩

/-- The namespace and the number of a key. -/
def splitSeqKey (key : FixedBytes 40) : Hash32 × UInt64 :=
  (⟨key.toList.take 32, by simp⟩, UInt64.ofNat (ofBigEndian (key.toList.drop 32)))

theorem toNat_splitSeqKey (key : FixedBytes 40) :
    (splitSeqKey key).2.toNat = ofBigEndian (key.toList.drop 32) := by
  have hlt := ofBigEndian_lt (key.toList.drop 32)
  have hlength : (key.toList.drop 32).length = 8 := by simp
  rw [hlength] at hlt
  exact UInt64.toNat_ofNat_of_lt' hlt

@[simp] theorem splitSeqKey_seqMapKey (ns : Hash32) (seqNum : UInt64) :
    splitSeqKey (seqMapKey ns seqNum) = (ns, seqNum) := by
  have htake : (ns.toList ++ writeU64Be seqNum).take 32 = ns.toList :=
    List.take_left' ns.toList_length
  have hdrop : (ns.toList ++ writeU64Be seqNum).drop 32 = writeU64Be seqNum :=
    List.drop_left' ns.toList_length
  refine Prod.ext (List.Vector.toList_injective htake) (UInt64.toNat_inj.mp ?_)
  rw [toNat_splitSeqKey]
  show ofBigEndian ((ns.toList ++ writeU64Be seqNum).drop 32) = seqNum.toNat
  rw [hdrop]
  exact ofBigEndian_toBigEndian seqNum.toNat_lt

theorem seqMapKey_splitSeqKey (key : FixedBytes 40) :
    seqMapKey (splitSeqKey key).1 (splitSeqKey key).2 = key := by
  refine List.Vector.toList_injective ?_
  show key.toList.take 32 ++ writeU64Be (splitSeqKey key).2 = key.toList
  have hnumber : writeU64Be (splitSeqKey key).2 = key.toList.drop 32 := by
    refine ofBigEndian_inj (by simp) ?_
    rw [writeU64Be, ofBigEndian_toBigEndian (UInt64.toNat_lt _), toNat_splitSeqKey]
  rw [hnumber, List.take_append_drop]

theorem seqMapKey_inj {ns ns' : Hash32} {n m : UInt64} :
    seqMapKey ns n = seqMapKey ns' m ↔ ns = ns' ∧ n = m := by
  constructor
  · intro h
    have hsplit := congrArg splitSeqKey h
    rw [splitSeqKey_seqMapKey, splitSeqKey_seqMapKey] at hsplit
    exact Prod.mk.inj hsplit
  · rintro ⟨rfl, rfl⟩
    rfl

/-- The key as a pair, in the order of `SeqMap`. -/
def pairOf (key : FixedBytes 40) : SeqKey :=
  makeSeqKey (splitSeqKey key).1 (splitSeqKey key).2.toNat

/-- **The byte order of the keys** is that of namespace and number. -/
theorem pairOf_lt {a b : FixedBytes 40} : pairOf a < pairOf b ↔ a < b := by
  have hsplit := append_lt_append_iff (a.toList.drop 32) (b.toList.drop 32)
    (show (a.toList.take 32).length = (b.toList.take 32).length by simp)
  have hnumber :=
    ofBigEndian_lt_iff (show (a.toList.drop 32).length = (b.toList.drop 32).length by simp)
  rw [List.take_append_drop, List.take_append_drop, hnumber] at hsplit
  rw [pairOf, pairOf, SeqMap.makeSeqKey_lt, toNat_splitSeqKey, toNat_splitSeqKey,
    show a < b ↔ a.toList < b.toList from Iff.rfl, hsplit, ← List.Vector.toList_injective.eq_iff]
  rfl

theorem pairOf_le {a b : FixedBytes 40} : pairOf a ≤ pairOf b ↔ a ≤ b := by
  rw [← not_lt, pairOf_lt, not_lt]

theorem pairOf_seqMapKey (ns : Hash32) (n : UInt64) :
    pairOf (seqMapKey ns n) = makeSeqKey ns n.toNat := by
  rw [pairOf, splitSeqKey_seqMapKey]

/-! ## Scans -/

abbrev SeqRow := FixedBytes 40 × SeqEntry

def rowNs (row : SeqRow) : Hash32 := (splitSeqKey row.1).1

def rowSeqNum (row : SeqRow) : UInt64 := (splitSeqKey row.1).2

/-- The sub-databases that the scans read. -/
structure SeqStore where
  seqMap : Table (FixedBytes 40) SeqEntry := ∅
  blobs : Table (FixedBytes 64) BlobData := ∅
  quota : Table Hash32 NamespaceQuota := ∅

/-- `lower_bound` at the number behind `since_seq`; the sum is one of `uint64_t`. -/
def SeqStore.rowsSince (s : SeqStore) (ns : Hash32) (sinceSeq : UInt64) : List SeqRow :=
  seek Prod.fst s.seqMap.toList (seqMapKey ns (sinceSeq + 1))

def refOf (row : SeqRow) : Peer.BlobRef :=
  { blobHash := row.2.hash, seqNum := (rowSeqNum row).toNat, blobType := row.2.blobType }

/-- The loop of `get_blob_refs_since`, from the row at the cursor on. -/
def refsFrom (ns : Hash32) (maxCount : UInt32) : List SeqRow → List Peer.BlobRef → List Peer.BlobRef
  | [], results => results
  | row :: rest, results =>
    if rowNs row ≠ ns then results
    else if row.2.hash = zeroHash then refsFrom ns maxCount rest results
    else
      let results := results ++ [refOf row]
      if maxCount > 0 ∧ results.length ≥ maxCount.toNat then results
      else refsFrom ns maxCount rest results

def SeqStore.getBlobRefsSince (s : SeqStore) (ns : Hash32) (sinceSeq : UInt64) (maxCount : UInt32) :
    List Peer.BlobRef :=
  refsFrom ns maxCount (s.rowsSince ns sinceSeq) []

/-- The loop of `get_blobs_by_seq`. A sentinel is looked up like any other hash. -/
def blobsFrom (blobs : Table (FixedBytes 64) BlobData) (ns : Hash32) : List SeqRow → List BlobData
  | [] => []
  | row :: rest =>
    if rowNs row ≠ ns then []
    else
      match blobs[makeBlobKey ns row.2.hash]? with
      | some blob => blob :: blobsFrom blobs ns rest
      | none => blobsFrom blobs ns rest

def SeqStore.getBlobsBySeq (s : SeqStore) (ns : Hash32) (sinceSeq : UInt64) : List BlobData :=
  blobsFrom s.blobs ns (s.rowsSince ns sinceSeq)

/-- `list_namespaces` on the keys of the map. -/
def SeqStore.listNamespaces (s : SeqStore) : List NamespaceInfo :=
  let keys := s.seqMap.toList.map fun row => pairOf row.1
  SeqMap.listFrom keys keys.length keys

/-! ## What the scans find -/

variable {s : SeqStore} {ns : Hash32} {sinceSeq : UInt64} {maxCount : UInt32}

theorem ascending_seqMap (s : SeqStore) : Ascending Prod.fst s.seqMap.toList :=
  s.seqMap.ordered_keys_toList.imp fun hlt => compare_lt_iff_lt.mp hlt

/-- The rows of a namespace, in the order of their numbers. -/
def SeqStore.rowsOf (s : SeqStore) (ns : Hash32) : List SeqRow :=
  s.seqMap.toList.filter fun row => rowNs row = ns

theorem mem_rowsOf {row : SeqRow} : row ∈ s.rowsOf ns ↔
    s.seqMap[row.1]? = some row.2 ∧ rowNs row = ns := by
  rw [SeqStore.rowsOf, List.mem_filter, decide_eq_true_iff]
  exact and_congr_left' Std.ExtTreeMap.mem_toList_iff_getElem?_eq_some

theorem pairwise_rowsOf (s : SeqStore) (ns : Hash32) :
    (s.rowsOf ns).Pairwise fun a b => rowSeqNum a < rowSeqNum b := by
  refine ((ascending_seqMap s).sublist List.filter_sublist).imp_of_mem fun {a b} ha hb hlt => ?_
  have hsame : rowNs a = rowNs b := (mem_rowsOf.mp ha).2.trans (mem_rowsOf.mp hb).2.symm
  rcases SeqMap.makeSeqKey_lt.mp (pairOf_lt.mpr hlt) with hns | ⟨-, hnumber⟩
  · exact absurd hns (not_lt.mpr (le_of_eq hsame.symm))
  · exact UInt64.lt_iff_toNat_lt.mpr hnumber

/-- The walk from the lower bound to the end of the namespace. -/
theorem takeWhile_rowsSince (s : SeqStore) (ns : Hash32) (sinceSeq : UInt64) :
    (s.rowsSince ns sinceSeq).takeWhile (fun row => rowNs row = ns) =
      (s.rowsOf ns).filter fun row => sinceSeq + 1 ≤ rowSeqNum row := by
  have hbound (row : SeqRow) (hns : rowNs row = ns) :
      seqMapKey ns (sinceSeq + 1) ≤ row.1 ↔ sinceSeq + 1 ≤ rowSeqNum row := by
    rw [← pairOf_le, pairOf_seqMapKey, pairOf, SeqMap.makeSeqKey_le, UInt64.le_iff_toNat_le]
    show ns < rowNs row ∨ ns = rowNs row ∧ _ ↔ _
    rw [hns]
    simp [rowSeqNum]
  rw [SeqStore.rowsSince, takeWhile_seek (ascending_seqMap s), SeqStore.rowsOf, List.filter_filter]
  · refine List.filter_congr fun row _ => ?_
    by_cases hns : rowNs row = ns
    · simp only [hns, decide_true, Bool.and_true, hbound row hns]
    · simp [hns]
  · -- between the bound and a row of the namespace there are only rows of the namespace
    intro a b hge hlt hb
    have hns : rowNs b = ns := of_decide_eq_true hb
    rw [← pairOf_le, pairOf_seqMapKey, pairOf, SeqMap.makeSeqKey_le] at hge
    have hle : rowNs a ≤ rowNs b := by
      rcases SeqMap.makeSeqKey_lt.mp (pairOf_lt.mpr hlt) with h | ⟨h, -⟩
      · exact le_of_lt h
      · exact le_of_eq h
    have hge' : ns ≤ rowNs a := by
      rcases hge with h | ⟨h, -⟩
      · exact le_of_lt h
      · exact le_of_eq h
    exact decide_eq_true (le_antisymm (hns ▸ hle) hge')

/-- The first `maxCount` of a list, all of it for 0. -/
def cut {α : Type} (maxCount : UInt32) (l : List α) : List α :=
  if maxCount > 0 then l.take maxCount.toNat else l

/-- What the loop adds to the results it has: there is room for one more. -/
theorem refsFrom_eq : ∀ (rows : List SeqRow) (results : List Peer.BlobRef),
    (maxCount > 0 → results.length < maxCount.toNat) →
    refsFrom ns maxCount rows results =
      cut maxCount (results ++ ((rows.takeWhile fun row => rowNs row = ns).filter fun row =>
        row.2.hash ≠ zeroHash).map refOf)
  | [], results, hroom => by
    rw [refsFrom, List.takeWhile_nil, List.filter_nil, List.map_nil, List.append_nil, cut]
    split_ifs with hmax
    · rw [List.take_of_length_le (Nat.le_of_lt (hroom hmax))]
    · rfl
  | row :: rest, results, hroom => by
    rw [refsFrom]
    by_cases hns : rowNs row = ns
    · rw [if_neg (by simpa using hns), List.takeWhile_cons_of_pos (by simpa using hns)]
      by_cases hzero : row.2.hash = zeroHash
      · rw [if_pos hzero, List.filter_cons_of_neg (by simpa using hzero)]
        exact refsFrom_eq rest results hroom
      · rw [if_neg hzero, List.filter_cons_of_pos (by simpa using hzero), List.map_cons]
        dsimp only
        split_ifs with hfull
        · have hlength : (results ++ [refOf row]).length = maxCount.toNat := by
            have hbefore := hroom hfull.1
            have hafter := hfull.2
            rw [List.length_append, List.length_singleton] at hafter ⊢
            omega
          rw [cut, if_pos hfull.1]
          exact ((congrArg (List.take maxCount.toNat) (List.append_cons ..)).trans
            (List.take_left' hlength)).symm
        · rw [refsFrom_eq rest (results ++ [refOf row]) fun hmax => Nat.lt_of_not_le fun h =>
            hfull ⟨hmax, h⟩]
          simp
    · rw [if_pos hns, List.takeWhile_cons_of_neg (by simpa using hns)]
      simp only [List.filter_nil, List.map_nil, List.append_nil, cut]
      split_ifs with hmax
      · rw [List.take_of_length_le (Nat.le_of_lt (hroom hmax))]
      · rfl

theorem getBlobRefsSince_eq (s : SeqStore) (ns : Hash32) (sinceSeq : UInt64) (maxCount : UInt32) :
    s.getBlobRefsSince ns sinceSeq maxCount =
      cut maxCount
        ((((s.rowsOf ns).filter fun row => sinceSeq + 1 ≤ rowSeqNum row).filter fun row =>
        row.2.hash ≠ zeroHash).map refOf) := by
  rw [SeqStore.getBlobRefsSince, refsFrom_eq _ [] fun hmax => UInt32.lt_iff_toNat_lt.mp hmax,
    takeWhile_rowsSince, List.nil_append]

theorem blobsFrom_eq (blobs : Table (FixedBytes 64) BlobData) : ∀ rows : List SeqRow,
    blobsFrom blobs ns rows =
      (rows.takeWhile fun row => rowNs row = ns).filterMap fun row =>
        blobs[makeBlobKey ns row.2.hash]?
  | [] => rfl
  | row :: rest => by
    rw [blobsFrom]
    by_cases hns : rowNs row = ns
    · rw [if_neg (by simpa using hns), List.takeWhile_cons_of_pos (by simpa using hns),
        List.filterMap_cons, blobsFrom_eq blobs rest]
      cases blobs[makeBlobKey ns row.2.hash]? <;> rfl
    · rw [if_pos hns, List.takeWhile_cons_of_neg (by simpa using hns), List.filterMap_nil]

theorem getBlobsBySeq_eq (s : SeqStore) (ns : Hash32) (sinceSeq : UInt64) :
    s.getBlobsBySeq ns sinceSeq =
      ((s.rowsOf ns).filter fun row => sinceSeq + 1 ≤ rowSeqNum row).filterMap fun row =>
        s.blobs[makeBlobKey ns row.2.hash]? := by
  rw [SeqStore.getBlobsBySeq, blobsFrom_eq, takeWhile_rowsSince]

/-! ## The namespaces of the map -/

theorem ascending_pairs (s : SeqStore) :
    Ascending id (s.seqMap.toList.map fun row => pairOf row.1) :=
  List.pairwise_map.mpr ((ascending_seqMap s).imp fun hlt => pairOf_lt.mpr hlt)

theorem mem_pairs {n : Nat} : makeSeqKey ns n ∈ s.seqMap.toList.map (fun row => pairOf row.1) ↔
    ∃ seqNum : UInt64, seqNum.toNat = n ∧ (s.seqMap[seqMapKey ns seqNum]?).isSome = true := by
  rw [List.mem_map]
  constructor
  · rintro ⟨⟨key, entry⟩, hmem, hpair⟩
    obtain ⟨hns, hn⟩ := SeqMap.makeSeqKey_inj.mp hpair
    refine ⟨(splitSeqKey key).2, hn, ?_⟩
    rw [← hns, seqMapKey_splitSeqKey, Std.ExtTreeMap.mem_toList_iff_getElem?_eq_some.mp hmem]
    rfl
  · rintro ⟨seqNum, rfl, hsome⟩
    obtain ⟨entry, hentry⟩ := Option.isSome_iff_exists.mp hsome
    exact ⟨(seqMapKey ns seqNum, entry), Std.ExtTreeMap.mem_toList_iff_getElem?_eq_some.mpr hentry,
      pairOf_seqMapKey ns seqNum⟩

/-- The numbers of a namespace. -/
def SeqStore.numbers (s : SeqStore) (ns : Hash32) : Set Nat :=
  {n | ∃ seqNum : UInt64, seqNum.toNat = n ∧ (s.seqMap[seqMapKey ns seqNum]?).isSome = true}

/-- `list_namespaces` lists the namespaces that have a number in order, with their greatest one. -/
theorem listNamespaces_greatest (s : SeqStore) :
    s.listNamespaces.Pairwise (fun a b => a.namespaceId < b.namespaceId) ∧
    ∀ info, info ∈ s.listNamespaces ↔
    IsGreatest (s.numbers info.namespaceId) info.latestSeqNum := by
  set keys := s.seqMap.toList.map fun row => pairOf row.1 with hkeys
  have hascending : Ascending id keys := ascending_pairs s
  have hfits : ∀ ns n, makeSeqKey ns n ∈ keys → n ≤ UINT64_MAX := by
    intro ns n hmem
    obtain ⟨seqNum, rfl, -⟩ := mem_pairs.mp hmem
    have hlt := seqNum.toNat_lt
    unfold UINT64_MAX
    omega
  obtain ⟨hsorted, hlisted⟩ := SeqMap.listFrom_zero hascending
  refine ⟨hsorted, fun info => (hlisted info).trans ?_⟩
  have hnumbers : s.numbers info.namespaceId = {m | makeSeqKey info.namespaceId m ∈ keys} := by
    ext m
    exact mem_pairs.symm
  rw [hnumbers]
  have hlatest := SeqMap.latest_spec hascending hfits info.namespaceId
  cases hfound : SeqMap.latest keys info.namespaceId with
  | none =>
    rw [hfound] at hlatest
    refine iff_of_false ?_ fun hgreatest => hlatest _ hgreatest.1
    rintro ⟨⟨n, hn⟩, -⟩
    exact hlatest n hn
  | some n =>
    rw [hfound] at hlatest
    constructor
    · rintro ⟨-, hn⟩
      rw [hn]
      exact hlatest
    · intro hgreatest
      exact ⟨⟨n, hlatest.1⟩, hgreatest.unique hlatest⟩

/-! ## The sequence map of the tables -/

def Tables.seqRows (t : Tables) : List SeqRow :=
  t.seq.toList.flatMap fun (ns, row) =>
    row.toList.map fun (n, entry) => (seqMapKey ns (UInt64.ofNat n), entry)

def Tables.seqStore (t : Tables) : SeqStore where
  seqMap := Std.ExtTreeMap.ofList t.seqRows
  blobs := t.blobs
  quota := t.quota

theorem mem_seqRows {t : Tables} {row : SeqRow} : row ∈ t.seqRows ↔
    ∃ ns n entry, get₂ t.seq ns n = some entry ∧ (seqMapKey ns (UInt64.ofNat n), entry) = row :=
  mem_cells (f := fun ns n entry => (seqMapKey ns (UInt64.ofNat n), entry))

section SeqStore

variable {t : Tables} (hfits : SeqMap.Fits t)

include hfits

theorem lt_of_mem_row {row : Table Nat SeqEntry} {n : Nat} {entry : SeqEntry}
    (hrow : (ns, row) ∈ t.seq.toList) (hentry : (n, entry) ∈ row.toList) : n < 2 ^ 64 := by
  rw [Std.ExtTreeMap.mem_toList_iff_getElem?_eq_some] at hrow hentry
  have hlt := hfits ns n (by simp [get₂, hrow, hentry])
  unfold UINT64_MAX at hlt
  omega

/-- The keys of the rows are those of `SeqMap`. -/
theorem map_pairOf_seqRows : t.seqRows.map (fun row => pairOf row.1) = SeqMap.keys t := by
  rw [Tables.seqRows, SeqMap.keys, List.map_flatMap, List.flatMap_def, List.flatMap_def]
  refine congrArg List.flatten (List.map_congr_left ?_)
  rintro ⟨ns, row⟩ hrow
  rw [List.map_map]
  refine List.map_congr_left ?_
  rintro ⟨n, entry⟩ hentry
  show pairOf (seqMapKey ns (UInt64.ofNat n)) = makeSeqKey ns n
  rw [pairOf_seqMapKey, UInt64.toNat_ofNat_of_lt' (lt_of_mem_row hfits hrow hentry)]

theorem ascending_seqRows : Ascending Prod.fst t.seqRows := by
  have hkeys := SeqMap.ascending_keys t
  rw [← map_pairOf_seqRows hfits] at hkeys
  exact (List.pairwise_map.mp hkeys).imp fun hlt => pairOf_lt.mp hlt

theorem toList_seqStore : t.seqStore.seqMap.toList = t.seqRows :=
  toList_ofList (ascending_seqRows hfits)

theorem toNat_seqNum {e : Nat × SeqEntry} (h : e ∈ t.seqEntries ns) :
    (UInt64.ofNat e.1).toNat = e.1 := by
  have hlt := hfits ns e.1 (by rw [mem_seqEntries.mp h]; rfl)
  unfold UINT64_MAX at hlt
  exact UInt64.toNat_ofNat_of_lt' (show e.1 < 2 ^ 64 by omega)

/-- The rows of a namespace are its sequence entries. -/
theorem rowsOf_seqStore (ns : Hash32) : t.seqStore.rowsOf ns =
    (t.seqEntries ns).map fun (n, entry) => (seqMapKey ns (UInt64.ofNat n), entry) := by
  have hsorted : Ascending Prod.fst
      ((t.seqEntries ns).map fun (n, entry) => (seqMapKey ns (UInt64.ofNat n), entry)) := by
    refine List.pairwise_map.mpr ((pairwise_seqEntries t ns).imp_of_mem fun {a b} ha hb hlt => ?_)
    rw [← pairOf_lt, pairOf_seqMapKey, pairOf_seqMapKey, SeqMap.makeSeqKey_lt,
      toNat_seqNum hfits ha, toNat_seqNum hfits hb]
    exact .inr ⟨rfl, hlt⟩
  refine Ascending.ext ((ascending_seqMap _).sublist List.filter_sublist) hsorted fun row => ?_
  rw [SeqStore.rowsOf, List.mem_filter, toList_seqStore hfits, mem_seqRows, List.mem_map]
  constructor
  · rintro ⟨⟨ns', n, entry, hentry, rfl⟩, hns⟩
    have hsame : ns' = ns := by simpa [rowNs] using hns
    exact ⟨(n, entry), mem_seqEntries.mpr (hsame ▸ hentry), by rw [hsame]⟩
  · rintro ⟨⟨n, entry⟩, hmem, rfl⟩
    exact ⟨⟨ns, n, entry, mem_seqEntries.mp hmem, rfl⟩, by simp [rowNs]⟩

/-- **The scan behind a number** computes what the list of the namespace's entries says. -/
theorem getBlobRefsSince_seqStore (ns : Hash32) (sinceSeq : UInt64) (maxCount : UInt32) :
    t.seqStore.getBlobRefsSince ns sinceSeq maxCount =
      Peer.getBlobRefsSince t ns sinceSeq maxCount.toNat := by
  have hrefs :
    (((t.seqStore.rowsOf ns).filter fun row => sinceSeq + 1 ≤ rowSeqNum row).filter fun row =>
      row.2.hash ≠ zeroHash).map refOf =
        (Peer.blobRefs t ns).filter fun ref => (sinceSeq + 1).toNat ≤ ref.seqNum := by
    rw [rowsOf_seqStore hfits, List.filter_filter, List.filter_map, List.map_map, Peer.blobRefs,
      List.filter_map, List.filter_filter]
    -- both sides map the entries that pass the same two tests
    have htests : ∀ e ∈ t.seqEntries ns,
        (decide (e.2.hash ≠ zeroHash) && decide (sinceSeq + 1 ≤ UInt64.ofNat e.1)) =
          (decide ((sinceSeq + 1).toNat ≤ e.1) && e.2.hash != zeroHash) := by
      intro e he
      rw [Bool.eq_iff_iff]
      simp only [Bool.and_eq_true, decide_eq_true_eq, bne_iff_ne, UInt64.le_iff_toNat_le,
        toNat_seqNum hfits he]
      exact and_comm
    simp only [Function.comp_def, rowSeqNum, splitSeqKey_seqMapKey]
    rw [List.filter_congr htests]
    refine List.map_congr_left fun e he => ?_
    simp [refOf, rowSeqNum, toNat_seqNum hfits (List.mem_of_mem_filter he)]
  rw [getBlobRefsSince_eq, hrefs]
  rfl

/-- **The walk over the namespaces** lists those of the tables. -/
theorem listNamespaces_seqStore (hrows : ∀ (ns : Hash32) (row : Table Nat SeqEntry),
      t.seq[ns]? = some row → ∃ n : Nat, (row[n]?).isSome = true) :
    t.seqStore.listNamespaces = t.listNamespaces := by
  rw [← SeqMap.listNamespaces_eq hfits hrows, SeqStore.listNamespaces, SeqMap.listNamespaces,
    toList_seqStore hfits, map_pairOf_seqRows hfits]

end SeqStore

end Storage
