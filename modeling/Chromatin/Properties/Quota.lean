import Chromatin.Properties.EngineCalls
import Chromatin.Storage.Maintenance

/-!
# The quota aggregates

`Accurate` says that every namespace's recorded aggregate is the size and the number of its stored
blobs that are no tombstones. Storing one blob and the expiry scan keep it. `delete_blob_data`
takes a deleted tombstone off although it was never counted, the rebuild of a re-opened store
counts the stored tombstones, and a batch counts a blob that it holds twice two times; `Orderly`
says when an operation does none of these.
-/

namespace Storage

open Infra Util Wire

variable {P : Primitives} {t : Tables} {ns ns' hash : Hash32} {blob : BlobData}

/-! ## Aggregates and sums -/

/-- An aggregate of natural numbers, as the 64-bit fields hold it. -/
def quotaOf (bytes count : Nat) : NamespaceQuota :=
  { totalBytes := UInt64.ofNat bytes, blobCount := UInt64.ofNat count }

theorem quotaOf_add (a b c d : Nat) : quotaOf a b + quotaOf c d = quotaOf (a + c) (b + d) := by
  have hadd : quotaOf a b + quotaOf c d =
      { totalBytes := UInt64.ofNat a + UInt64.ofNat c
        blobCount := UInt64.ofNat b + UInt64.ofNat d } := rfl
  rw [hadd, ← UInt64.ofNat_add, ← UInt64.ofNat_add, quotaOf]

theorem quotaOf_toNat (quota : NamespaceQuota) :
    quotaOf quota.totalBytes.toNat quota.blobCount.toNat = quota := by
  simp [quotaOf]

theorem getD_addTo (sums : Table Hash32 NamespaceQuota) (ns ns' : Hash32)
    (increment : NamespaceQuota) : (addTo sums ns increment)[ns']?.getD {} =
      if ns = ns' then sums[ns']?.getD {} + increment else sums[ns']?.getD {} := by
  rw [addTo, getElem?_insert_eq]
  split_ifs with h
  · rw [h, Option.getD_some]
  · rfl

/-- What a sequence of additions adds to a namespace. -/
theorem getD_foldl_addTo (ns : Hash32) : ∀ (items : List (Hash32 × Nat × Nat))
    (sums : Table Hash32 NamespaceQuota),
    (items.foldl (fun sums item =>
      addTo sums item.1 (quotaOf item.2.1 item.2.2)) sums)[ns]?.getD {} =
      sums[ns]?.getD {} +
        quotaOf (items.map fun item => if item.1 = ns then item.2.1 else 0).sum
          (items.map fun item => if item.1 = ns then item.2.2 else 0).sum
  | [], sums => by
    rw [List.foldl_nil, List.map_nil, List.sum_nil, ← quotaOf_toNat (sums[ns]?.getD {})]
    simp [quotaOf_add]
  | item :: rest, sums => by
    rw [List.foldl_cons, getD_foldl_addTo ns rest, getD_addTo, List.map_cons, List.map_cons,
      List.sum_cons, List.sum_cons]
    split_ifs with h
    · rw [← quotaOf_toNat (sums[ns]?.getD {}), quotaOf_add, quotaOf_add, quotaOf_add,
        Nat.add_assoc, Nat.add_assoc]
    · simp

theorem getD_foldl_addTo_empty (ns : Hash32) (items : List (Hash32 × Nat × Nat)) :
    (items.foldl (fun sums item => addTo sums item.1 (quotaOf item.2.1 item.2.2))
      (∅ : Table Hash32 NamespaceQuota))[ns]?.getD {} =
        quotaOf (items.map fun item => if item.1 = ns then item.2.1 else 0).sum
          (items.map fun item => if item.1 = ns then item.2.2 else 0).sum := by
  have hempty : (∅ : Table Hash32 NamespaceQuota)[ns]?.getD {} = quotaOf 0 0 := by
    simp [quotaOf]
  rw [getD_foldl_addTo, hempty, quotaOf_add, Nat.zero_add, Nat.zero_add]

theorem getD_addIncrements (quota increments : Table Hash32 NamespaceQuota) (ns : Hash32) :
    (addIncrements quota increments)[ns]?.getD {} =
      quota[ns]?.getD {} + increments[ns]?.getD {} := by
  have hfold : addIncrements quota increments = (increments.toList.map fun e =>
      (e.1, e.2.totalBytes.toNat, e.2.blobCount.toNat)).foldl
        (fun sums item => addTo sums item.1 (quotaOf item.2.1 item.2.2)) quota := by
    simp [addIncrements, List.foldl_map, quotaOf_toNat]
  rw [hfold, getD_foldl_addTo, List.map_map, List.map_map]
  have hbytes := tally_single (fun q : NamespaceQuota => q.totalBytes.toNat) increments ns
  have hcount := tally_single (fun q : NamespaceQuota => q.blobCount.toNat) increments ns
  rw [tally] at hbytes hcount
  rw [show quotaOf _ _ = increments[ns]?.getD {} from ?_]
  simp only [Function.comp_def]
  rw [hbytes, hcount]
  cases increments[ns]? with
  | none => rfl
  | some q => exact quotaOf_toNat q

/-- An aggregate with one blob taken off. -/
def NamespaceQuota.drop (quota : NamespaceQuota) (size : UInt64) : NamespaceQuota :=
  { totalBytes := if quota.totalBytes > size then quota.totalBytes - size else 0
    blobCount := if quota.blobCount > 0 then quota.blobCount - 1 else 0 }

theorem decrementQuota_eq {quota : Table Hash32 NamespaceQuota} {current : NamespaceQuota}
    (h : quota[ns]? = some current) (size : UInt64) : decrementQuota quota ns size =
      if current.drop size = {} then quota.erase ns else quota.insert ns (current.drop size) := by
  simp only [decrementQuota, h, NamespaceQuota.drop, NamespaceQuota.mk.injEq]

theorem getD_decrementQuota (quota : Table Hash32 NamespaceQuota) (ns ns' : Hash32)
    (size : UInt64) :
    (decrementQuota quota ns size)[ns']?.getD {} =
      if ns = ns' then (quota[ns']?.getD {}).drop size else quota[ns']?.getD {} := by
  cases hquota : quota[ns]? with
  | none =>
    have hsame : decrementQuota quota ns size = quota := by simp [decrementQuota, hquota]
    rw [hsame]
    split_ifs with h
    · rw [← h, hquota]
      simp [NamespaceQuota.drop]
    · rfl
  | some current =>
    rw [decrementQuota_eq hquota]
    by_cases h : ns = ns'
    · rw [if_pos h, ← h, hquota, Option.getD_some]
      split_ifs with hzero
      · simp [hzero]
      · simp
    · rw [if_neg h]
      split_ifs
      · rw [getElem?_erase_eq, if_neg h]
      · rw [getElem?_insert_eq, if_neg h]

/-- Taking off what is counted. -/
theorem drop_quotaOf {bytes count size : Nat} (hbytes : bytes + size < 2 ^ 64)
    (hcount : count + 1 < 2 ^ 64) :
    (quotaOf (bytes + size) (count + 1)).drop (UInt64.ofNat size) = quotaOf bytes count := by
  have hsum : (UInt64.ofNat (bytes + size)).toNat = bytes + size := UInt64.toNat_ofNat_of_lt' hbytes
  have hsize : (UInt64.ofNat size).toNat = size :=
    UInt64.toNat_ofNat_of_lt' (Nat.lt_of_le_of_lt (Nat.le_add_left _ _) hbytes)
  have hfst : (if UInt64.ofNat (bytes + size) > UInt64.ofNat size then
      UInt64.ofNat (bytes + size) - UInt64.ofNat size else 0) = UInt64.ofNat bytes := by
    by_cases hpos : 0 < bytes
    · have hgt : UInt64.ofNat (bytes + size) > UInt64.ofNat size := by
        rw [gt_iff_lt, UInt64.lt_iff_toNat_lt, hsum, hsize]
        omega
      rw [if_pos hgt, UInt64.ofNat_add, UInt64.add_sub_cancel]
    · have hzero : bytes = 0 := by omega
      subst hzero
      simp
  have hsnd : (if UInt64.ofNat (count + 1) > 0 then UInt64.ofNat (count + 1) - 1 else 0) =
      UInt64.ofNat count := by
    have hgt : UInt64.ofNat (count + 1) > 0 := by
      rw [gt_iff_lt, UInt64.lt_iff_toNat_lt, UInt64.toNat_ofNat_of_lt' hcount]
      exact Nat.succ_pos _
    rw [if_pos hgt, UInt64.ofNat_add]
    exact UInt64.add_sub_cancel _ _
  exact congrArg₂ NamespaceQuota.mk hfst hsnd

theorem drop_zero (size : UInt64) : (quotaOf 0 0).drop size = quotaOf 0 0 := by
  simp [NamespaceQuota.drop, quotaOf]

/-! ## What is stored -/

/-- The size of a blob's encrypted value. -/
def blobSize (P : Primitives) (blob : BlobData) : Nat :=
  (encodeBlob P blob).length + ENVELOPE_OVERHEAD

/-- The sum of a weight over the stored blobs of a namespace that are no tombstones. -/
def storedSum (weight : BlobData → Nat) (t : Tables) (ns : Hash32) : Nat :=
  tally (fun key blob =>
    if namespaceOf key = ns ∧ isTombstone blob.data = false then weight blob else 0)
    t.blobs

def storedBytes (P : Primitives) : Tables → Hash32 → Nat := storedSum (blobSize P)

def storedCount : Tables → Hash32 → Nat := storedSum fun _ => 1

@[simp] theorem namespaceOf_makeBlobKey (ns hash : Hash32) :
    namespaceOf (makeBlobKey ns hash) = ns := by
  refine List.Vector.toList_injective ?_
  change (ns.toList ++ hash.toList).take 32 = ns.toList
  rw [List.take_left' (by simp)]

/-- What one blob adds to a namespace. -/
def share (weight : BlobData → Nat) (ns : Hash32) (blob : BlobData) (ns' : Hash32) : Nat :=
  if ns = ns' ∧ isTombstone blob.data = false then weight blob else 0

variable (weight : BlobData → Nat) {t' : Tables}

theorem storedSum_insert (hblobs : t'.blobs = t.blobs.insert (makeBlobKey ns hash) blob)
    (habsent : t.getBlob ns hash = none) (ns' : Hash32) :
    storedSum weight t' ns' = storedSum weight t ns' + share weight ns blob ns' := by
  rw [storedSum, hblobs, tally_insert habsent, namespaceOf_makeBlobKey]
  rfl

theorem storedSum_erase (hblobs : t'.blobs = t.blobs.erase (makeBlobKey ns hash))
    (hstored : t.getBlob ns hash = some blob) (ns' : Hash32) :
    storedSum weight t' ns' + share weight ns blob ns' = storedSum weight t ns' := by
  rw [storedSum, storedSum, hblobs, ← tally_erase hstored, namespaceOf_makeBlobKey]
  rfl

theorem storedCount_le_storedBytes : storedCount t ns ≤ storedBytes P t ns := by
  unfold storedCount storedBytes storedSum
  refine tally_le_tally fun key blob => ?_
  split_ifs
  · exact Nat.succ_le_of_lt (Nat.lt_of_lt_of_le (by decide) (Nat.le_add_left _ _))
  · exact Nat.le_refl 0

theorem storedBytes_eq_zero (h : storedCount t ns = 0) : storedBytes P t ns = 0 := by
  unfold storedCount storedSum tally at h
  unfold storedBytes storedSum tally
  rw [List.sum_eq_zero_iff] at h ⊢
  simp only [List.mem_map] at h ⊢
  rintro _ ⟨e, he, rfl⟩
  refine if_neg fun hcounted => ?_
  simpa [hcounted] using h _ ⟨e, he, rfl⟩

/-- Every recorded aggregate is that of the stored blobs. -/
structure Accurate (P : Primitives) (t : Tables) : Prop where
  recorded : ∀ ns, t.getNamespaceQuota ns = quotaOf (storedBytes P t ns) (storedCount t ns)
  fits : ∀ ns, storedBytes P t ns < 2 ^ 64

theorem accurate_empty : Accurate P {} := by
  have hzero : ∀ (weight : BlobData → Nat) ns, storedSum weight {} ns = 0 := fun _ _ => tally_empty
  refine ⟨fun ns => ?_, fun ns => ?_⟩
  · rw [storedBytes, storedCount, hzero, hzero]
    simp [Tables.getNamespaceQuota, quotaOf]
  · rw [storedBytes, hzero]
    decide

theorem Accurate.congr (h : Accurate P t) (hblobs : t'.blobs = t.blobs)
    (hquota : t'.quota = t.quota) : Accurate P t' := by
  refine ⟨fun ns => ?_, fun ns => ?_⟩
  · rw [Tables.getNamespaceQuota, hquota, storedBytes, storedCount, storedSum, storedSum, hblobs]
    exact h.recorded ns
  · rw [storedBytes, storedSum, hblobs]
    exact h.fits ns

/-! ## One operation -/

/-- Storing a blob keeps the aggregates accurate. -/
theorem Accurate.insertBlob (h : Accurate P t) (habsent : t.getBlob ns (contentHash P blob) = none)
    (hfits : storedBytes P t ns + blobSize P blob < 2 ^ 64) :
    Accurate P (t.insertBlob P ns blob) := by
  have hsum : ∀ weight ns', storedSum weight (t.insertBlob P ns blob) ns' =
      storedSum weight t ns' + share weight ns blob ns' :=
    fun weight => storedSum_insert weight rfl habsent
  refine ⟨fun ns' => ?_, fun ns' => ?_⟩
  · rw [storedBytes, storedCount, hsum, hsum, ← quotaOf_add, ← storedBytes, ← storedCount,
      ← h.recorded ns']
    cases htomb : isTombstone blob.data with
    | true =>
      have hquota : (t.insertBlob P ns blob).quota = t.quota := by simp [Tables.insertBlob, htomb]
      rw [Tables.getNamespaceQuota, hquota, share, share, htomb, ← Tables.getNamespaceQuota,
        h.recorded ns', quotaOf_add]
      simp
    | false =>
      have hquota : (t.insertBlob P ns blob).quota =
          addTo t.quota ns (quotaOf (blobSize P blob) 1) := by
        simp only [Tables.insertBlob, htomb, Bool.false_eq_true, if_false]
        rfl
      rw [Tables.getNamespaceQuota, hquota, getD_addTo, ← Tables.getNamespaceQuota, share, share,
        htomb]
      by_cases hns : ns = ns'
      · simp [hns]
      · simp [hns, h.recorded ns', quotaOf_add]
  · rw [storedBytes, hsum, share]
    have hbefore := h.fits ns'
    rw [storedBytes] at hbefore hfits
    split_ifs with hns
    · rw [← hns.1]
      exact hfits
    · exact hbefore

/-- Removing a counted blob and taking it off its aggregate. -/
theorem Accurate.erase (h : Accurate P t) (hstored : t.getBlob ns hash = some blob)
    (htomb : isTombstone blob.data = false)
    (hblobs : t'.blobs = t.blobs.erase (makeBlobKey ns hash))
    (hquota : t'.quota = decrementQuota t.quota ns (encryptedSize P blob)) : Accurate P t' := by
  have hsum := fun weight => storedSum_erase weight hblobs hstored
  have hfits : ∀ ns', storedBytes P t' ns' + share (blobSize P) ns blob ns' < 2 ^ 64 :=
      fun ns' => by
    rw [storedBytes, hsum]
    exact h.fits ns'
  refine ⟨fun ns' => ?_, fun ns' => Nat.lt_of_le_of_lt (Nat.le_add_right _ _) (hfits ns')⟩
  have hrecorded := h.recorded ns'
  rw [storedBytes, storedCount, ← hsum, ← hsum, ← storedBytes, ← storedCount] at hrecorded
  rw [Tables.getNamespaceQuota, hquota, getD_decrementQuota, ← Tables.getNamespaceQuota, hrecorded]
  have hfits := hfits ns'
  by_cases hns : ns = ns'
  · have hcount : storedCount t' ns' ≤ storedBytes P t' ns' := storedCount_le_storedBytes
    have hpos : 1 ≤ blobSize P blob := Nat.le_trans (by decide) (Nat.le_add_left _ _)
    simp only [share, hns, htomb, and_self, if_true] at hfits ⊢
    exact drop_quotaOf hfits (by omega)
  · simp [share, hns]

/-- Removing a tombstone, which is not counted. -/
theorem Accurate.eraseTombstone (h : Accurate P t)
    (hstored : t.getBlob ns hash = some blob) (htomb : isTombstone blob.data = true)
    (hblobs : t'.blobs = t.blobs.erase (makeBlobKey ns hash))
    (hquota : ∀ ns', t'.getNamespaceQuota ns' = t.getNamespaceQuota ns') : Accurate P t' := by
  have hsum : ∀ weight ns', storedSum weight t' ns' = storedSum weight t ns' := fun weight ns' => by
    rw [← storedSum_erase weight hblobs hstored, share, htomb]
    simp
  refine ⟨fun ns' => ?_, fun ns' => ?_⟩
  · unfold storedBytes storedCount
    rw [hquota, h.recorded, hsum, hsum, storedBytes, storedCount]
  · rw [storedBytes, hsum]
    exact h.fits ns'

theorem Accurate.deleteBlobData (h : Accurate P t)
    (hcounted : ∀ blob, t.getBlob ns hash = some blob → isTombstone blob.data = true →
      storedCount t ns = 0) :
    Accurate P (deleteBlobData P t ns hash).1 := by
  unfold Storage.deleteBlobData
  cases hblob : t.getBlob ns hash with
  | none => exact h
  | some blob =>
    cases htomb : isTombstone blob.data with
    | false => exact h.erase hblob htomb rfl rfl
    | true =>
      refine h.eraseTombstone hblob htomb rfl fun ns' => ?_
      have hcount := hcounted blob hblob htomb
      change (decrementQuota t.quota ns (encryptedSize P blob))[ns']?.getD {} =
        t.getNamespaceQuota ns'
      rw [getD_decrementQuota, ← Tables.getNamespaceQuota]
      split_ifs with hns
      · rw [← hns, h.recorded ns, hcount, storedBytes_eq_zero hcount, drop_zero]
      · rfl

theorem Accurate.expireEntry (h : Accurate P t) (entry : ExpiryEntry) :
    Accurate P (expireEntry P t entry) := by
  unfold Storage.expireEntry
  cases hblob : t.getBlob entry.ns entry.hash with
  | none => exact h.congr rfl rfl
  | some blob =>
    cases htomb : isTombstone blob.data with
    | false => exact h.erase hblob htomb rfl (by simp [htomb])
    | true => exact h.eraseTombstone hblob htomb rfl (by simp [Tables.getNamespaceQuota, htomb])

/-! ## A batch -/

/-- What a list of blobs adds to a namespace. -/
def batchSum (weight : BlobData → Nat) (batch : List PrecomputedBlob) (ns : Hash32) : Nat :=
  (batch.map fun pb => share weight pb.targetNamespace pb.blob ns).sum

/-- The blobs of a batch that are not in the store. -/
def freshOf (P : Primitives) (t : Tables) (batch : List PrecomputedBlob) : List PrecomputedBlob :=
  batch.filter fun pb => !pb.isDup P t

def PrecomputedBlob.key (P : Primitives) (pb : PrecomputedBlob) : FixedBytes 64 :=
  makeBlobKey pb.targetNamespace (contentHash P pb.blob)

theorem quota_secondPass (before : Tables) : ∀ (batch : List PrecomputedBlob) (t : Tables),
    (secondPass P before t batch).1.quota = t.quota
  | [], _ => rfl
  | pb :: rest, t => by
    unfold secondPass
    split_ifs
    · exact quota_secondPass before rest t
    · exact quota_secondPass before rest (storeRow P t pb)

/-- The second pass stores every new blob once if the batch holds none twice. -/
theorem storedSum_secondPass (weight : BlobData → Nat) (before : Tables) :
    ∀ (batch : List PrecomputedBlob) (t : Tables),
    (∀ pb ∈ freshOf P before batch, t.blobs[pb.key P]? = none) →
    ((freshOf P before batch).map (PrecomputedBlob.key P)).Nodup → ∀ ns,
    storedSum weight (secondPass P before t batch).1 ns =
      storedSum weight t ns + batchSum weight (freshOf P before batch) ns
  | [], _, _, _, _ => by simp [secondPass, freshOf, batchSum]
  | pb :: rest, t, habsent, hnodup, ns => by
    unfold secondPass
    by_cases hdup : pb.isDup P before = true
    · have hfresh : freshOf P before (pb :: rest) = freshOf P before rest := by
        simp [freshOf, hdup]
      rw [hfresh] at habsent hnodup ⊢
      rw [if_pos hdup]
      exact storedSum_secondPass weight before rest t habsent hnodup ns
    · have hfresh : freshOf P before (pb :: rest) = pb :: freshOf P before rest := by
        simp [freshOf, hdup]
      rw [hfresh] at habsent hnodup ⊢
      rw [List.map_cons, List.nodup_cons] at hnodup
      -- the rows of the later blobs are other ones than that of `pb`
      have hlater : ∀ pb' ∈ freshOf P before rest, (storeRow P t pb).blobs[pb'.key P]? = none := by
        intro pb' hpb'
        have hne : pb.key P ≠ pb'.key P := fun heq =>
          hnodup.1 (heq ▸ List.mem_map_of_mem hpb')
        change (t.blobs.insert (pb.key P) pb.blob)[pb'.key P]? = none
        rw [getElem?_insert_eq, if_neg hne]
        exact habsent pb' (List.mem_cons_of_mem _ hpb')
      have hrow : storedSum weight (storeRow P t pb) ns =
          storedSum weight t ns + share weight pb.targetNamespace pb.blob ns :=
        storedSum_insert weight rfl (habsent pb List.mem_cons_self) ns
      rw [if_neg hdup]
      change storedSum weight (secondPass P before (storeRow P t pb) rest).1 ns = _
      rw [storedSum_secondPass weight before rest _ hlater hnodup.2 ns, hrow, batchSum, batchSum,
        List.map_cons, List.sum_cons, Nat.add_assoc]

/-- Tombstones add nothing, so leaving them out changes no sum. -/
theorem batchSum_filter (weight : BlobData → Nat) (ns : Hash32) (batch : List PrecomputedBlob) :
    ((batch.filter fun pb => !isTombstone pb.blob.data).map fun pb =>
      if pb.targetNamespace = ns then weight pb.blob else 0).sum = batchSum weight batch ns := by
  unfold batchSum share
  induction batch with
  | nil => rfl
  | cons pb rest ih =>
    cases htomb : isTombstone pb.blob.data with
    | true => simpa [htomb] using ih
    | false => simpa [htomb] using ih

theorem getD_additions (batch : List PrecomputedBlob) (ns : Hash32) :
    (additions (encryptedSize P) batch)[ns]?.getD {} =
      quotaOf (batchSum (blobSize P) batch ns) (batchSum (fun _ => 1) batch ns) := by
  have hfold : additions (encryptedSize P) batch =
      ((batch.filter fun pb => !isTombstone pb.blob.data).map fun pb =>
        (pb.targetNamespace, blobSize P pb.blob, 1)).foldl
          (fun sums item => addTo sums item.1 (quotaOf item.2.1 item.2.2)) ∅ := by
    rw [additions, List.foldl_map]
    rfl
  rw [hfold, getD_foldl_addTo_empty, List.map_map, List.map_map, ← batchSum_filter,
    ← batchSum_filter]
  rfl

/-- What a batch can do: leave the tables as they are, or store its new blobs. -/
theorem storeBlobsAtomic_cases (usedBytes : UInt64) (writeError : Bool) (t : Tables)
    (batch : List PrecomputedBlob) (limits : StoreLimits) :
    (storeBlobsAtomic P usedBytes writeError t batch limits).1 = t ∨
    (storeBlobsAtomic P usedBytes writeError t batch limits).1 =
      { (secondPass P t t batch).1 with
        quota := addIncrements t.quota (additions (encryptedSize P) (freshOf P t batch)) } := by
  unfold storeBlobsAtomic
  dsimp only
  split_ifs
  iterate 5 exact .inl rfl
  right
  rw [quota_secondPass]
  rfl

theorem Accurate.storeBlobsAtomic (h : Accurate P t) (usedBytes : UInt64) (writeError : Bool)
    {batch : List PrecomputedBlob} (limits : StoreLimits)
    (hnodup : ((freshOf P t batch).map (PrecomputedBlob.key P)).Nodup)
    (hfits : ∀ ns, storedBytes P t ns + batchSum (blobSize P) (freshOf P t batch) ns < 2 ^ 64) :
    Accurate P (storeBlobsAtomic P usedBytes writeError t batch limits).1 := by
  rcases storeBlobsAtomic_cases (P := P) usedBytes writeError t batch limits with hsame | hstored
  · rw [hsame]
    exact h
  · have habsent : ∀ pb ∈ freshOf P t batch, t.blobs[pb.key P]? = none := by
      intro pb hpb
      have hdup := (List.mem_filter.mp hpb).2
      rw [PrecomputedBlob.isDup, Tables.hasBlob, Bool.not_eq_true', Option.isSome_eq_false_iff,
        Option.isNone_iff_eq_none] at hdup
      exact hdup
    rw [hstored]
    have hsum := fun weight => storedSum_secondPass weight t batch t habsent hnodup
    refine ⟨fun ns => ?_, fun ns => ?_⟩
    · change (addIncrements t.quota _)[ns]?.getD {} =
        quotaOf (storedSum (blobSize P) (secondPass P t t batch).1 ns)
          (storedSum (fun _ => 1) (secondPass P t t batch).1 ns)
      rw [getD_addIncrements, getD_additions, hsum, hsum, ← quotaOf_add]
      exact congrArg (· + _) (h.recorded ns)
    · change storedSum (blobSize P) (secondPass P t t batch).1 ns < 2 ^ 64
      rw [hsum]
      exact hfits ns

/-! ## Re-opening -/

/-- The rebuild counts every stored blob, so it is right if no tombstone is stored. -/
theorem Accurate.rebuildQuotaAggregates (h : Accurate P t)
    (hnone : ∀ (key : FixedBytes 64) (blob : BlobData), t.blobs[key]? = some blob →
      isTombstone blob.data = false) :
    Accurate P (Storage.rebuildQuotaAggregates P t) := by
  have hfold : (Storage.rebuildQuotaAggregates P t).quota =
      (t.blobs.toList.map fun e => (namespaceOf e.1, blobSize P e.2, 1)).foldl
        (fun sums item => addTo sums item.1 (quotaOf item.2.1 item.2.2)) ∅ := by
    rw [Storage.rebuildQuotaAggregates, List.foldl_map]
    rfl
  have hsum : ∀ (weight : BlobData → Nat) ns,
      tally (fun key blob => if namespaceOf key = ns then weight blob else 0) t.blobs =
        storedSum weight t ns := fun weight ns => by
    refine tally_congr fun key blob hstored => ?_
    simp [hnone key blob hstored]
  refine ⟨fun ns => ?_, fun ns => h.fits ns⟩
  rw [Tables.getNamespaceQuota, hfold, getD_foldl_addTo_empty, List.map_map, List.map_map]
  exact congrArg₂ quotaOf (hsum (blobSize P) ns) (hsum (fun _ => 1) ns)

/-! ## Runs -/

/-- The operation neither deletes a stored tombstone of a namespace that counts blobs, nor
re-opens a store with a tombstone in it, nor brings a blob twice in one batch, nor takes a
namespace to `2 ^ 64` bytes. -/
def Orderly (P : Primitives) (t : Tables) : StoreOp → Prop
  | .storeBlob _ _ ns blob _ => storedBytes P t ns + blobSize P blob < 2 ^ 64
  | .storeBlobsAtomic _ _ batch _ =>
    ((freshOf P t batch).map (PrecomputedBlob.key P)).Nodup ∧
      ∀ ns, storedBytes P t ns + batchSum (blobSize P) (freshOf P t batch) ns < 2 ^ 64
  | .deleteBlobData ns hash =>
    ∀ blob, t.getBlob ns hash = some blob → isTombstone blob.data = true → storedCount t ns = 0
  | .runExpiryScan _ => True
  | .reopen => ∀ (key : FixedBytes 64) (blob : BlobData), t.blobs[key]? = some blob →
    isTombstone blob.data = false

theorem Accurate.step (h : Accurate P t) (op : StoreOp) (horderly : Orderly P t op) :
    Accurate P (StoreOp.step P t op) := by
  cases op with
  | storeBlob usedBytes writeError ns blob limits =>
    rcases storeBlob_cases (P := P) usedBytes writeError t ns blob limits with
      ⟨hsame, -⟩ | ⟨habsent, hstored⟩
    · rw [StoreOp.step, hsame]
      exact h
    · rw [StoreOp.step, hstored]
      exact h.insertBlob habsent horderly
  | storeBlobsAtomic usedBytes writeError batch limits =>
    exact h.storeBlobsAtomic usedBytes writeError limits horderly.1 horderly.2
  | deleteBlobData ns hash => exact h.deleteBlobData horderly
  | runExpiryScan now =>
    exact runExpiryScan_preserves now (fun _ entry ht => ht.expireEntry entry) h
  | reopen => exact h.rebuildQuotaAggregates horderly

theorem Accurate.toNat (h : Accurate P t) (ns : Hash32) :
    (t.getNamespaceQuota ns).totalBytes.toNat = storedBytes P t ns ∧
      (t.getNamespaceQuota ns).blobCount.toNat = storedCount t ns := by
  rw [h.recorded]
  exact ⟨UInt64.toNat_ofNat_of_lt' (h.fits ns),
    UInt64.toNat_ofNat_of_lt' (Nat.lt_of_le_of_lt storedCount_le_storedBytes (h.fits ns))⟩

/-- **Quota accounting.** After any orderly operations on an empty store every recorded aggregate
is the size and the number of the stored blobs that are no tombstones, and re-opening the store
does not change it unless a tombstone is stored. -/
theorem quota_accounting (P : Primitives) (ops : List StoreOp)
    (horderly : AllSteps (StoreOp.step P) (Orderly P) {} ops) (ns : Hash32) :
    let t := run (StoreOp.step P) {} ops
    (t.getNamespaceQuota ns).totalBytes.toNat = storedBytes P t ns ∧
      (t.getNamespaceQuota ns).blobCount.toNat = storedCount t ns ∧
      (Orderly P t .reopen →
        (rebuildQuotaAggregates P t).getNamespaceQuota ns = t.getNamespaceQuota ns) := by
  intro t
  have haccurate : Accurate P t :=
    run_invariant (I := Accurate P) (fun t op h hop => h.step op hop) accurate_empty horderly
  refine ⟨(haccurate.toNat ns).1, (haccurate.toNat ns).2, fun hreopen => ?_⟩
  rw [(haccurate.rebuildQuotaAggregates hreopen).recorded, haccurate.recorded]
  rfl

section Sample

open Wire.Sample Engine

set_option maxRecDepth 20000

theorem orderly_note : AllSteps (StoreOp.step primitives) (Orderly primitives) {}
    [.storeBlob 0 false (owned 1) note {}, .reopen, .deleteBlobData (owned 1) noteHash] := by
  have hstored : StoreOp.step primitives {} (.storeBlob 0 false (owned 1) note {}) =
      ({} : Tables).insertBlob primitives (owned 1) note := by
    simp [StoreOp.step, storeBlob, Tables.hasBlob, overQuota]
  have hnote : isTombstone note.data = false := by decide
  have hfits : storedBytes primitives {} (owned 1) + blobSize primitives note < 2 ^ 64 := by
    decide
  refine ⟨hfits, ?_, ?_, trivial⟩
  · rw [hstored]
    intro key blob hblob
    change ((∅ : Table (FixedBytes 64) BlobData).insert _ note)[key]? = some blob at hblob
    rw [getElem?_insert_eq] at hblob
    split_ifs at hblob
    · rw [← Option.some.inj hblob, hnote]
    · simp at hblob
  · rw [hstored]
    intro blob hblob htomb
    have hget : (({} : Tables).insertBlob primitives (owned 1) note).getBlob (owned 1) noteHash =
        some note := by rw [getBlob_insertBlob, if_pos ⟨rfl, rfl⟩]
    have heq : some note = some blob := hget.symm.trans hblob
    rw [← Option.some.inj heq, hnote] at htomb
    simp at htomb

/-- A blob is stored, the store re-opened and the blob deleted. -/
theorem quota_accounting_note :
    AllSteps (StoreOp.step primitives) (Orderly primitives) {}
      [.storeBlob 0 false (owned 1) note {}, .reopen, .deleteBlobData (owned 1) noteHash] ∧
    let t := run (StoreOp.step primitives) {}
      [.storeBlob 0 false (owned 1) note {}, .reopen, .deleteBlobData (owned 1) noteHash]
    (t.getNamespaceQuota (owned 1)).totalBytes.toNat = storedBytes primitives t (owned 1) ∧
      (t.getNamespaceQuota (owned 1)).blobCount.toNat = storedCount t (owned 1) ∧
      (Orderly primitives t .reopen →
        (rebuildQuotaAggregates primitives t).getNamespaceQuota (owned 1) =
          t.getNamespaceQuota (owned 1)) :=
  ⟨orderly_note, quota_accounting primitives _ orderly_note (owned 1)⟩

/-- A stored tombstone is not counted until the store is re-opened; a deleted one is taken off
the count of the blob beside it. -/
theorem quota_of_tombstone :
    let stored := run (StoreOp.step primitives) {}
      [.storeBlob 0 false (owned 1) note {}, .storeBlob 0 false (owned 1) grave {}]
    let reopened := StoreOp.step primitives stored .reopen
    let deleted := StoreOp.step primitives stored
      (.deleteBlobData (owned 1) (contentHash primitives grave))
    (storedCount stored (owned 1), (stored.getNamespaceQuota (owned 1)).blobCount) = (1, 1) ∧
      (storedCount reopened (owned 1), (reopened.getNamespaceQuota (owned 1)).blobCount) = (1, 2) ∧
      (storedCount deleted (owned 1), (deleted.getNamespaceQuota (owned 1)).blobCount) =
          (1, 0) := by
  decide

end Sample

/-! ## Enforcement -/

/-- The bytes that `store_blob` compares with the limit: the recorded bytes and the encoding's
size, without the envelope that is counted afterwards. -/
def comparedBytes (P : Primitives) (t : Tables) (ns : Hash32) (blob : BlobData) : UInt64 :=
  (t.getNamespaceQuota ns).totalBytes + UInt64.ofNat (encodeBlob P blob).length

theorem totalBytes_insertBlob (htomb : isTombstone blob.data = false) :
    ((t.insertBlob P ns blob).getNamespaceQuota ns).totalBytes =
      comparedBytes P t ns blob + UInt64.ofNat ENVELOPE_OVERHEAD := by
  simp only [Tables.getNamespaceQuota, Tables.insertBlob, htomb, Bool.false_eq_true, if_false,
    Std.ExtTreeMap.getElem?_insert_self, Option.getD_some, encryptedSize, comparedBytes,
    UInt64.ofNat_add, UInt64.add_assoc]

theorem blobCount_insertBlob (htomb : isTombstone blob.data = false) :
    ((t.insertBlob P ns blob).getNamespaceQuota ns).blobCount =
      (t.getNamespaceQuota ns).blobCount + 1 := by
  simp only [Tables.getNamespaceQuota, Tables.insertBlob, htomb, Bool.false_eq_true, if_false,
    Std.ExtTreeMap.getElem?_insert_self, Option.getD_some]

/-- Adding a constant to a 64-bit number below a limit keeps it below the limit exactly if it
stays so without wrapping, or wraps. -/
theorem add_le_iff {used limit : UInt64} {n : Nat} (hn : n < 2 ^ 64) (hle : used ≤ limit) :
    used + UInt64.ofNat n ≤ limit ↔
      used.toNat + n ≤ limit.toNat ∨ 2 ^ 64 ≤ used.toNat + n := by
  have hused := used.toNat_lt
  have hlimit := limit.toNat_lt
  rw [UInt64.le_iff_toNat_le] at hle ⊢
  rw [UInt64.toNat_add, UInt64.toNat_ofNat_of_lt' hn]
  omega

/-- What a stored blob passed. -/
theorem storeBlob_stored {usedBytes : UInt64} {writeError : Bool} {limits : StoreLimits}
    (htomb : isTombstone blob.data = false)
    (hstored : (storeBlob P usedBytes writeError t ns blob limits).2.status = .stored) :
    (storeBlob P usedBytes writeError t ns blob limits).1 = t.insertBlob P ns blob ∧
      overQuota (t.getNamespaceQuota ns) (encodeBlob P blob).length limits = false := by
  unfold storeBlob at hstored ⊢
  dsimp only at hstored ⊢
  split_ifs at hstored ⊢ with herror hdup hfull hquota
  refine ⟨rfl, ?_⟩
  simpa [htomb] using hquota

/-- **Quota enforcement.** A stored blob leaves the recorded aggregate within the limits exactly
if the compared bytes leave room for the envelope, or wrap when the envelope is added. -/
theorem quota_enforcement (P : Primitives) (usedBytes : UInt64) (writeError : Bool) (t : Tables)
    (ns : Hash32) (blob : BlobData) (limits : StoreLimits) (htomb : isTombstone blob.data = false)
    (hbytes : 0 < limits.quotaByteLimit) (hcount : 0 < limits.quotaCountLimit)
    (hstored : (storeBlob P usedBytes writeError t ns blob limits).2.status = .stored) :
    let after := (storeBlob P usedBytes writeError t ns blob limits).1.getNamespaceQuota ns
    (after.totalBytes ≤ limits.quotaByteLimit ∧ after.blobCount ≤ limits.quotaCountLimit) ↔
      (comparedBytes P t ns blob).toNat + ENVELOPE_OVERHEAD ≤ limits.quotaByteLimit.toNat ∨
        2 ^ 64 ≤ (comparedBytes P t ns blob).toNat + ENVELOPE_OVERHEAD := by
  obtain ⟨htables, hquota⟩ := storeBlob_stored htomb hstored
  simp only [overQuota, gt_iff_lt, hbytes, hcount, decide_true, Bool.true_and, Bool.or_eq_false_iff,
    decide_eq_false_iff_not, UInt64.not_lt] at hquota
  rw [htables]
  dsimp only
  rw [totalBytes_insertBlob htomb, blobCount_insertBlob htomb,
    and_iff_left hquota.2]
  exact add_le_iff (by decide) hquota.1

section Sample

open Wire.Sample Engine

set_option maxRecDepth 20000

/-- The limit that the encoding of the sample blob just fits. -/
def tightLimits : StoreLimits :=
  { quotaByteLimit := UInt64.ofNat (encodeBlob primitives note).length, quotaCountLimit := 1 }

/-- A limit with room for the envelope as well. -/
def roomyLimits : StoreLimits :=
  { quotaByteLimit := UInt64.ofNat (blobSize primitives note), quotaCountLimit := 1 }

theorem quota_enforcement_note :
    (storeBlob primitives 0 false {} (owned 1) note roomyLimits).2.status = .stored ∧
    let after := (storeBlob primitives 0 false {} (owned 1) note roomyLimits).1.getNamespaceQuota
      (owned 1)
    after.totalBytes ≤ roomyLimits.quotaByteLimit ∧
    after.blobCount ≤ roomyLimits.quotaCountLimit := by
  have hstored : (storeBlob primitives 0 false {} (owned 1) note roomyLimits).2.status =
      .stored := by
    decide
  refine ⟨hstored, ?_⟩
  exact (quota_enforcement primitives 0 false {} (owned 1) note roomyLimits (by decide)
    (by decide) (by decide) hstored).mpr (.inl (by decide))

/-- A blob whose encoding fills the quota is stored, and with its envelope exceeds it. -/
theorem quota_exceeded_by_envelope :
    (storeBlob primitives 0 false {} (owned 1) note tightLimits).2.status = .stored ∧
      tightLimits.quotaByteLimit <
        ((storeBlob primitives 0 false {} (owned 1) note tightLimits).1.getNamespaceQuota
          (owned 1)).totalBytes := by
  decide

end Sample

end Storage
