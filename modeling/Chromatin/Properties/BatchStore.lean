import Chromatin.Infra.Cursor
import Chromatin.Properties.Quota
import Chromatin.Properties.SequenceIndex
import Chromatin.Properties.StoreRuns

/-!
# A batch and its blobs one by one

`store_blobs_atomic` looks for duplicates in the tables before the batch, and `store_blob` in those
that the calls before it have left. The two come to the same exactly if no new blob occurs twice in
the batch: the batch stores a second occurrence again, under a number of its own, and counts it
again.

* `secondPass_eq_storeEach` — the rows and results of a batch without repetitions, blob by blob
* `nodup_stored` — one by one, no blob is stored twice
* `batch_store_iff` — the two agree exactly if no new blob is repeated; a refused batch changes
  nothing -/

namespace Storage

open Infra Util Wire

/-- `store_blob` for each blob, in the order of the list and without limits. -/
def storeEach (P : Primitives) (usedBytes : UInt64) : Tables → List PrecomputedBlob →
    Tables × List StoreResult
  | t, [] => (t, [])
  | t, pb :: rest =>
    let (t₁, result) := storeBlob P usedBytes false t pb.targetNamespace pb.blob {}
    let (t₂, results) := storeEach P usedBytes t₁ rest
    (t₂, result :: results)

/-- The blobs that the results call stored. -/
def storedIn (batch : List PrecomputedBlob) (results : List StoreResult) : List PrecomputedBlob :=
  ((batch.zip results).filter fun result => result.2.status = .stored).map Prod.fst

section

variable {P : Primitives} {usedBytes : UInt64} {t : Tables} {ns ns' hash : Hash32} {blob : BlobData}
  {pb : PrecomputedBlob} {before : Tables}

/-! ## One blob -/

/-- Without limits a blob is a duplicate or it is stored. -/
theorem storeBlob_unlimited (usedBytes : UInt64) (t : Tables) (pb : PrecomputedBlob) :
    storeBlob P usedBytes false t pb.targetNamespace pb.blob {} =
      if pb.isDup P t then (t, duplicateResult P t pb)
      else (t.insertBlob P pb.targetNamespace pb.blob,
        { status := .stored, seqNum := t.nextSeqNum pb.targetNamespace,
          blobHash := contentHash P pb.blob }) := by
  cases hdup : pb.isDup P t with
  | true => simp [storeBlob, duplicateResult,
      show t.hasBlob pb.targetNamespace (contentHash P pb.blob) = true from hdup]
  | false =>
    simp [storeBlob, overQuota, show t.hasBlob pb.targetNamespace (contentHash P pb.blob) =
      false from hdup]

theorem storeEach_dup (h : pb.isDup P t = true) (rest : List PrecomputedBlob) :
    storeEach P usedBytes t (pb :: rest) =
      ((storeEach P usedBytes t rest).1,
          duplicateResult P t pb :: (storeEach P usedBytes t rest).2) := by
  rw [storeEach, storeBlob_unlimited, if_pos h]

theorem storeEach_new (h : pb.isDup P t = false) (rest : List PrecomputedBlob) :
    storeEach P usedBytes t (pb :: rest) =
      ((storeEach P usedBytes (t.insertBlob P pb.targetNamespace pb.blob) rest).1,
        { status := .stored, seqNum := t.nextSeqNum pb.targetNamespace,
          blobHash := contentHash P pb.blob } ::
          (storeEach P usedBytes (t.insertBlob P pb.targetNamespace pb.blob) rest).2) := by
  rw [storeEach, storeBlob_unlimited, if_neg (by simp [h])]

/-- The entry of a new blob comes behind the others of its namespace. -/
theorem seqEntries_insertBlob : (t.insertBlob P ns blob).seqEntries ns' =
    if ns = ns' then
      t.seqEntries ns ++
        [(t.nextSeqNum ns, { hash := contentHash P blob, blobType := extractBlobType blob.data })]
    else t.seqEntries ns' := by
  refine Ascending.ext (pairwise_seqEntries _ ns') ?_ ?_
  · split_ifs
    · refine List.pairwise_append.mpr ⟨pairwise_seqEntries t ns, List.pairwise_singleton _ _, ?_⟩
      rintro ⟨n, entry⟩ hmem _ hlast
      rw [List.mem_singleton.mp hlast]
      exact lt_nextSeqNum (mem_seqEntries.mp hmem)
    · exact pairwise_seqEntries t ns'
  · rintro ⟨n, entry⟩
    rw [mem_seqEntries, seq_insertBlob]
    by_cases hns : ns = ns'
    · subst hns
      rw [if_pos rfl, List.mem_append, mem_seqEntries, List.mem_singleton, Prod.mk.injEq]
      by_cases hnext : t.nextSeqNum ns = n
      · subst hnext
        have hfree : get₂ t.seq ns (t.nextSeqNum ns) ≠ some entry :=
          fun hentry => absurd (lt_nextSeqNum hentry) (Nat.lt_irrefl _)
        simp [hfree, eq_comm]
      · simp [hnext, Ne.symm hnext]
    · simp [hns, mem_seqEntries]

/-- Another blob does not change where the first entry of a hash is. -/
theorem findSeq_insertBlob (hne : ¬(ns = ns' ∧ contentHash P blob = hash)) :
    (t.insertBlob P ns blob).findSeq ns' hash = t.findSeq ns' hash := by
  unfold Tables.findSeq
  rw [seqEntries_insertBlob]
  split_ifs with hns
  · subst hns
    have hother : (contentHash P blob == hash) = false :=
      beq_eq_false_iff_ne.mpr fun h => hne ⟨rfl, h⟩
    simp [List.find?_append, hother]
  · rfl

/-! ## The aggregates -/

theorem isSome_foldl_addTo {α : Type} (place : α → Hash32)
    (amount : α → NamespaceQuota) (ns : Hash32) :
    ∀ (items : List α) (sums : Table Hash32 NamespaceQuota),
      (items.foldl (fun sums x => addTo sums (place x) (amount x)) sums)[ns]?.isSome =
        (sums[ns]?.isSome || items.any fun x => place x = ns)
  | [], sums => by simp
  | x :: rest, sums => by
    rw [List.foldl_cons, isSome_foldl_addTo place amount ns rest, List.any_cons, addTo,
      getElem?_insert_eq]
    by_cases hns : place x = ns <;> simp [hns]

/-- Two tables that have the same namespaces and the same amounts. -/
theorem quota_ext {a b : Table Hash32 NamespaceQuota}
    (hsome : ∀ ns : Hash32, a[ns]?.isSome = b[ns]?.isSome)
    (hget : ∀ ns : Hash32, a[ns]?.getD {} = b[ns]?.getD {}) : a = b := by
  refine Std.ExtTreeMap.ext_getElem? fun ns => ?_
  have hs := hsome ns
  have hg := hget ns
  cases ha : a[ns]? <;> cases hb : b[ns]? <;> simp_all

/-- Adding the sums of a batch once is adding its blobs one by one. -/
theorem addIncrements_additions (quota : Table Hash32 NamespaceQuota)
    (batch : List PrecomputedBlob) :
    addIncrements quota (additions (encryptedSize P) batch) =
      (batch.filter fun pb => !isTombstone pb.blob.data).foldl
        (fun sums pb =>
          addTo sums pb.targetNamespace { totalBytes := encryptedSize P pb.blob, blobCount := 1 })
        quota := by
  set counted := batch.filter fun pb => !isTombstone pb.blob.data with hcounted
  have hadditions : additions (encryptedSize P) batch = counted.foldl
      (fun sums pb => addTo sums pb.targetNamespace
        { totalBytes := encryptedSize P pb.blob, blobCount := 1 }) ∅ := rfl
  have hitems (start : Table Hash32 NamespaceQuota) : counted.foldl
      (fun sums pb => addTo sums pb.targetNamespace
        { totalBytes := encryptedSize P pb.blob, blobCount := 1 }) start =
      (counted.map fun pb => (pb.targetNamespace, blobSize P pb.blob, 1)).foldl
        (fun sums item => addTo sums item.1 (quotaOf item.2.1 item.2.2)) start := by
    rw [List.foldl_map]
    rfl
  refine quota_ext (fun ns => ?_) fun ns => ?_
  · have hsums : ((additions (encryptedSize P) batch).toList.any fun e => e.1 = ns) =
        (additions (encryptedSize P) batch)[ns]?.isSome := by
      rw [Bool.eq_iff_iff, any_toList_iff, Option.isSome_iff_exists]
      constructor
      · rintro ⟨ns', increment, hget, hns⟩
        obtain rfl := of_decide_eq_true hns
        exact ⟨increment, hget⟩
      · rintro ⟨increment, hget⟩
        exact ⟨ns, increment, hget, decide_eq_true rfl⟩
    unfold addIncrements
    rw [isSome_foldl_addTo (fun e : Hash32 × NamespaceQuota => e.1) (fun e => e.2),
      hsums, hadditions,
      isSome_foldl_addTo (fun pb : PrecomputedBlob => pb.targetNamespace), isSome_foldl_addTo
        (fun pb : PrecomputedBlob => pb.targetNamespace)]
    simp
  · rw [getD_addIncrements, hadditions, hitems, hitems, getD_foldl_addTo_empty, getD_foldl_addTo]

/-! ## Batches -/

/-- The same rows; the aggregates may differ. -/
def SameRows (a b : Tables) : Prop := { a with quota := b.quota } = b

theorem sameRows_insertBlob {a b : Tables} (h : SameRows a b) (pb : PrecomputedBlob) :
    SameRows (storeRow P a pb) (b.insertBlob P pb.targetNamespace pb.blob) := by
  rw [← show { a with quota := b.quota } = b from h]
  rfl

theorem quota_insertBlob (pb : PrecomputedBlob) :
    (t.insertBlob P pb.targetNamespace pb.blob).quota =
    if isTombstone pb.blob.data then t.quota
    else addTo t.quota pb.targetNamespace
      { totalBytes := encryptedSize P pb.blob, blobCount := 1 } := rfl

theorem freshOf_cons (before : Tables) (pb : PrecomputedBlob) (rest : List PrecomputedBlob) :
    freshOf P before (pb :: rest) =
      if pb.isDup P before then freshOf P before rest else pb :: freshOf P before rest := by
  unfold freshOf
  cases hdup : pb.isDup P before <;> simp [hdup]

/-- What the tables `t` of a sequence of stores have to do with the tables `before` all of them:
what was stored before is where it was, and the blobs that are still to be stored are not there. -/
structure Following (P : Primitives) (before t : Tables) (batch : List PrecomputedBlob) : Prop where
  dup : ∀ pb ∈ batch, pb.isDup P before = true →
    pb.isDup P t = true ∧ duplicateResult P t pb = duplicateResult P before pb
  fresh : ∀ pb ∈ freshOf P before batch, pb.isDup P t = false
  nodup : ((freshOf P before batch).map (PrecomputedBlob.key P)).Nodup

theorem isDup_insertBlob (pb pb' : PrecomputedBlob) :
    pb'.isDup P (t.insertBlob P pb.targetNamespace pb.blob) =
        (decide (pb.key P = pb'.key P) || pb'.isDup P t) := by
  unfold PrecomputedBlob.isDup Tables.hasBlob PrecomputedBlob.key
  rw [getBlob_insertBlob]
  simp only [makeBlobKey_inj]
  split_ifs with h <;> simp [h]

/-- The next blob was there before. -/
theorem Following.skip {rest : List PrecomputedBlob}
    (h : Following P before t (pb :: rest)) (hdup : pb.isDup P before = true) :
    Following P before t rest where
  dup pb' hmem := h.dup pb' (List.mem_cons_of_mem _ hmem)
  fresh := by
    have hfresh := h.fresh
    rwa [freshOf_cons, if_pos hdup] at hfresh
  nodup := by
    have hnodup := h.nodup
    rwa [freshOf_cons, if_pos hdup] at hnodup

/-- The next blob is new and has been stored. -/
theorem Following.store {rest : List PrecomputedBlob}
    (h : Following P before t (pb :: rest)) (hnew : pb.isDup P before = false) :
    Following P before (t.insertBlob P pb.targetNamespace pb.blob) rest := by
  have hfresh := h.fresh
  have hnodup := h.nodup
  rw [freshOf_cons, if_neg (by simp [hnew])] at hfresh hnodup
  rw [List.map_cons, List.nodup_cons] at hnodup
  refine ⟨fun pb' hmem hdup => ?_, fun pb' hmem => ?_, hnodup.2⟩
  · have hne : pb.key P ≠ pb'.key P := fun heq => by
      unfold PrecomputedBlob.key at heq
      obtain ⟨hns, hhash⟩ := makeBlobKey_inj.mp heq
      unfold PrecomputedBlob.isDup at hdup hnew
      rw [hns, hhash, hdup] at hnew
      exact absurd hnew (by simp)
    obtain ⟨hstored, hresult⟩ := h.dup pb' (List.mem_cons_of_mem _ hmem) hdup
    refine ⟨by rw [isDup_insertBlob, hstored, Bool.or_true], ?_⟩
    rw [← hresult]
    simp only [duplicateResult, findSeq_insertBlob fun heq => hne (makeBlobKey_inj.mpr heq)]
  · have hne : pb.key P ≠ pb'.key P := fun heq => hnodup.1 (heq ▸ List.mem_map_of_mem hmem)
    rw [isDup_insertBlob, decide_eq_false hne, hfresh pb' (List.mem_cons_of_mem _ hmem),
      Bool.or_false]

/-- The second pass of a batch in which no new blob is repeated stores them one by one, but for the
aggregates. -/
theorem secondPass_eq_storeEach (usedBytes : UInt64) :
    ∀ {batch : List PrecomputedBlob} {t t' : Tables},
    SameRows t t' → Following P before t' batch →
    (secondPass P before t batch).2 = (storeEach P usedBytes t' batch).2 ∧
    SameRows (secondPass P before t batch).1 (storeEach P usedBytes t' batch).1 ∧
    (storeEach P usedBytes t' batch).1.quota =
      ((freshOf P before batch).filter fun pb => !isTombstone pb.blob.data).foldl
        (fun sums pb =>
          addTo sums pb.targetNamespace { totalBytes := encryptedSize P pb.blob, blobCount := 1 })
        t'.quota
  | [], _, _, hrows, _ => ⟨rfl, hrows, rfl⟩
  | pb :: rest, t, t', hrows, h => by
    unfold secondPass
    rw [freshOf_cons]
    cases hdup : pb.isDup P before with
    | true =>
      obtain ⟨hstored, hresult⟩ := h.dup pb List.mem_cons_self hdup
      obtain ⟨hresults, hrows', hquota⟩ := secondPass_eq_storeEach usedBytes hrows (h.skip hdup)
      rw [storeEach_dup hstored]
      exact ⟨congrArg₂ List.cons hresult.symm hresults, hrows', hquota⟩
    | false =>
      have hnew : pb.isDup P t' = false := h.fresh pb (by simp [freshOf_cons, hdup])
      obtain ⟨hresults, hrows', hquota⟩ :=
        secondPass_eq_storeEach usedBytes (sameRows_insertBlob hrows pb) (h.store hdup)
      have hnext : t.nextSeqNum pb.targetNamespace = t'.nextSeqNum pb.targetNamespace := by
        rw [← show { t with quota := t'.quota } = t' from hrows]
        rfl
      rw [storeEach_new hnew]
      refine ⟨congrArg₂ List.cons (by rw [hnext]) hresults, hrows', hquota.trans ?_⟩
      rw [quota_insertBlob]
      cases htomb : isTombstone pb.blob.data <;> simp [htomb]

theorem storedIn_cons (pb : PrecomputedBlob) (rest : List PrecomputedBlob) (r : StoreResult)
    (results : List StoreResult) : storedIn (pb :: rest) (r :: results) =
      if r.status = .stored then pb :: storedIn rest results else storedIn rest results := by
  unfold storedIn
  rw [List.zip_cons_cons, List.filter_cons]
  split_ifs <;> simp_all

/-- One by one, the blobs that are stored are new, and no two of them are the same. -/
theorem nodup_stored : ∀ (batch : List PrecomputedBlob) (t : Tables),
    ((storedIn batch (storeEach P usedBytes t batch).2).map (PrecomputedBlob.key P)).Nodup ∧
    ∀ pb ∈ storedIn batch (storeEach P usedBytes t batch).2, pb.isDup P t = false
  | [], _ => by simp [storedIn, storeEach]
  | pb :: rest, t => by
    cases hdup : pb.isDup P t with
    | true =>
      rw [storeEach_dup hdup, storedIn_cons, if_neg (by simp [duplicateResult])]
      exact nodup_stored rest t
    | false =>
      obtain ⟨hnodup, hnew⟩ := nodup_stored rest (t.insertBlob P pb.targetNamespace pb.blob)
      rw [storeEach_new hdup, storedIn_cons, if_pos rfl, List.map_cons, List.nodup_cons]
      refine ⟨⟨fun hmem => ?_, hnodup⟩, fun pb' hmem => ?_⟩
      · obtain ⟨pb', hmem', hkey⟩ := List.mem_map.mp hmem
        have habsent := hnew pb' hmem'
        rw [isDup_insertBlob, decide_eq_true hkey.symm] at habsent
        exact absurd habsent (by simp)
      · rcases List.mem_cons.mp hmem with rfl | hmem'
        · exact hdup
        · have habsent := hnew pb' hmem'
          rw [isDup_insertBlob, Bool.or_eq_false_iff] at habsent
          exact habsent.2

/-- What a batch stores is what was not there before it. -/
theorem storedIn_secondPass (before : Tables) (batch : List PrecomputedBlob) (t : Tables) :
    storedIn batch (secondPass P before t batch).2 = freshOf P before batch := by
  unfold storedIn
  rw [(secondPass_spec before batch t).2, map_fst_numbered]
  rfl

theorem secondPass_of_freshOf_nil (before : Tables) : ∀ {batch : List PrecomputedBlob} (t : Tables),
    freshOf P before batch = [] → secondPass P before t batch = (t, firstPass P before batch)
  | [], _, _ => rfl
  | pb :: rest, t, hnone => by
    rw [freshOf_cons] at hnone
    cases hdup : pb.isDup P before with
    | true =>
      rw [hdup, if_pos rfl] at hnone
      have hfirst : firstPass P before (pb :: rest) =
          duplicateResult P before pb :: firstPass P before rest := by
        rw [firstPass, List.map_cons, if_pos hdup]
        rfl
      rw [secondPass, if_pos hdup, secondPass_of_freshOf_nil before t hnone, hfirst]
    | false => exact absurd hnone (by simp [hdup])

/-- A batch without limits runs its second pass and adds up the aggregates once. -/
theorem storeBlobsAtomic_unlimited (usedBytes : UInt64) (t : Tables)
    (batch : List PrecomputedBlob) :
    storeBlobsAtomic P usedBytes false t batch {} =
      ({ (secondPass P t t batch).1 with
          quota := addIncrements t.quota (additions (encryptedSize P) (freshOf P t batch)) },
        (secondPass P t t batch).2) := by
  by_cases hnone : freshOf P t batch = []
  · have hquota : addIncrements t.quota (additions (encryptedSize P) []) = t.quota := by
      rw [addIncrements_additions]
      rfl
    rw [secondPass_of_freshOf_nil t t hnone, hnone, hquota]
    unfold storeBlobsAtomic
    dsimp only
    rw [show (batch.filter fun pb => !pb.isDup P t) = [] from hnone]
    cases batch <;> rfl
  · have hbatch : batch.isEmpty = false := by
      cases batch with
      | nil => exact absurd rfl hnone
      | cons => rfl
    have hfresh : (batch.filter fun pb => !pb.isDup P t).isEmpty = false := by
      rwa [List.isEmpty_eq_false_iff]
    have hunder : batchOverQuota t (additions (fun blob => UInt64.ofNat (encodeBlob P blob).length)
        (batch.filter fun pb => !pb.isDup P t)) {} = false := by
      simp [batchOverQuota]
    unfold storeBlobsAtomic
    dsimp only
    rw [hbatch, hfresh, hunder, if_neg (by simp), if_neg (by simp), if_neg (by simp),
      if_neg (by simp), if_neg (by simp), quota_secondPass]
    rfl

theorem status_secondPass (before : Tables) : ∀ (batch : List PrecomputedBlob) (t : Tables),
    ∀ r ∈ (secondPass P before t batch).2, r.status = .stored ∨ r.status = .duplicate
  | [], _ => by simp [secondPass]
  | pb :: rest, t => by
    unfold secondPass
    split_ifs
    · exact List.forall_mem_cons.mpr ⟨.inr rfl, status_secondPass before rest t⟩
    · exact List.forall_mem_cons.mpr ⟨.inl rfl, status_secondPass before rest _⟩

end

/-- Without limits a batch leaves and returns what its blobs one by one do exactly if no blob that
was not stored before occurs twice in it. Whatever the limits, a batch of which a result is a
refusal or an error changes nothing. -/
theorem batch_store_iff (P : Primitives) (t : Tables) (batch : List PrecomputedBlob) :
    (∀ usedBytes, storeBlobsAtomic P usedBytes false t batch {} = storeEach P usedBytes t batch ↔
      ((freshOf P t batch).map (PrecomputedBlob.key P)).Nodup) ∧
    ∀ usedBytes writeError limits,
      (∃ r ∈ (storeBlobsAtomic P usedBytes writeError t batch limits).2,
        r.status = .capacityExceeded ∨ r.status = .quotaExceeded ∨ r.status = .error) →
      (storeBlobsAtomic P usedBytes writeError t batch limits).1 = t := by
  refine ⟨fun usedBytes => ⟨fun heq => ?_, fun hnodup => ?_⟩, fun usedBytes writeError limits => ?_⟩
  · have hresults : (secondPass P t t batch).2 = (storeEach P usedBytes t batch).2 := by
      rw [← heq, storeBlobsAtomic_unlimited]
    rw [← storedIn_secondPass t batch t, hresults]
    exact (nodup_stored batch t).1
  · have hfollowing : Following P t t batch :=
      ⟨fun _ _ hdup => ⟨hdup, rfl⟩,
        fun pb hmem => by simpa using (List.mem_filter.mp hmem).2, hnodup⟩
    obtain ⟨hresults, hrows, hquota⟩ := secondPass_eq_storeEach usedBytes (Eq.refl t) hfollowing
    rw [storeBlobsAtomic_unlimited, addIncrements_additions, ← hquota, hresults]
    exact Prod.ext hrows rfl
  · rintro ⟨r, hr, hstatus⟩
    rcases storeBlobsAtomic_results (P := P) usedBytes writeError t batch limits with
      ⟨_, -, heq⟩ | ⟨_, heq⟩
    · rw [heq]
    · rw [heq] at hr
      rcases status_secondPass t batch t r hr with h | h <;> rw [h] at hstatus <;> simp at hstatus

section Sample

open Wire.Sample

set_option maxRecDepth 20000

/-- Blobs that differ in their time. -/
def dated (timestamps : List UInt64) : List PrecomputedBlob :=
  timestamps.map fun timestamp =>
    ⟨owned 1, signed (key 1) (owned 1) (owned 1) [1, 2, 3] 0 timestamp⟩

/-- Two blobs at once, as one by one; a limit of one refuses both. -/
theorem batch_store_dated :
    storeBlobsAtomic primitives 0 false {} (dated [3000000, 3000001]) {} =
      storeEach primitives 0 {} (dated [3000000, 3000001]) ∧
    (storeBlobsAtomic primitives 0 false {} (dated [3000000, 3000001]) { quotaCountLimit := 1 }).1 =
        {} := by
  refine ⟨((batch_store_iff primitives {} _).1 0).mpr (by decide),
    (batch_store_iff primitives {} _).2 0 false _ ?_⟩
  decide

/-- A blob that is twice in a batch gets two numbers and counts twice; one by one it is a duplicate.
-/
theorem batch_store_repeats :
    let batch := dated [3000000, 3000000]
    let once := storeEach primitives 0 {} batch
    let atOnce := storeBlobsAtomic primitives 0 false {} batch {}
    once.2.map (fun r => (r.status, r.seqNum)) = [(.stored, 1), (.duplicate, 1)] ∧
    atOnce.2.map (fun r => (r.status, r.seqNum)) = [(.stored, 1), (.stored, 2)] ∧
    (once.1.getNamespaceQuota (owned 1)).blobCount = 1 ∧
    (atOnce.1.getNamespaceQuota (owned 1)).blobCount = 2 ∧
    (once.1.seqEntries (owned 1)).length = 1 ∧ (atOnce.1.seqEntries (owned 1)).length = 2 := by
  decide

end Sample

end Storage
