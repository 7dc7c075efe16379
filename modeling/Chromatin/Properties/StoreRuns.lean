import Chromatin.Properties.SequenceIndex
import Chromatin.Storage.Maintenance
import Chromatin.Wire.Sample

/-!
# Runs of the storage operations, and their sequence numbers

`StoreOp.stored` are the results of an operation with status `stored`. Up to the quota aggregates
an operation is the row writes for those blobs, one after the other, or a deletion, or an expiry
scan (`StoreOp.step_cases`); what is said of runs below comes from that.

A namespace's next sequence number goes up by one with every stored blob and by nothing else
(`nextSeqNum_step`): a deleted blob leaves a sentinel, an expired one its entry.
-/

namespace Storage

open Infra Util Wire

/-! ## What an operation writes -/

section

variable (P : Primitives)

/-- The blobs an operation was given, with the results it returns. -/
def StoreOp.results (t : Tables) : StoreOp → List (PrecomputedBlob × StoreResult)
  | .storeBlob usedBytes writeError ns blob limits =>
    [({ targetNamespace := ns, blob },
      (Storage.storeBlob P usedBytes writeError t ns blob limits).2)]
  | .storeBlobsAtomic usedBytes writeError batch limits =>
    batch.zip (Storage.storeBlobsAtomic P usedBytes writeError t batch limits).2
  | _ => []

/-- The results with status `stored`. -/
def StoreOp.stored (t : Tables) (op : StoreOp) : List (PrecomputedBlob × StoreResult) :=
  (op.results P t).filter fun result => result.2.status = .stored

/-- The blobs that were stored. -/
def StoreOp.writes (t : Tables) (op : StoreOp) : List PrecomputedBlob :=
  (op.stored P t).map Prod.fst

/-- The row writes for some blobs, one after the other. -/
def storeRows (t : Tables) (batch : List PrecomputedBlob) : Tables := batch.foldl (storeRow P) t

/-- The results of these writes, if every blob gets the number that a search finds. -/
def numbered (search : Tables → Hash32 → Nat) :
    Tables → List PrecomputedBlob → List (PrecomputedBlob × StoreResult)
  | _, [] => []
  | t, pb :: rest =>
    (pb, { status := .stored, seqNum := search t pb.targetNamespace
           blobHash := contentHash P pb.blob }) ::
      numbered search (storeRow P t pb) rest

end

variable {P : Primitives} {t : Tables} {ns : Hash32} {n : Nat}

theorem map_fst_numbered : ∀ (batch : List PrecomputedBlob) (t : Tables),
    (numbered P Tables.nextSeqNum t batch).map Prod.fst = batch
  | [], _ => rfl
  | pb :: rest, t => by rw [numbered, List.map_cons, map_fst_numbered rest]

/-- The second pass of a batch writes the rows of its new blobs. -/
theorem secondPass_spec (before : Tables) : ∀ (batch : List PrecomputedBlob) (t : Tables),
    (secondPass P before t batch).1 = storeRows P t (batch.filter fun pb => !pb.isDup P before) ∧
    (batch.zip (secondPass P before t batch).2).filter (fun result => result.2.status = .stored) =
      numbered P Tables.nextSeqNum t (batch.filter fun pb => !pb.isDup P before)
  | [], _ => ⟨rfl, rfl⟩
  | pb :: rest, t => by
    unfold secondPass
    by_cases hdup : pb.isDup P before = true
    · obtain ⟨htables, hresults⟩ := secondPass_spec before rest t
      rw [if_pos hdup, List.filter_cons_of_neg (by simp [hdup])]
      refine ⟨htables, ?_⟩
      rw [List.zip_cons_cons, List.filter_cons_of_neg (by simp [duplicateResult])]
      exact hresults
    · obtain ⟨htables, hresults⟩ := secondPass_spec before rest (storeRow P t pb)
      rw [if_neg hdup, List.filter_cons_of_pos (by simp [hdup])]
      refine ⟨htables, ?_⟩
      rw [List.zip_cons_cons, List.filter_cons_of_pos (by simp), numbered]
      exact congrArg _ hresults

/-- Storing, up to the aggregates: the new rows, and their results. -/
structure Stores (P : Primitives) (t : Tables) (op : StoreOp) : Prop where
  stored : op.stored P t = numbered P Tables.nextSeqNum t (op.writes P t)
  fresh : ∀ pb ∈ op.writes P t, t.getBlob pb.targetNamespace (contentHash P pb.blob) = none
  tables : ∃ quota, op.step P t = { storeRows P t (op.writes P t) with quota }

theorem Stores.nothing {op : StoreOp} (hstored : op.stored P t = [])
    (htables : ∃ quota, op.step P t = { t with quota }) : Stores P t op := by
  have hwrites : op.writes P t = [] := by rw [StoreOp.writes, hstored, List.map_nil]
  refine ⟨?_, ?_, ?_⟩
  · rw [hstored, hwrites]
    rfl
  · rw [hwrites]
    intro pb hpb
    exact absurd hpb List.not_mem_nil
  · rw [hwrites]
    exact htables

theorem stores_storeBlob (usedBytes : UInt64) (writeError : Bool) (t : Tables) (ns : Hash32)
    (blob : BlobData) (limits : StoreLimits) :
    Stores P t (.storeBlob usedBytes writeError ns blob limits) := by
  rcases storeBlob_cases (P := P) usedBytes writeError t ns blob limits with
    ⟨hsame, hstatus⟩ | ⟨habsent, hinsert⟩
  · refine .nothing ?_ ⟨t.quota, hsame⟩
    rw [StoreOp.stored, StoreOp.results, List.filter_cons_of_neg (by simpa using hstatus)]
    rfl
  · have hstored : (StoreOp.storeBlob usedBytes writeError ns blob limits).stored P t =
        numbered P Tables.nextSeqNum t [{ targetNamespace := ns, blob }] := by
      rw [StoreOp.stored, StoreOp.results, hinsert, List.filter_cons_of_pos (by simp)]
      rfl
    have hwrites : (StoreOp.storeBlob usedBytes writeError ns blob limits).writes P t =
        [{ targetNamespace := ns, blob }] := by
      rw [StoreOp.writes, hstored, map_fst_numbered]
    refine ⟨hstored.trans (by rw [hwrites]), ?_, ?_⟩
    · rw [hwrites]
      intro pb hpb
      rw [List.mem_singleton.mp hpb]
      exact habsent
    · rw [hwrites]
      exact ⟨(t.insertBlob P ns blob).quota, congrArg Prod.fst hinsert⟩

/-- What a batch returns: no blob is stored, or those of the second pass are. -/
theorem storeBlobsAtomic_results (usedBytes : UInt64) (writeError : Bool) (t : Tables)
    (batch : List PrecomputedBlob) (limits : StoreLimits) :
    (∃ results, (∀ r ∈ results, r.status ≠ .stored) ∧
      storeBlobsAtomic P usedBytes writeError t batch limits = (t, results)) ∨
    ∃ quota, storeBlobsAtomic P usedBytes writeError t batch limits =
      ({ (secondPass P t t batch).1 with quota }, (secondPass P t t batch).2) := by
  have hrefuse (status : StoreStatus) (hne : status ≠ .stored) :
      ∀ r ∈ (firstPass P t batch).map ({ · with status := status }), r.status ≠ .stored := by
    intro r hr
    obtain ⟨_, -, rfl⟩ := List.mem_map.mp hr
    exact hne
  have hfirst : ∀ r ∈ firstPass P t batch, r.status ≠ .stored := by
    intro r hr
    obtain ⟨pb, -, rfl⟩ := List.mem_map.mp hr
    split_ifs
    · simp [duplicateResult]
    · simp
  unfold storeBlobsAtomic
  dsimp only
  split_ifs
  · exact .inl ⟨[], by simp, rfl⟩
  · exact .inl ⟨_, hrefuse _ (by simp), rfl⟩
  · exact .inl ⟨_, hfirst, rfl⟩
  · exact .inl ⟨_, hrefuse _ (by simp), rfl⟩
  · exact .inl ⟨_, hrefuse _ (by simp), rfl⟩
  · exact .inr ⟨_, rfl⟩

theorem stores_storeBlobsAtomic (usedBytes : UInt64) (writeError : Bool) (t : Tables)
    (batch : List PrecomputedBlob) (limits : StoreLimits) :
    Stores P t (.storeBlobsAtomic usedBytes writeError batch limits) := by
  rcases storeBlobsAtomic_results (P := P) usedBytes writeError t batch limits with
    ⟨results, hresults, heq⟩ | ⟨quota, heq⟩
  · refine .nothing ?_ ⟨t.quota, by rw [StoreOp.step, heq]⟩
    rw [StoreOp.stored, StoreOp.results, heq, List.filter_eq_nil_iff]
    rintro ⟨pb, r⟩ hmem
    simpa using hresults r (List.of_mem_zip hmem).2
  · obtain ⟨htables, hnumbered⟩ := secondPass_spec (P := P) t batch t
    have hstored : (StoreOp.storeBlobsAtomic usedBytes writeError batch limits).stored P t =
        numbered P Tables.nextSeqNum t (batch.filter fun pb => !pb.isDup P t) := by
      rw [StoreOp.stored, StoreOp.results, heq]
      exact hnumbered
    have hwrites : (StoreOp.storeBlobsAtomic usedBytes writeError batch limits).writes P t =
        batch.filter fun pb => !pb.isDup P t := by
      rw [StoreOp.writes, hstored, map_fst_numbered]
    refine ⟨hstored.trans (by rw [hwrites]), ?_, ?_⟩
    · rw [hwrites]
      intro pb hpb
      have hdup := (List.mem_filter.mp hpb).2
      rwa [PrecomputedBlob.isDup, Tables.hasBlob, Bool.not_eq_true', Option.isSome_eq_false_iff,
        Option.isNone_iff_eq_none] at hdup
    · rw [hwrites, ← htables]
      exact ⟨quota, congrArg Prod.fst heq⟩

/-- What an operation can do. -/
theorem StoreOp.step_cases (t : Tables) (op : StoreOp) :
    Stores P t op ∨ (∃ ns hash, op = .deleteBlobData ns hash) ∨ ∃ now, op = .runExpiryScan now := by
  cases op with
  | storeBlob usedBytes writeError ns blob limits => exact .inl (stores_storeBlob ..)
  | storeBlobsAtomic usedBytes writeError batch limits => exact .inl (stores_storeBlobsAtomic ..)
  | deleteBlobData ns hash => exact .inr (.inl ⟨ns, hash, rfl⟩)
  | runExpiryScan now => exact .inr (.inr ⟨now, rfl⟩)
  | reopen => exact .inl (.nothing rfl ⟨_, rfl⟩)

/-! ## The next number -/

/-- The next number is the least one above zero and above all numbers in use. -/
theorem nextSeqNum_le_iff {k : Nat} : t.nextSeqNum ns ≤ k ↔
    1 ≤ k ∧ ∀ n, (get₂ t.seq ns n).isSome = true → n < k := by
  constructor
  · intro hle
    constructor
    · refine Nat.le_trans ?_ hle
      unfold Tables.nextSeqNum
      split <;> omega
    · intro n hn
      obtain ⟨entry, hentry⟩ := Option.isSome_iff_exists.mp hn
      exact Nat.lt_of_lt_of_le (lt_nextSeqNum hentry) hle
  · rintro ⟨hone, hall⟩
    unfold Tables.nextSeqNum
    cases hlast : (t.seqEntries ns).getLast? with
    | none => exact hone
    | some last =>
      obtain ⟨n, entry⟩ := last
      have hentry := mem_seqEntries.mp (List.mem_of_getLast? hlast)
      exact hall n (by rw [hentry]; rfl)

/-- The next number only depends on which numbers are in use. -/
theorem nextSeqNum_congr {t' : Tables}
    (h : ∀ n, (get₂ t'.seq ns n).isSome = (get₂ t.seq ns n).isSome) :
    t'.nextSeqNum ns = t.nextSeqNum ns := by
  refine eq_of_forall_ge_iff fun k => ?_
  rw [nextSeqNum_le_iff, nextSeqNum_le_iff]
  simp only [h]

theorem nextSeqNum_insertBlob {ns' : Hash32} {blob : BlobData} :
    (t.insertBlob P ns blob).nextSeqNum ns' =
      if ns = ns' then t.nextSeqNum ns' + 1 else t.nextSeqNum ns' := by
  split_ifs with hns
  · subst hns
    refine eq_of_forall_ge_iff fun k => ?_
    rw [nextSeqNum_le_iff]
    constructor
    · rintro ⟨-, hall⟩
      exact hall _ (by rw [seq_insertBlob, if_pos ⟨rfl, rfl⟩]; rfl)
    · intro hlt
      have hle : t.nextSeqNum ns ≤ k := Nat.le_of_succ_le hlt
      refine ⟨(nextSeqNum_le_iff.mp hle).1, fun n hn => ?_⟩
      rw [seq_insertBlob] at hn
      split_ifs at hn with hnew
      · rw [← hnew.2]
        exact hlt
      · exact (nextSeqNum_le_iff.mp hle).2 n hn
  · refine nextSeqNum_congr fun n => ?_
    rw [seq_insertBlob, if_neg fun h => hns h.1]

theorem nextSeqNum_storeRow {pb : PrecomputedBlob} : (storeRow P t pb).nextSeqNum ns =
    if pb.targetNamespace = ns then t.nextSeqNum ns + 1 else t.nextSeqNum ns := by
  change (t.insertBlob P pb.targetNamespace pb.blob).nextSeqNum ns = _
  exact nextSeqNum_insertBlob

/-- A deleted blob leaves a sentinel under its number. -/
theorem used_deleteBlobData {hash ns' : Hash32} :
    (get₂ (deleteBlobData P t ns hash).1.seq ns' n).isSome = (get₂ t.seq ns' n).isSome := by
  unfold deleteBlobData
  cases t.getBlob ns hash with
  | none => rfl
  | some blob =>
    dsimp only
    rw [seq_removeBlob]
    split_ifs with hsentinel
    · obtain ⟨rfl, hfind⟩ := hsentinel
      obtain ⟨entry, hentry, -⟩ := findSeq_eq_some hfind
      rw [hentry]
      rfl
    · rfl

/-- An expiry scan does not touch the sequence map. -/
theorem seq_runExpiryScan (t : Tables) (now : UInt64) : (runExpiryScan P t now).1.seq = t.seq := by
  refine runExpiryScan_preserves (motive := fun t' => t'.seq = t.seq) now (fun t' entry h => ?_) rfl
  unfold expireEntry
  cases t'.getBlob entry.ns entry.hash with
  | none => exact h
  | some blob => exact h

/-! ## The numbers of a run -/

/-- The sequence numbers of some results in a namespace. -/
def numbersIn (ns : Hash32) (results : List (PrecomputedBlob × StoreResult)) : List Nat :=
  (results.filter fun result => result.1.targetNamespace = ns).map fun result => result.2.seqNum

@[simp] theorem numbersIn_append (ns : Hash32) (a b : List (PrecomputedBlob × StoreResult)) :
    numbersIn ns (a ++ b) = numbersIn ns a ++ numbersIn ns b := by
  simp [numbersIn]

/-- The results with status `stored` of all operations of a run. -/
def assigned (P : Primitives) : Tables → List StoreOp → List (PrecomputedBlob × StoreResult)
  | _, [] => []
  | t, op :: rest => op.stored P t ++ assigned P (op.step P t) rest

/-- Some writes use the numbers from the next one on. -/
theorem numbersIn_numbered (ns : Hash32) : ∀ (batch : List PrecomputedBlob) (t : Tables),
    let numbers := numbersIn ns (numbered P Tables.nextSeqNum t batch)
    numbers = List.range' (t.nextSeqNum ns) numbers.length ∧
    (storeRows P t batch).nextSeqNum ns = t.nextSeqNum ns + numbers.length
  | [], _ => ⟨rfl, rfl⟩
  | pb :: rest, t => by
    obtain ⟨hnumbers, hnext⟩ := numbersIn_numbered ns rest (storeRow P t pb)
    rw [nextSeqNum_storeRow] at hnumbers hnext
    change _ ∧ (storeRows P (storeRow P t pb) rest).nextSeqNum ns = _
    rw [hnext, numbered]
    by_cases hns : pb.targetNamespace = ns
    · have hcons : ∀ results r, numbersIn ns ((pb, r) :: results) =
        r.seqNum :: numbersIn ns results := by
        intro results r
        simp [numbersIn, hns]
      rw [hcons, List.length_cons, List.range'_succ, if_pos hns, hns]
      rw [if_pos hns] at hnumbers
      exact ⟨congrArg _ hnumbers, by omega⟩
    · have hcons : ∀ results r, numbersIn ns ((pb, r) :: results) = numbersIn ns results := by
        intro results r
        simp [numbersIn, hns]
      rw [hcons, if_neg hns]
      rw [if_neg hns] at hnumbers
      exact ⟨hnumbers, rfl⟩

/-- **A step of the numbering.** An operation assigns the next numbers in order, and the next number
goes up by their count. -/
theorem nextSeqNum_step (ns : Hash32) (t : Tables) (op : StoreOp) :
    let numbers := numbersIn ns (op.stored P t)
    numbers = List.range' (t.nextSeqNum ns) numbers.length ∧
    (op.step P t).nextSeqNum ns = t.nextSeqNum ns + numbers.length := by
  rcases op.step_cases (P := P) t with hstores | ⟨ns', hash, rfl⟩ | ⟨now, rfl⟩
  · obtain ⟨quota, htables⟩ := hstores.tables
    rw [hstores.stored, htables]
    exact numbersIn_numbered ns (op.writes P t) t
  · exact ⟨rfl, nextSeqNum_congr fun n => used_deleteBlobData⟩
  · refine ⟨rfl, nextSeqNum_congr fun n => ?_⟩
    rw [StoreOp.step, seq_runExpiryScan]

/-- Over a run the numbers of a namespace are consecutive. -/
theorem nextSeqNum_run (ns : Hash32) : ∀ (ops : List StoreOp) (t : Tables),
    let numbers := numbersIn ns (assigned P t ops)
    numbers = List.range' (t.nextSeqNum ns) numbers.length ∧
    (run (StoreOp.step P) t ops).nextSeqNum ns = t.nextSeqNum ns + numbers.length
  | [], _ => ⟨rfl, rfl⟩
  | op :: rest, t => by
    obtain ⟨hstep, hnext⟩ := nextSeqNum_step (P := P) ns t op
    obtain ⟨hrest, hrun⟩ := nextSeqNum_run ns rest (op.step P t)
    rw [hnext] at hrest hrun
    intro numbers
    have happend : numbers =
      numbersIn ns (op.stored P t) ++ numbersIn ns (assigned P (op.step P t) rest) :=
      numbersIn_append ns _ _
    have hlength : numbers.length = (numbersIn ns (op.stored P t)).length +
        (numbersIn ns (assigned P (op.step P t) rest)).length := by
      rw [happend, List.length_append]
    constructor
    · rw [hlength, ← List.range'_append_1, ← hstep, ← hrest]
      exact happend
    · rw [run_cons, hrun, hlength, Nat.add_assoc]

/-- A number that is in use stays in use. -/
theorem used_step (op : StoreOp) (h : (get₂ t.seq ns n).isSome = true) :
    (get₂ (op.step P t).seq ns n).isSome = true := by
  rcases op.step_cases (P := P) t with hstores | ⟨ns', hash, rfl⟩ | ⟨now, rfl⟩
  · obtain ⟨quota, htables⟩ := hstores.tables
    rw [htables]
    change (get₂ (storeRows P t (op.writes P t)).seq ns n).isSome = true
    refine List.foldlRecOn (motive := fun t' : Tables => (get₂ t'.seq ns n).isSome = true) _ _ h ?_
    intro t' ht' pb _
    change (get₂ (t'.insertBlob P pb.targetNamespace pb.blob).seq ns n).isSome = true
    rw [seq_insertBlob]
    split_ifs
    · rfl
    · exact ht'
  · exact used_deleteBlobData.trans h
  · rw [StoreOp.step, seq_runExpiryScan]
    exact h

theorem used_run (ops : List StoreOp) (h : (get₂ t.seq ns n).isSome = true) :
    (get₂ (run (StoreOp.step P) t ops).seq ns n).isSome = true := by
  induction ops generalizing t with
  | nil => exact h
  | cons op rest ih => exact ih (used_step op h)

/-! ## The searches of a run -/

theorem fits_of_nextSeqNum (h : ∀ ns, t.nextSeqNum ns ≤ UINT64_MAX) : SeqMap.Fits t := by
  intro ns n hn
  exact (nextSeqNum_le_iff.mp (h ns)).2 n hn

/-- Some writes get the numbers that the cursor finds, as long as these fit. -/
theorem numbered_search : ∀ (batch : List PrecomputedBlob) (t : Tables),
    (∀ ns, (storeRows P t batch).nextSeqNum ns ≤ UINT64_MAX) →
    numbered P SeqMap.nextSeqNum t batch = numbered P Tables.nextSeqNum t batch
  | [], _, _ => rfl
  | pb :: rest, t, h => by
    have hfits : ∀ ns, t.nextSeqNum ns ≤ UINT64_MAX := by
      intro ns
      have hnext := (numbersIn_numbered (P := P) ns (pb :: rest) t).2
      have hle := h ns
      omega
    rw [numbered, numbered, SeqMap.nextSeqNum_eq (fits_of_nextSeqNum hfits),
      numbered_search rest _ h]

/-- A namespace that is listed has an entry, and the number reported is the last one assigned. -/
theorem mem_listNamespaces (h : SeqMap.Fits t) {info : NamespaceInfo} :
    info ∈ SeqMap.listNamespaces t ↔ (∃ n, (get₂ t.seq info.namespaceId n).isSome = true) ∧
      info.latestSeqNum + 1 = t.nextSeqNum info.namespaceId := by
  rw [(SeqMap.listNamespaces_spec t).2 info, SeqMap.latest_keys h]
  refine and_congr_right fun hused => ?_
  obtain ⟨n, hn⟩ := hused
  obtain ⟨entry, hentry⟩ := Option.isSome_iff_exists.mp hn
  unfold Tables.nextSeqNum
  cases hlast : (t.seqEntries info.namespaceId).getLast? with
  | none =>
    have hmem := mem_seqEntries.mpr hentry
    rw [List.getLast?_eq_none_iff.mp hlast] at hmem
    exact absurd hmem List.not_mem_nil
  | some last =>
    change info.latestSeqNum = last.1 ↔ info.latestSeqNum + 1 = last.1 + 1
    omega

/-- What an operation stores gets the numbers that the cursor finds. -/
theorem stored_search (op : StoreOp) (h : ∀ ns, (op.step P t).nextSeqNum ns ≤ UINT64_MAX) :
    op.stored P t = numbered P SeqMap.nextSeqNum t (op.writes P t) := by
  rcases op.step_cases (P := P) t with hstores | ⟨ns', hash, rfl⟩ | ⟨now, rfl⟩
  · obtain ⟨quota, htables⟩ := hstores.tables
    rw [htables] at h
    rw [hstores.stored]
    exact (numbered_search (op.writes P t) t h).symm
  · rfl
  · rfl

theorem assigned_append : ∀ (before after : List StoreOp) (t : Tables),
    assigned P t (before ++ after) =
      assigned P t before ++ assigned P (run (StoreOp.step P) t before) after
  | [], _, _ => rfl
  | op :: before, after, t => by
    rw [List.cons_append, assigned, assigned, assigned_append before after,
      List.append_assoc, run_cons]

/-- **Sequence numbers never recycle.** If a run stores fewer than `2 ^ 64 - 1` blobs per namespace,
the numbers it assigns in a namespace ascend, they are those that the search of `next_seq_num`
finds, and `list_namespaces` keeps every namespace it listed, with a number that does not fall. -/
theorem sequence_numbers (P : Primitives) (ops : List StoreOp)
    (hstores : ∀ ns, (numbersIn ns (assigned P {} ops)).length < 2 ^ 64 - 1) :
    (∀ ns, (numbersIn ns (assigned P {} ops)).Pairwise (· < ·)) ∧
    AllSteps (StoreOp.step P) (fun t op =>
      op.stored P t = numbered P SeqMap.nextSeqNum t (op.writes P t))
      {} ops ∧
    ∀ before after, ops = before ++ after →
      ∀ info ∈ SeqMap.listNamespaces (run (StoreOp.step P) {} before),
      ∃ info' ∈ SeqMap.listNamespaces (run (StoreOp.step P) {} ops),
        info'.namespaceId = info.namespaceId ∧ info.latestSeqNum ≤ info'.latestSeqNum := by
  have hempty (ns : Hash32) : ({} : Tables).nextSeqNum ns = 1 := by
    simp [Tables.nextSeqNum, Tables.seqEntries]
  -- the numbers of every part of the run fit
  have hfits (before after : List StoreOp) (hops : ops = before ++ after) (ns : Hash32) :
      (run (StoreOp.step P) {} before).nextSeqNum ns ≤ UINT64_MAX := by
    have hnext := (nextSeqNum_run (P := P) ns before {}).2
    have hlt := hstores ns
    rw [hops, assigned_append, numbersIn_append, List.length_append] at hlt
    rw [hempty] at hnext
    unfold UINT64_MAX
    omega
  refine ⟨?_, ?_, ?_⟩
  · intro ns
    rw [(nextSeqNum_run (P := P) ns ops {}).1]
    exact List.pairwise_lt_range'
  · refine allSteps_of_forall fun before op after hops => stored_search op fun ns => ?_
    have hle := hfits (before ++ [op]) after (by rw [hops, List.append_assoc]; rfl) ns
    rwa [run_append] at hle
  · rintro before after hops info hinfo
    obtain ⟨⟨n, hn⟩, hlatest⟩ :=
      (mem_listNamespaces (fits_of_nextSeqNum (hfits before after hops))).mp hinfo
    have hrun : run (StoreOp.step P) {} ops =
        run (StoreOp.step P) (run (StoreOp.step P) {} before) after := by
      rw [hops, run_append]
    have hgrows :=
      (nextSeqNum_run (P := P) info.namespaceId after (run (StoreOp.step P) {} before)).2
    rw [← hrun] at hgrows
    let later : NamespaceInfo :=
      { namespaceId := info.namespaceId
        latestSeqNum := (run (StoreOp.step P) {} ops).nextSeqNum info.namespaceId - 1 }
    refine ⟨later, ?_, rfl, ?_⟩
    · refine (mem_listNamespaces (fits_of_nextSeqNum (hfits ops [] (by simp)))).mpr ⟨⟨n, ?_⟩, ?_⟩
      · rw [hrun]
        exact used_run after hn
      · change (run (StoreOp.step P) {} ops).nextSeqNum info.namespaceId - 1 + 1 =
          (run (StoreOp.step P) {} ops).nextSeqNum info.namespaceId
        omega
    · change info.latestSeqNum ≤ (run (StoreOp.step P) {} ops).nextSeqNum info.namespaceId - 1
      omega

section Sample

open Wire.Sample

/-- Two blobs are stored, the second one is deleted, and a third one is stored. -/
def restocked : List StoreOp :=
  let blob (timestamp : UInt64) := signed (key 1) (owned 1) (owned 1) [1, 2, 3] 0 timestamp
  [.storeBlobsAtomic 0 false [⟨owned 1, blob 3000000⟩, ⟨owned 1, blob 3000001⟩] {},
    .deleteBlobData (owned 1) (contentHash primitives (blob 3000001)),
    .storeBlob 0 false (owned 1) (blob 3000002) {}]

set_option maxRecDepth 20000 in
theorem sequence_numbers_restocked :
    numbersIn (owned 1) (assigned primitives {} restocked) = [1, 2, 3] ∧
    (∀ ns, (numbersIn ns (assigned primitives {} restocked)).Pairwise (· < ·)) := by
  refine ⟨by decide, (sequence_numbers primitives restocked fun ns => ?_).1⟩
  have hcount : (assigned primitives {} restocked).length = 3 := by decide
  have hle : (numbersIn ns (assigned primitives {} restocked)).length ≤
      (assigned primitives {} restocked).length := by
    rw [numbersIn, List.length_map]
    exact List.length_filter_le _ _
  omega

end Sample

end Storage
