import Chromatin.Properties.EngineCalls

/-!
# Rejected calls

Every check of `ingest` and `delete_blob` up to the signature leaves the tables alone, and so do
the rejections of the last segment that come before `store_blob`. When `store_blob` itself refuses
a blob, the targets of a tombstone or BOMB have already been deleted and the key of a PUBK has
already been registered, unless the transactions that do so have thrown. `Unsettles` says that a
call is about to do so, and `rejected_unchanged_iff` that a rejected call has changed the tables
exactly if it did.
-/

namespace Engine

open Infra Util Wire Storage

variable {P : Primitives} {env : Env} {t : Tables} {ns : Hash32} {blob : BlobData} {task : Task}

/-- The call reaches `store_blob` on its next turn, and has by then deleted a stored blob or
registered a key, in a transaction that does not throw. -/
def Unsettles (P : Primitives) (env : Env) (t : Tables) (task : Task) : Prop :=
  (∃ signer, task.pc = .verify signer ∧
    verifySignature P task.ns task.blob signer.pubkey = true) ∧
  ((∃ target ∈ targetsOf task.blob, target ∉ env.deleteErrors ∧
      t.hasBlob task.ns target = true) ∨
    (isPubkeyBlob task.blob.data = true ∧ env.registerError = false ∧
      t.getOwnerPubkey task.blob.signerHint = none ∧
      t.hasTombstoneFor task.ns (contentHash P task.blob) = false))

/-! ## What has been done before `store_blob` -/

theorem deleteTargets_absent : ∀ (targets : List Hash32),
    (∀ target ∈ targets, t.getBlob ns target = none) → deleteTargets P t ns targets = t
  | [], _ => rfl
  | target :: rest, h => by
    have hsame : (deleteBlobData P t ns target).1 = t := by
      rw [deleteBlobData, h target List.mem_cons_self]
    rw [deleteTargets, List.foldl_cons, hsame]
    exact deleteTargets_absent rest fun target' htarget =>
      h target' (List.mem_cons_of_mem _ htarget)

/-- The tables before `store_blob` are still those the segment started from exactly if no target
is stored and no key is registered. -/
theorem prepared_eq_self_iff : prepared P env t ns blob = t ↔
    (∀ target ∈ deletedBy env blob, t.hasBlob ns target = false) ∧
      ¬ (isPubkeyBlob blob.data = true ∧ t.getOwnerPubkey blob.signerHint = none) := by
  constructor
  · intro hsame
    constructor
    · intro target htarget
      have hget : (prepared P env t ns blob).getBlob ns target = none := by
        rw [getBlob_prepared, if_pos ⟨rfl, htarget⟩]
      rw [hsame] at hget
      simp [Tables.hasBlob, hget]
    · rintro ⟨hpubk, hkey⟩
      have hregistered : (prepared P env t ns blob).getOwnerPubkey blob.signerHint =
          some (extractPubkSigningPk blob.data) := by
        rw [getOwnerPubkey_prepared, if_pos ⟨hpubk, hkey, rfl⟩]
      rw [hsame, hkey] at hregistered
      simp at hregistered
  · rintro ⟨htargets, hkey⟩
    have hdeleted : deleteTargets P t ns (deletedBy env blob) = t :=
      deleteTargets_absent _ fun target htarget => by
        simpa [Tables.hasBlob] using htargets target htarget
    rw [prepared, hdeleted, registered, if_neg hkey]

/-! ## One turn -/

theorem segment_verify (env : Env) (t : Tables) {signer : Signer} (hsound : task.Sound)
    (hpc : task.pc = .verify signer)
    (hverify : verifySignature P task.ns task.blob signer.pubkey = true) :
    ∃ result, (segment P env t task).2 = .done result ∧
      Committed P env t task.ns task.blob (segment P env t task).1 result := by
  obtain ⟨entry, ns, blob, pc⟩ := task
  subst hpc
  cases entry with
  | ingest =>
    refine ⟨(ingestCommit P env t ns blob).2, ?_⟩
    simp only [segment, ingestSegment, hverify, if_true]
    exact ⟨trivial, committed_ingest env t ns blob⟩
  | deleteBlob =>
    refine ⟨(deleteCommit P env t ns blob).2, ?_⟩
    simp only [segment, deleteSegment, hverify, if_true]
    exact ⟨trivial, committed_delete env t ns (hsound rfl rfl).1⟩

/-- **A turn that does not answer with success leaves the tables alone exactly if it does not
unsettle them.** -/
theorem segment_unchanged_iff (env : Env) (hsound : task.Sound)
    (hresult : ∀ ack, (segment P env t task).2 ≠ .done (.success ack)) :
    (segment P env t task).1 = t ↔ ¬ Unsettles P env t task := by
  constructor
  · rintro hsame ⟨⟨signer, hpc, hverify⟩, hchange⟩
    obtain ⟨result, hdone, hcommitted⟩ := segment_verify env t hsound hpc hverify
    rw [hdone] at hresult
    generalize (segment P env t task).1 = t' at hsame hcommitted
    cases hcommitted with
    | blocked hregular hmark =>
      rcases hchange with ⟨target, htarget, -⟩ | ⟨-, -, -, hclear⟩
      · simp [targetsOf_regular hregular] at htarget
      · simp [hmark] at hclear
    | mismatch hthrows =>
      obtain ⟨hpubk, herror | ⟨existing, hkey, -⟩⟩ := hthrows
      all_goals rcases hchange with ⟨target, htarget, -⟩ | ⟨-, hregisters, hnone, -⟩
      · simp [targetsOf_regular (isRegular_of_isPubkeyBlob hpubk)] at htarget
      · simp [herror] at hregisters
      · simp [targetsOf_regular (isRegular_of_isPubkeyBlob hpubk)] at htarget
      · simp [hkey] at hnone
    | refused error detail _ _ _ =>
      obtain ⟨htargets, hkey⟩ := prepared_eq_self_iff.mp hsame
      rcases hchange with ⟨target, htarget, hdeletes, hstored⟩ | ⟨hpubk, -, hnone, -⟩
      · simp [htargets target (mem_deletedBy.mpr ⟨htarget, hdeletes⟩)] at hstored
      · exact hkey ⟨hpubk, hnone⟩
    | duplicate ack _ _ => exact hresult ack rfl
    | stored ack _ _ _ => exact hresult ack rfl
  · intro hsettled
    have hturn := segment_turn (P := P) env t hsound
    generalize (segment P env t task).1 = t' at hturn ⊢
    generalize (segment P env t task).2 = pc at hturn hresult
    cases hturn with
    | commit signer t' result hpc hverify hcommitted =>
      cases hcommitted with
      | blocked _ _ => rfl
      | mismatch _ => rfl
      | duplicate ack _ _ => exact absurd rfl (hresult ack)
      | stored ack _ _ _ => exact absurd rfl (hresult ack)
      | refused error detail _ hclear hregisters =>
        have hsettled : ¬ _ := fun hchange => hsettled ⟨⟨signer, hpc, hverify⟩, hchange⟩
        rw [not_or] at hsettled
        refine prepared_eq_self_iff.mpr ⟨fun target htarget => ?_, fun ⟨hpubk, hkey⟩ => ?_⟩
        · obtain ⟨hmem, hdeletes⟩ := mem_deletedBy.mp htarget
          by_contra hstored
          exact hsettled.1 ⟨target, hmem, hdeletes, by simpa using hstored⟩
        · -- nothing has kept the key of the PUBK from being registered
          have herror : env.registerError = false := by
            by_contra herror
            exact hregisters ⟨hpubk, .inl (by simpa using herror)⟩
          exact hsettled.2 ⟨hpubk, herror, hkey, hclear (isRegular_of_isPubkeyBlob hpubk)⟩
    | _ => rfl

/-! ## Runs -/

/-- An answered call stays answered. -/
theorem done_stays {node : Node} {i : Nat} {result : IngestResult} (hi : node.tasks[i]? = some task)
    (hdone : task.pc = .done result) (event : Event) :
    (node.step P event).tasks[i]? = some task := by
  have hlt : i < node.tasks.length := (List.getElem?_eq_some_iff.mp hi).1
  cases event with
  | call entry ns blob => rw [Node.step, List.getElem?_append_left hlt, hi]
  | expiryScan now => exact hi
  | resume j env =>
    by_cases hij : j = i
    · subst hij
      have hpc : (segment P env node.tables task).2 = task.pc := by
        rw [segment, hdone]
        cases task.entry <;> rfl
      rw [getElem?_tasks_resume env hi, hpc]
    · rw [Node.step]
      cases node.tasks[j]? with
      | none => exact hi
      | some other => rw [List.getElem?_set_ne hij, hi]

theorem done_stays_run {i : Nat} {result : IngestResult} (hdone : task.pc = .done result) :
    ∀ {node : Node} (events : List Event), node.tasks[i]? = some task →
      (run (Node.step P) node events).tasks[i]? = some task
  | _, [], hi => hi
  | _, event :: events, hi => by
    rw [run_cons]
    exact done_stays_run hdone events (done_stays hi hdone event)

/-- **A rejected call has changed nothing exactly if none of its turns unsettled the tables.** -/
theorem rejected_unchanged_iff (P : Primitives) (events : List Event) (i : Nat) (task : Task)
    (error : IngestError) (detail : String)
    (hi : (run (Node.step P) {} events).tasks[i]? = some task)
    (hrejected : task.pc = .done (.rejection error detail)) :
    AllSteps (Node.step P) (fun node event => ∀ env, event = .resume i env →
        (node.step P event).tables = node.tables) {} events ↔
      AllSteps (Node.step P) (fun node event => ∀ env call, event = .resume i env →
        node.tasks[i]? = some call → ¬ Unsettles P env node.tables call) {} events := by
  -- a turn of the call that answers it gives the answer of the whole run
  have hturn : ∀ before env call after, events = before ++ .resume i env :: after →
      (run (Node.step P) {} before).tasks[i]? = some call →
      (((run (Node.step P) {} before).step P (.resume i env)).tables =
          (run (Node.step P) {} before).tables ↔
        ¬ Unsettles P env (run (Node.step P) {} before).tables call) := by
    rintro before env call after rfl hcall
    set node := run (Node.step P) {} before with hnode
    have hsound : call.Sound := by
      have hnodeSound := sound_run (P := P) before
      rw [← hnode] at hnodeSound
      exact hnodeSound call (List.mem_of_getElem? hcall)
    have hnext := getElem?_tasks_resume (P := P) env hcall
    have htables : (node.step P (.resume i env)).tables = (segment P env node.tables call).1 := by
      simp only [Node.step, hcall]
    rw [htables]
    refine segment_unchanged_iff env hsound fun ack hack => ?_
    rw [hack] at hnext
    have hend := done_stays_run (P := P) rfl after hnext
    rw [run_append, run_cons, ← hnode, hend] at hi
    rw [← Option.some.inj hi] at hrejected
    simp at hrejected
  rw [allSteps_iff_forall, allSteps_iff_forall]
  constructor
  · rintro h before event after hevents env call rfl hcall
    exact (hturn before env call after hevents hcall).mp (h before _ after hevents env rfl)
  · rintro h before event after hevents env rfl
    cases hcall : (run (Node.step P) {} before).tasks[i]? with
    | none => simp only [Node.step, hcall]
    | some call =>
      exact (hturn before env call after hevents hcall).mpr
        (h before _ after hevents env call rfl hcall)

section Sample

open Wire.Sample

/-- The transaction that registers the key of a PUBK throws. -/
def lostPubk : List Event :=
  callAlone 0 { sampleEnv with registerError := true } .ingest (owned 1) (pubk 1 (owned 1) 3000000)

-- the list of the PUBK's bytes is as deep as it is long
set_option maxRecDepth 20000 in
/-- Its call is rejected in its last turn and changes nothing. -/
theorem rejected_unchanged_pubk :
    AllSteps (Node.step primitives) (fun node event => ∀ env, event = .resume 0 env →
      (node.step primitives event).tables = node.tables) {} lostPubk := by
  have hi : (run (Node.step primitives) {} lostPubk).tasks[0]? =
      some { entry := .ingest, ns := owned 1, blob := pubk 1 (owned 1) 3000000
             pc := .done (.rejection .pubkMismatch
               "PUBK signing pubkey differs from registered owner") } := by
    decide +kernel
  have henvs : ∀ env ∈ envsOf lostPubk, env.registerError = true := by decide +kernel
  have hblobs : ∀ blob ∈ blobsOf lostPubk, targetsOf blob = [] := by decide +kernel
  refine (rejected_unchanged_iff primitives lostPubk 0 _ _ _ hi rfl).mpr
    (allSteps_of_forall fun before event after hevents env call hevent hcall => ?_)
  rintro ⟨-, ⟨target, htarget, -⟩ | ⟨-, herror, -⟩⟩
  · have hcalled := called_of_mem_tasks (List.mem_of_getElem? hcall)
    rw [hblobs call.blob (mem_blobsOf (hevents ▸ List.mem_append_left _ hcalled))] at htarget
    exact absurd htarget List.not_mem_nil
  · have hmem : .resume 0 env ∈ lostPubk := by simp [hevents, hevent]
    rw [henvs env (mem_envsOf hmem)] at herror
    exact absurd herror (by simp)

/-- A database of at most 2 MiB with the given number of used MiB; it grows by 1 MiB at a time. -/
def smallEnv (usedMiB : UInt64) : Env :=
  { config := { maxStorageBytes := 2 * 1024 * 1024 }, now := 3000000
    usedBytes := usedMiB * 1024 * 1024 }

/-- The database fills up while the signature of a PUBK is verified: the call is rejected, but the
key has been registered. -/
theorem key_of_rejected_pubk :
    let node := run (Node.step primitives) {} (.call .ingest (owned 1) (pubk 1 (owned 1) 3000000) ::
      (List.replicate 3 (.resume 0 (smallEnv 1)) ++ [.resume 0 (smallEnv 2)]))
    node.tasks.map Task.pc =
        [.done (.rejection .storageFull "storage capacity exceeded (atomic check)")] ∧
      node.tables.getOwnerPubkey (owned 1) = some (key 1) := by
  decide +kernel

end Sample

end Engine
