import Chromatin.Properties.EngineSteps
import Chromatin.Wire.Sample

/-!
# Calls that run alone

* `run_callAlone`: a call without anything in between is one of the runs of a node.
* `ingest_signer`: what a call of `ingest` does once its checks pass and its signer is accepted.
-/

namespace Engine

open Infra Util Wire Storage

variable {P : Primitives} {env : Env} {t : Tables} {ns : Hash32} {blob : BlobData} {pubkey : PubKey}
  {entry : Entry} {ack : WriteAck}

/-! ## A call alone is a run -/

/-- The events of a call that runs alone on a node with `i` calls before it. -/
def callAlone (i : Nat) (env : Env) (entry : Entry) (ns : Hash32) (blob : BlobData) : List Event :=
  .call entry ns blob :: List.replicate callTurns (.resume i env)

theorem run_resume_last (tasks : List Task) : ∀ (n : Nat) (t : Tables) (task : Task),
    run (Node.step P) { tables := t, tasks := tasks ++ [task] }
        (List.replicate n (.resume tasks.length env)) =
      { tables := (runAlone P env n t task).1
        tasks := tasks ++ [{ task with pc := (runAlone P env n t task).2 }] }
  | 0, t, task => rfl
  | n + 1, t, task => by
    have hstep : Node.step P { tables := t, tasks := tasks ++ [task] } (.resume tasks.length env) =
        { tables := (segment P env t task).1
          tasks := tasks ++ [{ task with pc := (segment P env t task).2 }] } := by
      simp [Node.step]
    rw [List.replicate_succ, run_cons, hstep, run_resume_last tasks n, runAlone]

/-- **A call without anything in between is a run of the node.** -/
theorem run_callAlone (node : Node) {t' : Tables} {pc : Pc}
    (h : runAlone P env callTurns node.tables { entry, ns, blob } = (t', pc)) :
    run (Node.step P) node (callAlone node.tasks.length env entry ns blob) =
      { tables := t', tasks := node.tasks ++ [{ entry, ns, blob, pc }] } := by
  rw [callAlone, run_cons, Node.step, run_resume_last, h]

theorem run_callAlone_append {tasks : List Task} {i : Nat} {t' : Tables} {pc : Pc}
    (h : runAlone P env callTurns t { entry, ns, blob } = (t', pc)) (hi : tasks.length = i)
    (rest : List Event) :
    run (Node.step P) { tables := t, tasks } (callAlone i env entry ns blob ++ rest) =
      run (Node.step P) { tables := t', tasks := tasks ++ [{ entry, ns, blob, pc }] } rest := by
  subst hi
  rw [run_append]
  exact congrArg (run (Node.step P) · rest) (run_callAlone { tables := t, tasks } h)

/-! ## What a call of `ingest` does -/

/-- The registered key of the signer if it owns the namespace. -/
def registeredOwner (P : Primitives) (t : Tables) (ns : Hash32) (blob : BlobData) :
    Option PubKey :=
  (t.getOwnerPubkey blob.signerHint).filter fun pubkey => P.sha3_256 pubkey.toList = ns

/-- The key embedded in a PUBK if it owns the namespace. -/
def embeddedOwner (P : Primitives) (ns : Hash32) (blob : BlobData) : Option PubKey :=
  if P.sha3_256 (extractPubkSigningPk blob.data).toList = ns then
    some (extractPubkSigningPk blob.data)
  else none

/-- The delegate's key for a blob that a delegate may write. -/
def delegateOf (t : Tables) (ns : Hash32) (blob : BlobData) : Option PubKey :=
  if checkDelegate blob = none then t.getDelegatePubkeyByHint ns blob.signerHint else none

/-- The signer `ingest` accepts for a blob. -/
def signerOf (P : Primitives) (t : Tables) (ns : Hash32) (blob : BlobData) : Option Signer :=
  match registeredOwner P t ns blob with
  | some pubkey => some (.owner pubkey)
  | none =>
    if isPubkeyBlob blob.data then (embeddedOwner P ns blob).map .owner
    else (delegateOf t ns blob).map .delegate

/-- The checks that do not look at the tables pass. -/
structure Admissible (env : Env) (blob : BlobData) : Prop where
  size : checkSize env blob = none
  capacity : checkCapacity env blob = none
  timestamp : checkTimestamp env blob = none
  expired : checkExpired env blob = none
  maxTtl : checkMaxTtl env blob = none
  signature : checkSignaturePresent blob = none
  bomb : checkBomb blob = none

theorem ingestChecks_eq_none_iff :
    ingestChecks env t ns blob = none ↔ Admissible env blob ∧ checkPubkFirst t ns blob = none := by
  simp only [ingestChecks, Option.orElse_eq_orElse, Option.orElse_eq_or, Option.or_eq_none_iff]
  constructor
  · rintro ⟨hsize, hcapacity, htimestamp, hexpired, hmaxTtl, hsignature, hfirst, hbomb⟩
    exact ⟨⟨hsize, hcapacity, htimestamp, hexpired, hmaxTtl, hsignature, hbomb⟩, hfirst⟩
  · rintro ⟨h, hfirst⟩
    exact ⟨h.size, h.capacity, h.timestamp, h.expired, h.maxTtl, h.signature, hfirst, h.bomb⟩

theorem ingestChecks_eq_none (hadm : Admissible env blob)
    (hfirst : t.hasOwnerPubkey ns = true ∨ isPubkeyBlob blob.data = true) :
    ingestChecks env t ns blob = none := by
  refine ingestChecks_eq_none_iff.mpr ⟨hadm, ?_⟩
  unfold checkPubkFirst
  rcases hfirst with h | h <;> simp [h]

/-- Neither a quota nor the capacity nor the disk limits what is stored. -/
structure Unlimited (env : Env) (ns : Hash32) : Prop where
  quota : effectiveQuota env.config ns = (0, 0)
  capacity : env.config.maxStorageBytes = 0
  errors : env.ErrorFree

theorem unlimited_default (hconfig : env.config = {}) (herrors : env.ErrorFree) :
    Unlimited env ns where
  quota := by simp [hconfig, effectiveQuota]
  capacity := by rw [hconfig]
  errors := herrors

theorem runAlone_done (n : Nat) (t : Tables) (entry : Entry) (result : IngestResult) :
    runAlone P env n t { entry, ns, blob, pc := .done result } = (t, .done result) := by
  induction n with
  | zero => rfl
  | succ n ih =>
    cases entry with
    | ingest => simpa [runAlone, segment, ingestSegment] using ih
    | deleteBlob => simpa [runAlone, segment, deleteSegment] using ih

/-- What is left of a call of `ingest` once the signer is known. -/
def finishIngest (P : Primitives) (env : Env) (t : Tables) (ns : Hash32) (blob : BlobData)
    (pubkey : PubKey) : Tables × Pc :=
  if t.hasBlob ns (contentHash P blob) then
    (t, .done (.success { blobHash := contentHash P blob, status := .duplicate }))
  else if verifySignature P ns blob pubkey then
    ((ingestCommit P env t ns blob).1, .done (ingestCommit P env t ns blob).2)
  else (t, .done (.rejection .invalidSignature "ML-DSA-87 signature verification failed"))

theorem runAlone_blobHash (n : Nat) (signer : Signer) :
    runAlone P env (n + 2) t { entry := .ingest, ns, blob, pc := .blobHash signer } =
      finishIngest P env t ns blob signer.pubkey := by
  unfold finishIngest
  rw [runAlone]
  simp only [segment, ingestSegment]
  by_cases hblob : t.hasBlob ns (contentHash P blob) = true
  · simp only [hblob, if_true]
    exact runAlone_done _ _ _ _
  · simp only [hblob, Bool.false_eq_true, if_false]
    rw [runAlone]
    simp only [segment, ingestSegment]
    by_cases hverify : verifySignature P ns blob signer.pubkey = true
    · simp only [hverify, if_true]
      exact runAlone_done _ _ _ _
    · simp only [hverify, Bool.false_eq_true, if_false]
      exact runAlone_done _ _ _ _

theorem checkQuota_unlimited (h : Unlimited env ns) (signer : Signer) :
    checkQuota P env t ns blob signer = .blobHash signer := by
  unfold checkQuota
  split_ifs
  · rfl
  · simp [h.quota]

theorem storeBlob_fresh (hfresh : t.getBlob ns (contentHash P blob) = none) :
    storeBlob P env.usedBytes false t ns blob {} =
      (t.insertBlob P ns blob,
        { status := .stored, seqNum := t.nextSeqNum ns, blobHash := contentHash P blob }) := by
  simp [storeBlob, Tables.hasBlob, hfresh, overQuota]

/-- **A verified blob is stored** when no tombstone blocks it, its key is not in conflict with the
registered one, and it is not there yet. -/
theorem ingestCommit_fresh (henv : Unlimited env ns)
    (hclear : isRegular blob = true → t.hasTombstoneFor ns (contentHash P blob) = false)
    (hkey : isPubkeyBlob blob.data = true → ∀ existing,
      t.getOwnerPubkey blob.signerHint = some existing → existing = extractPubkSigningPk blob.data)
    (hfresh : (prepared P env t ns blob).getBlob ns (contentHash P blob) = none) :
    ingestCommit P env t ns blob =
      ((prepared P env t ns blob).insertBlob P ns blob,
        .success
          { blobHash := contentHash P blob
            seqNum := (prepared P env t ns blob).nextSeqNum ns }) := by
  have hblocked : (isRegular blob && t.hasTombstoneFor ns (contentHash P blob)) = false := by
    rw [Bool.and_eq_false_iff]
    by_cases hregular : isRegular blob = true
    · exact .inr (hclear hregular)
    · exact .inl (Bool.eq_false_of_not_eq_true hregular)
  unfold ingestCommit
  rw [sideEffects_eq, hblocked]
  simp only [Bool.false_eq_true, if_false]
  rcases registerPubk_cases env (deleteTargets P t ns (deletedBy env blob)) blob with
    ⟨hthrows, -⟩ | ⟨-, hreg⟩
  · obtain ⟨hpubk, herror | ⟨existing, hexisting, hne⟩⟩ :=
      (registerThrows_deleteTargets _).mp hthrows
    · simp [henv.errors.register] at herror
    · exact absurd (hkey hpubk existing hexisting) hne
  · have hstore : storeBlob P env.usedBytes false (prepared P env t ns blob) ns blob {} = _ :=
      storeBlob_fresh hfresh
    simp only [hreg, ingestStore, henv.quota, henv.capacity, henv.errors.store, ite_self]
    rw [← prepared, hstore]
    rfl

/-- A PUBK whose hint has another key is rejected, and nothing changes. -/
theorem ingestCommit_mismatch (hpubk : isPubkeyBlob blob.data = true)
    (hclear : t.hasTombstoneFor ns (contentHash P blob) = false) {existing : PubKey}
    (hkey : t.getOwnerPubkey blob.signerHint = some existing)
    (hne : existing ≠ extractPubkSigningPk blob.data) :
    ingestCommit P env t ns blob =
      (t, .rejection .pubkMismatch "PUBK signing pubkey differs from registered owner") := by
  have hregular := isRegular_of_isPubkeyBlob hpubk
  have hregister : registerPubk env t blob = none := by
    rcases registerPubk_cases env t blob with ⟨-, hnone⟩ | ⟨hnot, -⟩
    · exact hnone
    · exact absurd ⟨hpubk, .inr ⟨existing, hkey, hne⟩⟩ hnot
  rw [ingestCommit, sideEffects_eq, hclear, Bool.and_false, deletedBy_regular hregular]
  simp only [Bool.false_eq_true, if_false, deleteTargets, List.foldl_nil, hregister]

theorem ingest_of_checks (hchecks : ingestChecks env t ns blob = none) :
    ingest P env t ns blob =
      runAlone P env 4 t { entry := .ingest, ns, blob, pc := resolveSigner P env t ns blob } := by
  rw [ingest, callTurns, runAlone]
  simp only [segment, ingestSegment, hchecks]

/-- A call whose checks fail changes nothing. -/
theorem ingest_of_checks_fail (h : ingestChecks env t ns blob ≠ none) :
    (ingest P env t ns blob).1 = t := by
  obtain ⟨result, hresult⟩ := Option.ne_none_iff_exists'.mp h
  rw [ingest, callTurns, runAlone]
  simp only [segment, ingestSegment, hresult]
  rw [runAlone_done]

/-- The embedded key of a PUBK or a delegation, `n` turns before the end. -/
theorem runAlone_resolveOther (n : Nat) (hquota : Unlimited env ns) {signer : Signer}
    (h : (if isPubkeyBlob blob.data then (embeddedOwner P ns blob).map .owner
      else (delegateOf t ns blob).map .delegate) = some signer) :
    runAlone P env (n + 3) t { entry := .ingest, ns, blob, pc := resolveOther P env t ns blob } =
      finishIngest P env t ns blob signer.pubkey := by
  unfold resolveOther
  by_cases hpubk : isPubkeyBlob blob.data = true
  · simp only [hpubk, if_true, embeddedOwner] at h ⊢
    split_ifs at h with hns
    · obtain rfl := Option.some.inj h
      rw [runAlone]
      simp only [segment, ingestSegment, hns, ne_eq, not_true_eq_false, if_false,
        checkQuota_unlimited hquota]
      exact runAlone_blobHash n _
    · simp at h
  · simp only [hpubk, Bool.false_eq_true, if_false, delegateOf] at h ⊢
    split_ifs at h with hcheck
    · obtain ⟨pubkey, hkey, rfl⟩ := Option.map_eq_some_iff.mp h
      simp only [resolveDelegate, hkey, hcheck, checkQuota_unlimited hquota]
      exact runAlone_blobHash (n + 1) _
    · simp at h

/-- **A call of `ingest` by an accepted signer**, once its checks pass. -/
theorem ingest_signer (hchecks : ingestChecks env t ns blob = none) (hquota : Unlimited env ns)
    {signer : Signer} (hsigner : signerOf P t ns blob = some signer) :
    ingest P env t ns blob = finishIngest P env t ns blob signer.pubkey := by
  rw [ingest_of_checks hchecks]
  unfold signerOf registeredOwner at hsigner
  unfold resolveSigner
  -- a registered key is hashed first; when it does not own the namespace, the rest is tried
  cases hkey : t.getOwnerPubkey blob.signerHint with
  | none =>
    rw [hkey] at hsigner
    exact runAlone_resolveOther 1 hquota hsigner
  | some ownerPk =>
    rw [hkey] at hsigner
    rw [runAlone]
    by_cases hns : P.sha3_256 ownerPk.toList = ns
    · obtain rfl : Signer.owner ownerPk = signer := by simpa [Option.filter, hns] using hsigner
      simp only [segment, ingestSegment, hns, if_true, checkQuota_unlimited hquota]
      exact runAlone_blobHash 1 _
    · simp only [segment, ingestSegment, hns, if_false]
      refine runAlone_resolveOther 0 hquota ?_
      simpa [Option.filter, hns] using hsigner

/-- An accepted call found its blob stored, or committed it. -/
theorem runAlone_accepted (n : Nat) {task : Task} (hsound : task.Sound)
    (h : (runAlone P env n t task).2 = .done (.success ack))
    (hopen : ∀ result, task.pc ≠ .done result) :
    ((runAlone P env n t task).1 = t ∧ t.hasBlob task.ns (contentHash P task.blob) = true) ∨
      Committed P env t task.ns task.blob (runAlone P env n t task).1 (.success ack) := by
  induction n generalizing task with
  | zero => exact absurd h (hopen _)
  | succ n ih =>
    rw [runAlone] at h ⊢
    dsimp only at h ⊢
    have hturn := segment_turn (P := P) env t hsound
    have hnext := sound_segment (P := P) env t hsound
    generalize (segment P env t task).2 = pc at *
    generalize (segment P env t task).1 = t' at *
    by_cases hdone : ∃ result, pc = .done result
    · obtain ⟨result, rfl⟩ := hdone
      rw [runAlone_done] at h ⊢
      rcases turn_accepted hturn h with hidle | hknown | hcommit
      · exact absurd hidle (hopen _)
      · exact .inl hknown
      · exact .inr hcommit
    · have hpc : ∀ result, pc ≠ .done result := fun result heq => hdone ⟨result, heq⟩
      obtain rfl := turn_open hturn hpc
      exact ih hnext h hpc

/-- A call leaves the tables alone or commits its blob. -/
theorem runAlone_tables (n : Nat) {task : Task} (hsound : task.Sound) :
    (runAlone P env n t task).1 = t ∨
      ∃ result, Committed P env t task.ns task.blob (runAlone P env n t task).1 result := by
  induction n generalizing task with
  | zero => exact .inl rfl
  | succ n ih =>
    rw [runAlone]
    dsimp only
    have hturn := segment_turn (P := P) env t hsound
    have hnext := sound_segment (P := P) env t hsound
    generalize (segment P env t task).2 = pc at *
    generalize (segment P env t task).1 = t' at *
    cases hturn with
    | resolve pc _ _ => exact ih hnext
    | known signer ack _ _ => exact ih hnext
    | absent signer _ => exact ih hnext
    | idle => exact ih hnext
    | commit signer t' result _ _ hcommit =>
      rw [runAlone_done]
      exact .inr ⟨result, hcommit⟩

theorem ingest_tables (P : Primitives) (env : Env) (t : Tables) (ns : Hash32) (blob : BlobData) :
    (ingest P env t ns blob).1 = t ∨
      ∃ result, Committed P env t ns blob (ingest P env t ns blob).1 result := by
  have hsound : Task.Sound { entry := .ingest, ns, blob } := fun hentry => by simp at hentry
  exact runAlone_tables callTurns hsound

theorem ingest_accepted (h : (ingest P env t ns blob).2 = .done (.success ack)) :
    ((ingest P env t ns blob).1 = t ∧ t.hasBlob ns (contentHash P blob) = true) ∨
      Committed P env t ns blob (ingest P env t ns blob).1 (.success ack) := by
  have hsound : Task.Sound { entry := .ingest, ns, blob } := fun hentry => by simp at hentry
  exact runAlone_accepted callTurns hsound h fun result => by simp

/-- An accepted blob that was not there is stored. -/
theorem ingest_accepted_fresh
    (h : (ingest P env t ns blob).2 = .done (.success ack))
    (hfresh : t.getBlob ns (contentHash P blob) = none) :
    (ingest P env t ns blob).1 = (prepared P env t ns blob).insertBlob P ns blob := by
  rcases ingest_accepted h with ⟨-, hknown⟩ | hcommit
  · simp [Tables.hasBlob, hfresh] at hknown
  · generalize (ingest P env t ns blob).1 = t' at hcommit
    cases hcommit with
    | duplicate ack _ hknown =>
      rw [Tables.hasBlob, getBlob_prepared, hfresh, ite_self] at hknown
      exact absurd hknown (by simp)
    | stored ack _ _ _ => rfl

/-! ## Calls one after the other -/

/-- The tables after calls of `ingest` for one namespace, each of which runs alone. -/
def ingestAll (P : Primitives) (ns : Hash32) (t : Tables) (calls : List (Env × BlobData)) :
    Tables :=
  calls.foldl (fun t call => (ingest P call.1 t ns call.2).1) t

/-- Every one of the calls is accepted. -/
def AllAccepted (P : Primitives) (ns : Hash32) : Tables → List (Env × BlobData) → Prop
  | _, [] => True
  | t, call :: rest =>
    (∃ ack, (ingest P call.1 t ns call.2).2 = .done (.success ack)) ∧
      AllAccepted P ns (ingest P call.1 t ns call.2).1 rest

/-! ## Owners -/

section Owner

variable (hadm : Admissible env blob) (henv : Unlimited env ns) (hhint : blob.signerHint = ns)
  (hkey : t.getOwnerPubkey ns = some pubkey) (hns : P.sha3_256 pubkey.toList = ns)

include hadm henv hhint hkey hns

/-- A call of `ingest` by the owner under its own hint, once its key is registered. -/
theorem ingest_own : ingest P env t ns blob = finishIngest P env t ns blob pubkey := by
  have howner : t.hasOwnerPubkey ns = true := by simp [Tables.hasOwnerPubkey, hkey]
  have hsigner : signerOf P t ns blob = some (.owner pubkey) := by
    simp [signerOf, registeredOwner, hhint, hkey, Option.filter, hns]
  exact ingest_signer (ingestChecks_eq_none hadm (.inl howner)) henv hsigner

/-- It is stored if it is new, valid, not blocked, and not a PUBK of another key. -/
theorem ingest_own_fresh (hverify : verifySignature P ns blob pubkey = true)
    (hfresh : t.getBlob ns (contentHash P blob) = none)
    (hclear : isRegular blob = true → t.hasTombstoneFor ns (contentHash P blob) = false)
    (hpubk : isPubkeyBlob blob.data = true → extractPubkSigningPk blob.data = pubkey) :
    ingest P env t ns blob = ((prepared P env t ns blob).insertBlob P ns blob,
      .done (.success
        { blobHash := contentHash P blob,
          seqNum := (prepared P env t ns blob).nextSeqNum ns })) := by
  have hprepared : (prepared P env t ns blob).getBlob ns (contentHash P blob) = none := by
    rw [getBlob_prepared, hfresh, ite_self]
  have hcommit : ingestCommit P env t ns blob = _ :=
    ingestCommit_fresh henv hclear (fun h existing hexisting => by
      rw [hhint, hkey] at hexisting
      rw [hpubk h, Option.some.inj hexisting]) hprepared
  rw [ingest_own hadm henv hhint hkey hns, finishIngest, hcommit]
  simp [Tables.hasBlob, hfresh, hverify]

/-- It changes nothing if it is stored. -/
theorem ingest_own_known {stored : BlobData}
    (hknown : t.getBlob ns (contentHash P blob) = some stored) :
    (ingest P env t ns blob).1 = t := by
  rw [ingest_own hadm henv hhint hkey hns, finishIngest, Tables.hasBlob, hknown]
  rfl

/-- It changes nothing if it is regular and its hash carries a mark. -/
theorem ingest_own_blocked (hregular : isRegular blob = true)
    (hmark : t.hasTombstoneFor ns (contentHash P blob) = true) :
    (ingest P env t ns blob).1 = t := by
  have hcommit : (ingestCommit P env t ns blob).1 = t := by
    simp [ingestCommit, sideEffects_eq, hregular, hmark]
  rw [ingest_own hadm henv hhint hkey hns, finishIngest]
  split_ifs
  · rfl
  · exact hcommit
  · rfl

end Owner

/-- The first call on an empty store: an owner publishes its key. -/
theorem ingest_first (hadm : Admissible env blob) (henv : Unlimited env ns)
    (hpubk : isPubkeyBlob blob.data = true) (hkey : extractPubkSigningPk blob.data = pubkey)
    (hns : P.sha3_256 pubkey.toList = ns) (hverify : verifySignature P ns blob pubkey = true) :
    ∃ ack, ingest P env {} ns blob =
      (Tables.insertBlob P
        { ownerPubkeys := (∅ : Table Hash32 PubKey).insert blob.signerHint pubkey }
        ns blob, .done (.success ack)) := by
  have htargets : deletedBy env blob = [] := deletedBy_regular (isRegular_of_isPubkeyBlob hpubk)
  have hsigner : signerOf P {} ns blob = some (.owner pubkey) := by
    simp [signerOf, registeredOwner, hpubk, embeddedOwner, hkey, hns]
  have hcommit : ingestCommit P env {} ns blob = _ :=
    ingestCommit_fresh henv (fun _ => hasTombstoneFor_empty) (fun _ existing h => by simp at h)
      (by simp [getBlob_prepared, htargets])
  have hprepared : prepared P env {} ns blob =
      { ownerPubkeys := (∅ : Table Hash32 PubKey).insert blob.signerHint pubkey : Tables } := by
    simp [prepared, htargets, deleteTargets, registered, hpubk, hkey]
  rw [hprepared] at hcommit
  rw [ingest_signer (ingestChecks_eq_none hadm (.inr hpubk)) henv hsigner, finishIngest, hcommit]
  simp [Tables.hasBlob, Signer.pubkey, hverify]

/-! ## The first calls of an owner -/

/-- The blobs that are handed in. -/
def blobsOf (events : List Event) : List BlobData :=
  events.filterMap fun
    | .call _ _ blob => some blob
    | _ => none

theorem mem_blobsOf {events : List Event} (h : .call entry ns blob ∈ events) :
    blob ∈ blobsOf events :=
  List.mem_filterMap.mpr ⟨_, h, rfl⟩

/-- The surroundings calls are resumed in. -/
def envsOf (events : List Event) : List Env :=
  events.filterMap fun
    | .resume _ env => some env
    | _ => none

theorem mem_envsOf {events : List Event} {i : Nat} (h : .resume i env ∈ events) :
    env ∈ envsOf events :=
  List.mem_filterMap.mpr ⟨_, h, rfl⟩

section Sample

open Wire.Sample

def sampleEnv : Env := { now := 3000000 }

theorem errorFree_sampleEnv : sampleEnv.ErrorFree := ⟨rfl, rfl, rfl⟩

/-- The owner of namespace 1 hands in the blobs one after the other. -/
def ownerEvents (blobs : List BlobData) : List Event :=
  blobs.zipIdx.flatMap fun (blob, i) => callAlone i sampleEnv .ingest (owned 1) blob

/-- The tables after the owner of namespace 1 has published its key. -/
def published : Tables :=
  { ownerPubkeys := (∅ : Table Hash32 PubKey).insert (owned 1) (key 1) : Tables }.insertBlob
    primitives (owned 1) (pubk 1 (owned 1) 3000000)

/-- A blob of that owner. -/
def note : BlobData := signed (key 1) (owned 1) (owned 1) [1, 2, 3] 0 3000001

def noteHash : Hash32 := contentHash primitives note

/-- The tables after that blob. -/
def noted : Tables := published.insertBlob primitives (owned 1) note

/-- The owner's permanent tombstone for it. -/
def grave : BlobData :=
  signed (key 1) (owned 1) (owned 1) (makeTombstoneData noteHash) 0 3000002

end Sample

end Engine
