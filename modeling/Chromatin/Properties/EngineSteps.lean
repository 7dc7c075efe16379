import Chromatin.Engine.Ingest
import Chromatin.Infra.Run

/-!
# What one step of a node can do

The inversion lemmas every invariant of the engine is derived from.

* `Committed` lists what the last segment of a call can do to the tables and what it answers.
* `Turn` lists what one segment of a call can do: settle who the signer is, end early, or commit
  a call whose signature has just been verified (`segment_turn`).
* `tables_step_cases`, `getElem?_tasks_step`: the same for a whole node.
-/

namespace Engine

open Infra Util Wire Storage

/-! ## What a blob deletes and registers -/

/-- Neither a tombstone nor a BOMB. -/
def isRegular (blob : BlobData) : Bool := !isTombstone blob.data && !isBomb blob.data

/-- The hashes a blob deletes when it is committed. -/
def targetsOf (blob : BlobData) : List Hash32 :=
  if isTombstone blob.data then [extractTombstoneTarget blob.data]
  else if isBomb blob.data then extractBombTargets blob.data
  else []

/-- None of the transactions of the segment throws. -/
structure Env.ErrorFree (env : Env) : Prop where
  store : env.writeError = false
  register : env.registerError = false
  delete : env.deleteErrors = []

/-- Those of them whose transaction does not throw. -/
def deletedBy (env : Env) (blob : BlobData) : List Hash32 :=
  (targetsOf blob).filter (· ∉ env.deleteErrors)

section

variable (P : Primitives)

def deleteTargets (t : Tables) (ns : Hash32) (targets : List Hash32) : Tables :=
  targets.foldl (fun t target => (deleteBlobData P t ns target).1) t

/-- The tables with the key of a PUBK registered, unless its hint has one. -/
def registered (t : Tables) (blob : BlobData) : Tables :=
  if isPubkeyBlob blob.data ∧ t.getOwnerPubkey blob.signerHint = none then
    { t with
      ownerPubkeys := t.ownerPubkeys.insert blob.signerHint (extractPubkSigningPk blob.data) }
  else t

/-- The tables `store_blob` is called on. -/
def prepared (env : Env) (t : Tables) (ns : Hash32) (blob : BlobData) : Tables :=
  registered (deleteTargets P t ns (deletedBy env blob)) blob

end

variable {P : Primitives} {env : Env} {t : Tables} {ns hash ns' hash' : Hash32} {blob : BlobData}
  {task : Task} {node : Node}

theorem isTombstone_of_isRegular (h : isRegular blob = true) : isTombstone blob.data = false := by
  simp only [isRegular, Bool.and_eq_true, Bool.not_eq_true'] at h
  exact h.1

theorem targetsOf_regular (h : isRegular blob = true) : targetsOf blob = [] := by
  simp only [isRegular, Bool.and_eq_true, Bool.not_eq_true'] at h
  simp [targetsOf, h.1, h.2]

theorem deletedBy_regular (h : isRegular blob = true) : deletedBy env blob = [] := by
  simp [deletedBy, targetsOf_regular h]

theorem mem_deletedBy :
    hash ∈ deletedBy env blob ↔ hash ∈ targetsOf blob ∧ hash ∉ env.deleteErrors := by
  simp [deletedBy]

theorem deletedBy_errorFree (h : env.deleteErrors = []) : deletedBy env blob = targetsOf blob := by
  simp [deletedBy, h]

theorem isRegular_of_isPubkeyBlob (h : isPubkeyBlob blob.data = true) : isRegular blob = true := by
  have htomb : isTombstone blob.data = false := by
    by_contra htomb
    rw [isPubkeyBlob_of_isTombstone (Bool.eq_true_of_not_eq_false htomb)] at h
    exact Bool.false_ne_true h
  have hbomb : isBomb blob.data = false := by
    by_contra hbomb
    rw [isPubkeyBlob_of_isBomb (Bool.eq_true_of_not_eq_false hbomb)] at h
    exact Bool.false_ne_true h
  simp [isRegular, htomb, hbomb]

theorem getBlob_deleteTargets (targets : List Hash32) :
    (deleteTargets P t ns targets).getBlob ns' hash' =
      if ns = ns' ∧ hash' ∈ targets then none else t.getBlob ns' hash' := by
  unfold deleteTargets
  induction targets generalizing t with
  | nil => simp
  | cons target rest ih =>
    rw [List.foldl_cons, ih, getBlob_deleteBlobData]
    by_cases hns : ns = ns'
    · by_cases hmem : hash' ∈ rest
      · simp [hns, hmem]
      · by_cases heq : target = hash'
        · simp [hns, heq]
        · simp [hns, hmem, heq, Ne.symm heq]
    · simp [hns]

@[simp] theorem getOwnerPubkey_deleteTargets (targets : List Hash32) :
    (deleteTargets P t ns targets).getOwnerPubkey hash = t.getOwnerPubkey hash := by
  unfold deleteTargets
  induction targets generalizing t with
  | nil => rfl
  | cons target rest ih => rw [List.foldl_cons, ih, getOwnerPubkey_deleteBlobData]

@[simp] theorem getBlob_registered : (registered t blob).getBlob ns hash = t.getBlob ns hash := by
  unfold registered
  split <;> rfl

@[simp] theorem hasTombstoneFor_registered :
    (registered t blob).hasTombstoneFor ns hash = t.hasTombstoneFor ns hash := by
  unfold registered
  split <;> rfl

theorem getOwnerPubkey_registered : (registered t blob).getOwnerPubkey hash =
    if isPubkeyBlob blob.data ∧ t.getOwnerPubkey blob.signerHint = none ∧
    blob.signerHint = hash then
      some (extractPubkSigningPk blob.data)
    else t.getOwnerPubkey hash := by
  unfold registered
  by_cases h : isPubkeyBlob blob.data ∧ t.getOwnerPubkey blob.signerHint = none
  · simp only [h.1, h.2, and_self, if_true, true_and]
    exact getElem?_insert_eq t.ownerPubkeys _ _ _
  · rw [if_neg h, if_neg fun hall => h ⟨hall.1, hall.2.1⟩]

/-- A blob that neither deletes nor registers anything leaves the tables to `store_blob`. -/
theorem prepared_regular (hregular : isRegular blob = true)
    (hpubk : isPubkeyBlob blob.data = false) : prepared P env t ns blob = t := by
  simp [prepared, deletedBy_regular hregular, deleteTargets, registered, hpubk]

theorem prepared_tombstone (htomb : isTombstone blob.data = true) : prepared P env t ns blob =
    deleteTarget P env t ns (extractTombstoneTarget blob.data) := by
  rw [prepared, registered, if_neg (by simp [isPubkeyBlob_of_isTombstone htomb]), deletedBy,
    targetsOf, if_pos htomb, deleteTarget, deleteTargets]
  by_cases herror : extractTombstoneTarget blob.data ∈ env.deleteErrors
  · simp [herror]
  · simp [herror]

theorem getBlob_prepared : (prepared P env t ns blob).getBlob ns' hash' =
    if ns = ns' ∧ hash' ∈ deletedBy env blob then none else t.getBlob ns' hash' := by
  rw [prepared, getBlob_registered, getBlob_deleteTargets]

/-- Preparing adds no blob. -/
theorem getBlob_of_prepared {stored : BlobData}
    (h : (prepared P env t ns blob).getBlob ns' hash' = some stored) :
    t.getBlob ns' hash' = some stored := by
  rw [getBlob_prepared] at h
  split_ifs at h
  exact h

theorem getOwnerPubkey_prepared : (prepared P env t ns blob).getOwnerPubkey hash =
    if isPubkeyBlob blob.data ∧ t.getOwnerPubkey blob.signerHint = none ∧
    blob.signerHint = hash then
      some (extractPubkSigningPk blob.data)
    else t.getOwnerPubkey hash := by
  simp only [prepared, getOwnerPubkey_registered, getOwnerPubkey_deleteTargets]

/-! ## The last segment -/

theorem sideEffects_eq : sideEffects P env t ns blob =
    if isRegular blob && t.hasTombstoneFor ns (contentHash P blob) then none
    else some (deleteTargets P t ns (deletedBy env blob)) := by
  by_cases htomb : isTombstone blob.data = true
  · have hpubk := isPubkeyBlob_of_isTombstone htomb
    have hprepared : prepared P env t ns blob = _ := prepared_tombstone htomb
    rw [prepared, registered, if_neg (by simp [hpubk])] at hprepared
    simp [sideEffects, isRegular, htomb, hprepared]
  · by_cases hbomb : isBomb blob.data = true
    · simp [sideEffects, isRegular, htomb, hbomb, deletedBy, targetsOf, deleteTargets,
        List.foldl_filter, deleteTarget]
    · have hregular : isRegular blob = true := by simp [isRegular, htomb, hbomb]
      simp [sideEffects, hregular, htomb, hbomb, deletedBy_regular, deleteTargets]

/-- The registration of a PUBK throws: its transaction does, or its hint has another key. -/
def RegisterThrows (env : Env) (t : Tables) (blob : BlobData) : Prop :=
  isPubkeyBlob blob.data = true ∧ (env.registerError = true ∨
    ∃ existing, t.getOwnerPubkey blob.signerHint = some existing ∧
      existing ≠ extractPubkSigningPk blob.data)

theorem registerPubk_cases (env : Env) (t : Tables) (blob : BlobData) :
    RegisterThrows env t blob ∧ registerPubk env t blob = none ∨
      ¬ RegisterThrows env t blob ∧ registerPubk env t blob = some (registered t blob) := by
  unfold RegisterThrows registerPubk registered Tables.registerOwnerPubkey Tables.getOwnerPubkey
  by_cases hpubk : isPubkeyBlob blob.data = true
  · by_cases herror : env.registerError = true
    · simp [hpubk, herror]
    · cases hkey : t.ownerPubkeys[blob.signerHint]? with
      | none => simp [hpubk, herror]
      | some existing =>
        by_cases heq : existing = extractPubkSigningPk blob.data
        · simp [hpubk, herror, heq]
        · simp [hpubk, herror, heq]
  · simp [hpubk]

/-- A PUBK deletes nothing, so its key is registered in the tables its segment starts from. -/
theorem registerThrows_deleteTargets (targets : List Hash32) :
    RegisterThrows env (deleteTargets P t ns targets) blob ↔ RegisterThrows env t blob := by
  simp only [RegisterThrows, getOwnerPubkey_deleteTargets]

/-- **What committing a call can do**: the tables it leaves and the answer. -/
inductive Committed (P : Primitives) (env : Env) (t : Tables) (ns : Hash32) (blob : BlobData) :
    Tables → IngestResult → Prop
  | blocked : isRegular blob = true → t.hasTombstoneFor ns (contentHash P blob) = true →
      Committed P env t ns blob t (.rejection .tombstoned "blocked by tombstone")
  | mismatch : RegisterThrows env t blob →
      Committed P env t ns blob t
        (.rejection .pubkMismatch "PUBK signing pubkey differs from registered owner")
  | refused (error : IngestError) (detail : String) :
      error = .storageFull ∨ error = .quotaExceeded ∨ error = .storageError →
      (isRegular blob = true → t.hasTombstoneFor ns (contentHash P blob) = false) →
      ¬ RegisterThrows env t blob →
      Committed P env t ns blob (prepared P env t ns blob) (.rejection error detail)
  | duplicate (ack : WriteAck) : ack.status = .duplicate →
      (prepared P env t ns blob).hasBlob ns (contentHash P blob) = true →
      Committed P env t ns blob (prepared P env t ns blob) (.success ack)
  | stored (ack : WriteAck) : ack.status = .stored →
      (isRegular blob = true → t.hasTombstoneFor ns (contentHash P blob) = false) →
      (prepared P env t ns blob).getBlob ns (contentHash P blob) = none →
      Committed P env t ns blob ((prepared P env t ns blob).insertBlob P ns blob) (.success ack)

/-- `store_blob` on the prepared tables, whatever the limits. -/
theorem committed_store (limits : StoreLimits) (detail : String)
    (hclear : isRegular blob = true → t.hasTombstoneFor ns (contentHash P blob) = false)
    (hregisters : ¬ RegisterThrows env t blob) :
    Committed P env t ns blob
      (storeBlob P env.usedBytes env.writeError (prepared P env t ns blob) ns blob limits).1
      (storeOutcome detail
        (storeBlob P env.usedBytes env.writeError (prepared P env t ns blob) ns
          blob limits).2) := by
  unfold storeBlob
  dsimp only
  split
  · exact .refused _ _ (by simp) hclear hregisters
  · split
    · rename_i hblob
      exact .duplicate _ rfl hblob
    · rename_i hblob
      split
      · exact .refused _ _ (by simp) hclear hregisters
      · split
        · exact .refused _ _ (by simp) hclear hregisters
        · exact .stored _ rfl hclear (by simpa [Tables.hasBlob] using hblob)

theorem committed_ingest (env : Env) (t : Tables) (ns : Hash32) (blob : BlobData) :
    Committed P env t ns blob (ingestCommit P env t ns blob).1
    (ingestCommit P env t ns blob).2 := by
  unfold ingestCommit
  rw [sideEffects_eq]
  by_cases hblocked : isRegular blob && t.hasTombstoneFor ns (contentHash P blob)
  · simp only [hblocked, if_true]
    rw [Bool.and_eq_true] at hblocked
    exact .blocked hblocked.1 hblocked.2
  · simp only [hblocked, Bool.false_eq_true, if_false]
    rcases registerPubk_cases env (deleteTargets P t ns (deletedBy env blob)) blob with
      ⟨hthrows, hreg⟩ | ⟨hregisters, hreg⟩
    · rw [registerThrows_deleteTargets] at hthrows
      simp only [hreg]
      rw [deletedBy_regular (isRegular_of_isPubkeyBlob hthrows.1)]
      exact .mismatch hthrows
    · rw [registerThrows_deleteTargets] at hregisters
      simp only [hreg]
      exact committed_store _ _ (fun hregular => by simpa [hregular] using hblocked) hregisters

theorem committed_delete (env : Env) (t : Tables) (ns : Hash32)
    (htomb : isTombstone blob.data = true) :
    Committed P env t ns blob (deleteCommit P env t ns blob).1
    (deleteCommit P env t ns blob).2 := by
  have hirregular : isRegular blob = false := by simp [isRegular, htomb]
  unfold deleteCommit
  dsimp only
  rw [← prepared_tombstone htomb]
  refine committed_store _ _ (fun hregular => by simp [hirregular] at hregular) fun hthrows => ?_
  exact absurd hthrows.1 (by simp [isPubkeyBlob_of_isTombstone htomb])

/-! ## One segment -/

/-- The signer a waiting call has resolved. -/
def Pc.signer : Pc → Option Signer
  | .blobHash signer => some signer
  | .verify signer => some signer
  | _ => none

/-- The call has made its first turn and has not been answered. -/
def Pc.waiting : Pc → Bool
  | .start => false
  | .done _ => false
  | _ => true

/-- What the first checks of `delete_blob` leave for its later segments to rely on. -/
def Task.Sound (task : Task) : Prop :=
  task.entry = .deleteBlob → task.pc.waiting = true →
    isTombstone task.blob.data = true ∧ task.blob.ttl = 0

/-- A rejection of a check that runs before the last segment. -/
def IngestResult.early : IngestResult → Bool
  | .success _ => false
  | .rejection error _ => decide (error ≠ .tombstoned ∧ error ≠ .pubkMismatch)

/-- The call goes on, or has been rejected before its last segment. -/
def Pc.early : Pc → Bool
  | .done result => result.early
  | _ => true

section Early

theorem early_orElse {a b : Option IngestResult} (ha : ∀ r, a = some r → r.early = true)
    (hb : ∀ r, b = some r → r.early = true) : ∀ r, (a <|> b) = some r → r.early = true := by
  intro r hr
  cases a with
  | none => exact hb r hr
  | some r' => exact ha r hr

theorem early_checkTimestamp : ∀ r, checkTimestamp env blob = some r → r.early = true := by
  unfold checkTimestamp
  split_ifs <;> simp [IngestResult.early]

theorem early_checkSignaturePresent :
    ∀ r, checkSignaturePresent blob = some r → r.early = true := by
  unfold checkSignaturePresent
  split_ifs <;> simp [IngestResult.early]

theorem early_ingestChecks : ∀ r, ingestChecks env t ns blob = some r → r.early = true := by
  have hsize : ∀ r, checkSize env blob = some r → r.early = true := by
    unfold checkSize
    split_ifs <;> simp [IngestResult.early]
  have hcapacity : ∀ r, checkCapacity env blob = some r → r.early = true := by
    unfold checkCapacity
    split_ifs <;> simp [IngestResult.early]
  have hexpired : ∀ r, checkExpired env blob = some r → r.early = true := by
    unfold checkExpired
    split_ifs <;> simp [IngestResult.early]
  have hmaxTtl : ∀ r, checkMaxTtl env blob = some r → r.early = true := by
    unfold checkMaxTtl
    split_ifs <;> simp [IngestResult.early]
  have hpubkFirst : ∀ r, checkPubkFirst t ns blob = some r → r.early = true := by
    unfold checkPubkFirst
    split_ifs <;> simp [IngestResult.early]
  have hbomb : ∀ r, checkBomb blob = some r → r.early = true := by
    unfold checkBomb
    split_ifs <;> simp [IngestResult.early]
  exact early_orElse hsize (early_orElse hcapacity (early_orElse early_checkTimestamp
    (early_orElse hexpired (early_orElse hmaxTtl (early_orElse early_checkSignaturePresent
      (early_orElse hpubkFirst hbomb))))))

theorem early_deleteChecks : ∀ r, deleteChecks env blob = some r → r.early = true := by
  have hpermanent : ∀ r, checkPermanent blob = some r → r.early = true := by
    unfold checkPermanent
    split_ifs <;> simp [IngestResult.early]
  have hformat : ∀ r, checkTombstoneFormat blob = some r → r.early = true := by
    unfold checkTombstoneFormat
    split_ifs <;> simp [IngestResult.early]
  exact early_orElse early_checkTimestamp (early_orElse hpermanent
    (early_orElse early_checkSignaturePresent hformat))

end Early

/-- What resolving the signer leads to: a rejection, or a wait on behalf of a signer whose
standing is settled by the tables of that moment. -/
structure Resolves (P : Primitives) (t : Tables) (ns : Hash32) (blob : BlobData) (pc : Pc) :
    Prop where
  early : pc.early = true
  owner : ∀ pubkey, pc.signer = some (.owner pubkey) → P.sha3_256 pubkey.toList = ns
  delegate : ∀ pubkey, pc.signer = some (.delegate pubkey) →
    t.getDelegatePubkeyByHint ns blob.signerHint = some pubkey ∧ checkDelegate blob = none

section Resolve

variable {pubkey : PubKey} {pc : Pc}

theorem resolves_unsigned (hearly : pc.early = true) (hsigner : pc.signer = none) :
    Resolves P t ns blob pc where
  early := hearly
  owner pubkey h := by simp [hsigner] at h
  delegate pubkey h := by simp [hsigner] at h

theorem checkQuota_cases (signer : Signer) : checkQuota P env t ns blob signer = .blobHash signer ∨
    ∃ detail, checkQuota P env t ns blob signer = .done (.rejection .quotaExceeded detail) := by
  unfold checkQuota
  split_ifs
  · exact .inl rfl
  · dsimp only
    split_ifs
    · exact .inr ⟨_, rfl⟩
    · exact .inr ⟨_, rfl⟩
    · exact .inl rfl

theorem resolves_owner (h : P.sha3_256 pubkey.toList = ns) :
    Resolves P t ns blob (checkQuota P env t ns blob (.owner pubkey)) := by
  rcases checkQuota_cases (P := P) (t := t) (.owner pubkey) with hpc | ⟨detail, hpc⟩
  · rw [hpc]
    exact ⟨rfl, by simp [Pc.signer, h], by simp [Pc.signer]⟩
  · rw [hpc]
    exact resolves_unsigned rfl rfl

theorem resolves_delegate (h : t.getDelegatePubkeyByHint ns blob.signerHint = some pubkey)
    (hcheck : checkDelegate blob = none) :
    Resolves P t ns blob (checkQuota P env t ns blob (.delegate pubkey)) := by
  rcases checkQuota_cases (P := P) (t := t) (.delegate pubkey) with hpc | ⟨detail, hpc⟩
  · rw [hpc]
    exact ⟨rfl, by simp [Pc.signer], by simp [Pc.signer, h, hcheck]⟩
  · rw [hpc]
    exact resolves_unsigned rfl rfl

theorem resolves_resolveDelegate : Resolves P t ns blob (resolveDelegate P env t ns blob) := by
  unfold resolveDelegate
  cases hkey : t.getDelegatePubkeyByHint ns blob.signerHint with
  | none => exact resolves_unsigned rfl rfl
  | some pubkey =>
    cases hcheck : checkDelegate blob with
    | none => exact resolves_delegate hkey hcheck
    | some result =>
      refine resolves_unsigned ?_ rfl
      unfold checkDelegate at hcheck
      split_ifs at hcheck <;> cases hcheck <;> rfl

theorem resolves_resolveOther : Resolves P t ns blob (resolveOther P env t ns blob) := by
  unfold resolveOther
  split_ifs
  · exact resolves_unsigned rfl rfl
  · exact resolves_resolveDelegate

theorem resolves_resolveSigner : Resolves P t ns blob (resolveSigner P env t ns blob) := by
  unfold resolveSigner
  cases t.getOwnerPubkey blob.signerHint with
  | none => exact resolves_resolveOther
  | some ownerPk => exact resolves_unsigned rfl rfl

theorem resolves_rejectDelete : Resolves P t ns blob (rejectDelete t ns blob) := by
  unfold rejectDelete
  cases t.getDelegatePubkeyByHint ns blob.signerHint with
  | none => exact resolves_unsigned rfl rfl
  | some pubkey => exact resolves_unsigned rfl rfl

end Resolve

/-- **What one turn of a call can do**: the tables it leaves and where the call waits next. -/
inductive Turn (P : Primitives) (env : Env) (t : Tables) (task : Task) : Tables → Pc → Prop
  | resolve (pc : Pc) : Resolves P t task.ns task.blob pc →
      (pc.signer ≠ none → task.pc.signer = none) → Turn P env t task t pc
  | known (signer : Signer) (ack : WriteAck) : task.pc = .blobHash signer →
      t.hasBlob task.ns (contentHash P task.blob) = true →
      Turn P env t task t (.done (.success ack))
  | absent (signer : Signer) : task.pc = .blobHash signer → Turn P env t task t (.verify signer)
  | commit (signer : Signer) (t' : Tables) (result : IngestResult) : task.pc = .verify signer →
      verifySignature P task.ns task.blob signer.pubkey = true →
      Committed P env t task.ns task.blob t' result → Turn P env t task t' (.done result)
  | idle : Turn P env t task t task.pc

/-- A turn that answers a call with success found the blob stored, or committed it. -/
theorem turn_accepted {t' : Tables} {pc : Pc} {ack : WriteAck}
    (hturn : Turn P env t task t' pc) (hpc : pc = .done (.success ack)) :
    task.pc = .done (.success ack) ∨
      (t' = t ∧ t.hasBlob task.ns (contentHash P task.blob) = true) ∨
      Committed P env t task.ns task.blob t' (.success ack) := by
  cases hturn with
  | resolve pc hresolves _ =>
    have hearly := hresolves.early
    rw [hpc] at hearly
    exact absurd hearly Bool.false_ne_true
  | known signer ack' _ hblob => exact .inr (.inl ⟨rfl, hblob⟩)
  | absent signer _ => exact absurd hpc (by simp)
  | idle => exact .inl hpc
  | commit signer t' result _ _ hcommit =>
    obtain rfl : result = .success ack := Pc.done.inj hpc
    exact .inr (.inr hcommit)

/-- A turn that does not answer the call leaves the tables alone. -/
theorem turn_open {t' : Tables} {pc : Pc} (hturn : Turn P env t task t' pc)
    (hpc : ∀ result, pc ≠ .done result) : t' = t := by
  cases hturn with
  | commit signer t' result _ _ _ => exact absurd rfl (hpc result)
  | _ => rfl

theorem turn_ingest (env : Env) (t : Tables) (ns : Hash32) (blob : BlobData) (pc : Pc) :
    Turn P env t { entry := .ingest, ns, blob, pc } (ingestSegment P env t ns blob pc).1
      (ingestSegment P env t ns blob pc).2 := by
  cases pc with
  | start =>
    rw [ingestSegment]
    cases hchecks : ingestChecks env t ns blob with
    | none => exact .resolve _ resolves_resolveSigner fun _ => rfl
    | some result =>
      exact .resolve _ (resolves_unsigned (early_ingestChecks _ hchecks) rfl) fun _ => rfl
  | ownerHash ownerPk =>
    rw [ingestSegment]
    split_ifs with howner
    · exact .resolve _ (resolves_owner howner) fun _ => rfl
    · exact .resolve _ resolves_resolveOther fun _ => rfl
  | pubkHash =>
    rw [ingestSegment]
    split_ifs with howner
    · exact .resolve _ (resolves_unsigned rfl rfl) fun h => absurd rfl h
    · exact .resolve _ (resolves_owner (not_not.mp howner)) fun _ => rfl
  | blobHash signer =>
    rw [ingestSegment]
    split_ifs with hblob
    · exact .known signer _ rfl hblob
    · exact .absent signer rfl
  | verify signer =>
    rw [ingestSegment]
    split_ifs with hverify
    · exact .commit signer _ _ rfl hverify (committed_ingest env t ns blob)
    · exact .resolve _ (resolves_unsigned rfl rfl) fun h => absurd rfl h
  | done result => exact .idle

theorem turn_delete (env : Env) (t : Tables) (ns : Hash32) (blob : BlobData) (pc : Pc)
    (htomb : pc.waiting = true → isTombstone blob.data = true) :
    Turn P env t { entry := .deleteBlob, ns, blob, pc } (deleteSegment P env t ns blob pc).1
      (deleteSegment P env t ns blob pc).2 := by
  cases pc with
  | start =>
    rw [deleteSegment]
    cases hchecks : deleteChecks env blob with
    | some result =>
      exact .resolve _ (resolves_unsigned (early_deleteChecks _ hchecks) rfl) fun _ => rfl
    | none =>
      cases t.getOwnerPubkey blob.signerHint with
      | none => exact .resolve _ resolves_rejectDelete fun _ => rfl
      | some ownerPk => exact .resolve _ (resolves_unsigned rfl rfl) fun h => absurd rfl h
  | ownerHash ownerPk =>
    rw [deleteSegment]
    split_ifs with howner
    · exact .resolve _ ⟨rfl, by simp [Pc.signer, howner], by simp [Pc.signer]⟩ fun _ => rfl
    · exact .resolve _ resolves_rejectDelete fun _ => rfl
  | pubkHash => exact .idle
  | blobHash signer => exact .idle
  | verify signer =>
    rw [deleteSegment]
    split_ifs with hverify
    · exact .commit signer _ _ rfl hverify (committed_delete env t ns (htomb rfl))
    · exact .resolve _ (resolves_unsigned rfl rfl) fun h => absurd rfl h
  | done result => exact .idle

theorem segment_turn (env : Env) (t : Tables) (hsound : task.Sound) :
    Turn P env t task (segment P env t task).1 (segment P env t task).2 := by
  obtain ⟨entry, ns, blob, pc⟩ := task
  cases entry with
  | ingest => exact turn_ingest env t ns blob pc
  | deleteBlob => exact turn_delete env t ns blob pc fun h => (hsound rfl h).1

theorem deleteChecks_none (h : deleteChecks env blob = none) :
    isTombstone blob.data = true ∧ blob.ttl = 0 := by
  simp only [deleteChecks, Option.orElse_eq_orElse, Option.orElse_eq_or, Option.or_eq_none_iff] at h
  obtain ⟨-, hpermanent, -, hformat⟩ := h
  simp only [checkPermanent, checkTombstoneFormat] at hpermanent hformat
  constructor
  · by_contra htomb
    simp [htomb] at hformat
  · by_contra httl
    simp [httl] at hpermanent

/-- A call stays sound: its later segments do not change what it was called with. -/
theorem sound_segment (env : Env) (t : Tables) (hsound : task.Sound) :
    Task.Sound { task with pc := (segment P env t task).2 } := by
  obtain ⟨entry, ns, blob, pc⟩ := task
  rintro rfl hwaiting
  cases pc with
  | start =>
    cases hchecks : deleteChecks env blob with
    | none => exact deleteChecks_none hchecks
    | some result => simp [segment, deleteSegment, hchecks, Pc.waiting] at hwaiting
  | done result => simp [segment, deleteSegment, Pc.waiting] at hwaiting
  | ownerHash ownerPk => exact hsound rfl rfl
  | pubkHash => exact hsound rfl rfl
  | blobHash signer => exact hsound rfl rfl
  | verify signer => exact hsound rfl rfl

/-! ## One step of a node -/

/-- The `i`-th task of the next state is that of the present state, a new one, or one that made a
turn. -/
theorem getElem?_tasks_step {event : Event} {i : Nat}
    (h : (node.step P event).tasks[i]? = some task) :
    node.tasks[i]? = some task ∨
    (∃ entry ns blob, event = .call entry ns blob ∧ task = { entry, ns, blob }) ∨
    ∃ env before, event = .resume i env ∧ node.tasks[i]? = some before ∧
      task = { before with pc := (segment P env node.tables before).2 } := by
  cases event with
  | call entry ns blob =>
    simp only [Node.step, List.getElem?_append] at h
    split_ifs at h
    · exact .inl h
    · have hnew : task = { entry, ns, blob } := by
        simpa using List.mem_of_getElem? h
      exact .inr (.inl ⟨entry, ns, blob, rfl, hnew⟩)
  | expiryScan now => exact .inl h
  | resume j env =>
    rw [Node.step] at h
    cases hj : node.tasks[j]? with
    | none =>
      simp only [hj] at h
      exact .inl h
    | some before =>
      simp only [hj, List.getElem?_set] at h
      split_ifs at h with hij hlt
      · subst hij
        exact .inr (.inr ⟨env, before, rfl, hj, (Option.some.inj h).symm⟩)
      · exact .inl h

theorem getElem?_tasks_resume {i : Nat} (env : Env)
    (hi : node.tasks[i]? = some task) : (node.step P (.resume i env)).tasks[i]? =
      some { task with pc := (segment P env node.tables task).2 } := by
  have hlt : i < node.tasks.length := (List.getElem?_eq_some_iff.mp hi).1
  simp only [Node.step, hi, List.getElem?_set_self hlt]

theorem mem_tasks_step {event : Event}
    (h : task ∈ (node.step P event).tasks) :
    task ∈ node.tasks ∨
    (∃ entry ns blob, event = .call entry ns blob ∧ task = { entry, ns, blob }) ∨
    ∃ i env before, event = .resume i env ∧ node.tasks[i]? = some before ∧
      task = { before with pc := (segment P env node.tables before).2 } := by
  obtain ⟨i, hi⟩ := List.mem_iff_getElem?.mp h
  rcases getElem?_tasks_step hi with hold | hnew | hturn
  · exact .inl (List.mem_of_getElem? hold)
  · exact .inr (.inl hnew)
  · exact .inr (.inr ⟨i, hturn⟩)

/-- Every call of a node is sound. -/
def Node.Sound (node : Node) : Prop := ∀ task ∈ node.tasks, task.Sound

theorem Node.Sound.step (h : node.Sound) (event : Event) :
    (node.step P event).Sound := by
  intro task htask
  rcases mem_tasks_step htask with hold | ⟨entry, ns, blob, -, rfl⟩ | ⟨i, env, before, -, hi, rfl⟩
  · exact h task hold
  · exact fun _ hwaiting => by simp [Pc.waiting] at hwaiting
  · exact sound_segment env node.tables (h before (List.mem_of_getElem? hi))

/-- **A step leaves the tables alone, runs an expiry scan, or commits a verified call.** -/
theorem tables_step_cases (hsound : node.Sound) (event : Event) :
    (node.step P event).tables = node.tables ∨
    (∃ now, event = .expiryScan now ∧
      (node.step P event).tables = (runExpiryScan P node.tables now).1) ∨
    ∃ i env task signer result, event = .resume i env ∧ node.tasks[i]? = some task ∧
      (node.step P event).tasks[i]? = some { task with pc := .done result } ∧
      task.pc = .verify signer ∧ verifySignature P task.ns task.blob signer.pubkey = true ∧
      Committed P env node.tables task.ns task.blob (node.step P event).tables result := by
  cases event with
  | call entry ns blob => exact .inl rfl
  | expiryScan now => exact .inr (.inl ⟨now, rfl, rfl⟩)
  | resume i env =>
    cases hi : node.tasks[i]? with
    | none => exact .inl (by simp only [Node.step, hi])
    | some task =>
      have hlt : i < node.tasks.length := List.getElem?_eq_some_iff.mp hi |>.1
      have hturn := segment_turn (P := P) env node.tables (hsound task (List.mem_of_getElem? hi))
      simp only [Node.step, hi]
      generalize (segment P env node.tables task).2 = pc at hturn ⊢
      generalize (segment P env node.tables task).1 = tables at hturn ⊢
      cases hturn with
      | resolve pc _ _ => exact .inl rfl
      | known signer ack _ _ => exact .inl rfl
      | absent signer _ => exact .inl rfl
      | idle => exact .inl rfl
      | commit signer t' result hpc hverify hcommit =>
        exact .inr (.inr ⟨i, env, task, signer, result, rfl,
          hi, by simp [hlt], hpc, hverify, hcommit⟩)

/-! ## Runs -/

theorem sound_run (events : List Event) : (run (Node.step P) {} events).Sound := by
  induction events using List.reverseRecOn with
  | nil => exact fun task htask => by simp at htask
  | append_singleton events event ih =>
    rw [run_append]
    exact ih.step event

/-- **Origin rule.** Let `Q` stay true once it is. A fact about the tables that the empty tables do
not have, that no expiry scan brings about, and that a commit brings about only along with `Q`,
implies `Q` in every run. -/
theorem tables_origin {R : Tables → Prop} {Q : List Event → Prop} (hempty : ¬ R {})
    (hmono : ∀ events event, Q events → Q (events ++ [event]))
    (hscan : ∀ t now, R (runExpiryScan P t now).1 → R t)
    (hcommit : ∀ events i env task signer result t',
      (run (Node.step P) {} events).tasks[i]? = some task →
      ((run (Node.step P) {} events).step P (.resume i env)).tasks[i]? =
        some { task with pc := .done result } →
      task.pc = .verify signer → verifySignature P task.ns task.blob signer.pubkey = true →
      Committed P env (run (Node.step P) {} events).tables task.ns task.blob t' result →
      R t' → R (run (Node.step P) {} events).tables ∨ Q (events ++ [.resume i env]))
    (events : List Event) (h : R (run (Node.step P) {} events).tables) : Q events := by
  induction events using List.reverseRecOn with
  | nil => exact absurd h hempty
  | append_singleton events event ih =>
    rw [run_append, run_cons, run_nil] at h
    rcases tables_step_cases (P := P) (sound_run events) event with
      hsame | ⟨now, -, htables⟩ |
        ⟨i, env, task, signer, result, rfl, hi, hdone, hpc, hverify, hcommitted⟩
    · rw [hsame] at h
      exact hmono events event (ih h)
    · rw [htables] at h
      exact hmono events event (ih (hscan _ now h))
    · rcases hcommit events i env task signer result _ hi hdone hpc hverify hcommitted h
        with hold | hnew
      · exact hmono events _ (ih hold)
      · exact hnew

/-- Every task of a run goes back to a call. -/
theorem called_of_mem_tasks {events : List Event}
    (h : task ∈ (run (Node.step P) {} events).tasks) :
    .call task.entry task.ns task.blob ∈ events := by
  induction events using List.reverseRecOn generalizing task with
  | nil => simp at h
  | append_singleton events event ih =>
    rw [run_append] at h
    rw [List.mem_append]
    rcases mem_tasks_step h with hold | ⟨entry, ns, blob, rfl, rfl⟩ | ⟨i, env, before, -, hi, rfl⟩
    · exact .inl (ih hold)
    · exact .inr (List.mem_singleton.mpr rfl)
    · have hcall : .call before.entry before.ns before.blob ∈ events :=
        ih (List.mem_of_getElem? hi)
      exact .inl hcall

/-- Only a tombstone is deleted by; a call that commits anything else is one of `ingest`. -/
theorem entry_of_not_tombstone (hsound : task.Sound)
    (hwaiting : task.pc.waiting = true) (h : isTombstone task.blob.data = false) :
    task.entry = .ingest := by
  cases hentry : task.entry with
  | ingest => rfl
  | deleteBlob =>
    have htomb := (hsound hentry hwaiting).1
    rw [h] at htomb
    exact absurd htomb Bool.false_ne_true

end Engine
