import Chromatin.Properties.EngineCalls
import Mathlib.Data.Set.Function

/-!
# Registered owner keys

A PUBK is admitted because the key it embeds hashes to the target namespace, but the key is
registered under the signer hint of the blob, which nothing compares with that hash.

* `ownerPubkeys_origin`: every registered key was embedded in a PUBK that was handed to `ingest`
  with the hint it is registered under.
* `ownerPubkeys_bound`: if every such PUBK names the hash of its own key as its hint, every
  registered key hashes to the hint, and no call is rejected for a mismatch unless the transaction
  that registers its key throws.
* `ownerPubkeys_hijacked`: a PUBK with somebody else's hint takes that hint, and the PUBK of the
  hint's real owner is rejected from then on.
-/

namespace Engine

open Infra Util Wire Storage

variable {P : Primitives} {env : Env} {events : List Event} {task : Task}

/-- A PUBK-shaped blob was handed to `ingest`. -/
def SubmittedPubk (events : List Event) (blob : BlobData) : Prop :=
  (∃ ns, Event.call .ingest ns blob ∈ events) ∧ isPubkeyBlob blob.data = true

theorem SubmittedPubk.append {blob : BlobData} (h : SubmittedPubk events blob)
    (more : List Event) : SubmittedPubk (events ++ more) blob := by
  obtain ⟨⟨ns, hcall⟩, hpubk⟩ := h
  exact ⟨⟨ns, List.mem_append_left _ hcall⟩, hpubk⟩

/-- Where the keys of the next state come from. -/
theorem getOwnerPubkey_committed {t t' : Tables} {ns hint : Hash32} {blob : BlobData}
    {result : IngestResult} {pubkey : PubKey} (hcommit : Committed P env t ns blob t' result)
    (h : t'.getOwnerPubkey hint = some pubkey) :
    t.getOwnerPubkey hint = some pubkey ∨
      (isPubkeyBlob blob.data = true ∧ blob.signerHint = hint ∧
        extractPubkSigningPk blob.data = pubkey) := by
  have hprepared (hkey : (prepared P env t ns blob).getOwnerPubkey hint = some pubkey) :
      t.getOwnerPubkey hint = some pubkey ∨ (isPubkeyBlob blob.data = true ∧
        blob.signerHint = hint ∧ extractPubkSigningPk blob.data = pubkey) := by
    rw [getOwnerPubkey_prepared] at hkey
    split_ifs at hkey with hnew
    · exact .inr ⟨hnew.1, hnew.2.2, Option.some.inj hkey⟩
    · exact .inl hkey
  cases hcommit with
  | blocked _ _ => exact .inl h
  | mismatch _ => exact .inl h
  | refused error detail _ _ _ => exact hprepared h
  | duplicate ack _ _ => exact hprepared h
  | stored ack _ _ _ => exact hprepared h

theorem submittedPubk_of_verify {signer : Signer}
    (htask : task ∈ (run (Node.step P) {} events).tasks) (hpc : task.pc = .verify signer)
    (hpubk : isPubkeyBlob task.blob.data = true) : SubmittedPubk events task.blob := by
  have hregular := isRegular_of_isPubkeyBlob hpubk
  have htomb : isTombstone task.blob.data = false := by
    simp only [isRegular, Bool.and_eq_true, Bool.not_eq_true'] at hregular
    exact hregular.1
  have hentry : task.entry = .ingest :=
    entry_of_not_tombstone (sound_run events task htask) (by rw [hpc]; rfl) htomb
  have hcall := called_of_mem_tasks htask
  rw [hentry] at hcall
  exact ⟨⟨task.ns, hcall⟩, hpubk⟩

/-- **Every registered key was embedded in a submitted PUBK with the hint it is registered
under.** -/
theorem ownerPubkeys_origin {hint : Hash32} {pubkey : PubKey}
    (h : (run (Node.step P) {} events).tables.getOwnerPubkey hint = some pubkey) :
    ∃ blob, SubmittedPubk events blob ∧ blob.signerHint = hint ∧
      extractPubkSigningPk blob.data = pubkey := by
  refine tables_origin (R := fun t => t.getOwnerPubkey hint = some pubkey)
    (Q := fun events => ∃ blob, SubmittedPubk events blob ∧ blob.signerHint = hint ∧
      extractPubkSigningPk blob.data = pubkey) (by simp) ?_ ?_ ?_ events h
  · rintro events event ⟨blob, hsubmitted, hblob⟩
    exact ⟨blob, hsubmitted.append _, hblob⟩
  · intro t now hkey
    have hkeys : (runExpiryScan P t now).1.ownerPubkeys = t.ownerPubkeys :=
      runExpiryScan_preserves (motive := fun t' => t'.ownerPubkeys = t.ownerPubkeys) now
        (fun t entry ht => ownerPubkeys_expireEntry.trans ht) rfl
    rwa [Tables.getOwnerPubkey, hkeys] at hkey
  · intro events i env task signer result t' hi _ hpc _ hcommit hkey
    refine (getOwnerPubkey_committed hcommit hkey).imp id ?_
    rintro ⟨hpubk, hblob⟩
    have hsubmitted := submittedPubk_of_verify (List.mem_of_getElem? hi) hpc hpubk
    exact ⟨task.blob, hsubmitted.append _, hblob⟩

/-- The keys embedded in submitted PUBKs. -/
def submittedKeys (events : List Event) : Set PubKey :=
  {pubkey | ∃ blob, SubmittedPubk events blob ∧ extractPubkSigningPk blob.data = pubkey}

/-- Every submitted PUBK names the hash of the key it embeds as its signer hint. -/
def HintsMatchKeys (P : Primitives) (events : List Event) : Prop :=
  ∀ blob, SubmittedPubk events blob →
    blob.signerHint = P.sha3_256 (extractPubkSigningPk blob.data).toList

/-- A turn that ends in a mismatch commits a PUBK whose hint has another key, or whose registration
throws. -/
theorem mismatch_of_turn {t t' : Tables} {detail : String} {pc : Pc}
    (hturn : Turn P env t task t' pc) (hpc : pc = .done (.rejection .pubkMismatch detail)) :
    task.pc = pc ∨ ∃ signer, task.pc = .verify signer ∧ RegisterThrows env t task.blob := by
  cases hturn with
  | resolve pc hresolves _ =>
    have hearly := hresolves.early
    rw [hpc] at hearly
    simp [Pc.early, IngestResult.early] at hearly
  | known signer ack _ _ => simp at hpc
  | absent signer _ => simp at hpc
  | idle => exact .inl rfl
  | commit signer t' result hverify _ hcommit =>
    cases hcommit with
    | mismatch hthrows => exact .inr ⟨signer, hverify, hthrows⟩
    | blocked _ _ => simp at hpc
    | duplicate ack _ _ => simp at hpc
    | stored ack _ _ _ => simp at hpc
    | refused error detail' herror _ _ =>
      simp only [Pc.done.injEq, IngestResult.rejection.injEq] at hpc
      simp [hpc.1] at herror

theorem HintsMatchKeys.init {more : List Event} (h : HintsMatchKeys P (events ++ more)) :
    HintsMatchKeys P events :=
  fun blob hsubmitted => h blob (hsubmitted.append more)

theorem submittedKeys_append (events more : List Event) :
    submittedKeys events ⊆ submittedKeys (events ++ more) := by
  rintro pubkey ⟨blob, hsubmitted, hkey⟩
  exact ⟨blob, hsubmitted.append more, hkey⟩

/-- A mismatch needs two submitted PUBKs with one hint and different keys. -/
theorem no_mismatch {signer : Signer} {existing : PubKey}
    (hhints : HintsMatchKeys P events)
    (hcollision : Set.InjOn (fun pubkey : PubKey => P.sha3_256 pubkey.toList)
      (submittedKeys events))
    (htask : task ∈ (run (Node.step P) {} events).tasks) (hpc : task.pc = .verify signer)
    (hpubk : isPubkeyBlob task.blob.data = true)
    (hkey : (run (Node.step P) {} events).tables.getOwnerPubkey task.blob.signerHint =
      some existing) :
    existing = extractPubkSigningPk task.blob.data := by
  obtain ⟨blob, hsubmitted, hhint, rfl⟩ := ownerPubkeys_origin hkey
  have hsubmitted' := submittedPubk_of_verify htask hpc hpubk
  refine hcollision ⟨blob, hsubmitted, rfl⟩ ⟨task.blob, hsubmitted', rfl⟩ ?_
  calc P.sha3_256 (extractPubkSigningPk blob.data).toList
      = blob.signerHint := (hhints blob hsubmitted).symm
    _ = task.blob.signerHint := hhint
    _ = P.sha3_256 (extractPubkSigningPk task.blob.data).toList := hhints task.blob hsubmitted'

/-- **Owner keys are bound to their hashes as long as the hints of the submitted PUBKs are.** In
every run in which each PUBK handed to `ingest` names the hash of its own key as signer hint, and
no two of those keys collide, every registered key hashes to the hint it is registered under, and
no call ends with a key mismatch if no transaction of `register_owner_pubkey` throws. -/
theorem ownerPubkeys_bound (P : Primitives) (events : List Event)
    (hhints : HintsMatchKeys P events)
    (hcollision : Set.InjOn (fun pubkey : PubKey => P.sha3_256 pubkey.toList)
      (submittedKeys events))
    (hregister : ∀ i env, .resume i env ∈ events → env.registerError = false) :
    (∀ hint pubkey, (run (Node.step P) {} events).tables.getOwnerPubkey hint = some pubkey →
      P.sha3_256 pubkey.toList = hint) ∧
    ∀ task ∈ (run (Node.step P) {} events).tasks, ∀ detail,
      task.pc ≠ .done (.rejection .pubkMismatch detail) := by
  constructor
  · intro hint pubkey hkey
    obtain ⟨blob, hsubmitted, rfl, rfl⟩ := ownerPubkeys_origin hkey
    exact (hhints blob hsubmitted).symm
  · induction events using List.reverseRecOn with
    | nil => exact fun task htask => by simp at htask
    | append_singleton events event ih =>
      have hcollision' := hcollision.mono (submittedKeys_append events [event])
      specialize ih hhints.init hcollision' fun i env hmem =>
        hregister i env (List.mem_append_left _ hmem)
      intro task htask detail hpc
      rw [run_append] at htask
      rcases mem_tasks_step htask with
        hold | ⟨entry, ns, blob, -, rfl⟩ | ⟨i, env, before, rfl, hi, rfl⟩
      · exact ih task hold detail hpc
      · simp at hpc
      · have hmem : before ∈ (run (Node.step P) {} events).tasks := List.mem_of_getElem? hi
        have hturn := segment_turn (P := P) env (run (Node.step P) {} events).tables
          (sound_run events before hmem)
        rcases mismatch_of_turn hturn hpc with
          hidle | ⟨signer, hverify, hpubk, herror | ⟨existing, hkey, hne⟩⟩
        · exact ih before hmem detail (hidle.trans hpc)
        · rw [hregister i env (List.mem_append_right _ List.mem_cons_self)] at herror
          exact Bool.false_ne_true herror
        · exact hne (no_mismatch hhints.init hcollision' hmem hverify hpubk hkey)

/-! ## Somebody else's hint -/

section Sample

open Wire.Sample

-- the list of the PUBK's bytes is as deep as it is long
set_option maxRecDepth 20000

/-- The PUBK of key 1, for its own namespace, under the hint of key 2, and then that of key 2. -/
def hijackRun : List Event :=
  callAlone 0 sampleEnv .ingest (owned 1) (pubk 1 (owned 2) 3000000) ++
    callAlone 1 sampleEnv .ingest (owned 2) (pubk 2 (owned 2) 3000000)

/-- **A hint can be taken by a foreign key.** Key 1 publishes itself for its own namespace under
the hint of key 2. From then on that hint belongs to key 1, and the PUBK of the owner of
namespace 2, validly signed, is rejected with a mismatch. -/
theorem ownerPubkeys_hijacked :
    Set.InjOn (fun pubkey : PubKey => primitives.sha3_256 pubkey.toList) (submittedKeys hijackRun) ∧
    (run (Node.step primitives) {} hijackRun).tables.getOwnerPubkey (owned 2) = some (key 1) ∧
    primitives.sha3_256 (key 1).toList ≠ owned 2 ∧
    primitives.sha3_256 (key 2).toList = owned 2 ∧
    verifySignature primitives (owned 2) (pubk 2 (owned 2) 3000000) (key 2) = true ∧
    { entry := .ingest, ns := owned 2, blob := pubk 2 (owned 2) 3000000,
      pc := .done (.rejection .pubkMismatch "PUBK signing pubkey differs from registered owner") } ∈
      (run (Node.step primitives) {} hijackRun).tasks := by
  have hkeys : ∀ a ∈ blobsOf hijackRun, ∀ b ∈ blobsOf hijackRun,
      primitives.sha3_256 (extractPubkSigningPk a.data).toList =
        primitives.sha3_256 (extractPubkSigningPk b.data).toList →
      extractPubkSigningPk a.data = extractPubkSigningPk b.data := by
    decide +kernel
  refine ⟨?_, ?_, ?_, ?_, ?_, ?_⟩
  case refine_1 =>
    rintro _ ⟨a, ⟨⟨_, ha⟩, -⟩, rfl⟩ _ ⟨b, ⟨⟨_, hb⟩, -⟩, rfl⟩
    exact hkeys a (mem_blobsOf ha) b (mem_blobsOf hb)
  all_goals decide +kernel

/-- The PUBKs of keys 1 and 2, each under its own hint. -/
def ownersRun : List Event :=
  callAlone 0 sampleEnv .ingest (owned 1) (pubk 1 (owned 1) 3000000) ++
    callAlone 1 sampleEnv .ingest (owned 2) (pubk 2 (owned 2) 3000000)

/-- Both keys are registered under their own hints. -/
theorem ownerPubkeys_bound_pubk :
    (∃ node, node = run (Node.step primitives) {} ownersRun ∧
      node.tables.getOwnerPubkey (owned 1) = some (key 1) ∧
      node.tables.getOwnerPubkey (owned 2) = some (key 2) ∧
      (∀ hint pubkey, node.tables.getOwnerPubkey hint = some pubkey →
        primitives.sha3_256 pubkey.toList = hint) ∧
      ∀ task ∈ node.tasks, ∀ detail, task.pc ≠ .done (.rejection .pubkMismatch detail)) := by
  have hhints : ∀ blob ∈ blobsOf ownersRun,
      blob.signerHint = primitives.sha3_256 (extractPubkSigningPk blob.data).toList := by
    decide +kernel
  have hkeys : ∀ a ∈ blobsOf ownersRun, ∀ b ∈ blobsOf ownersRun,
      primitives.sha3_256 (extractPubkSigningPk a.data).toList =
        primitives.sha3_256 (extractPubkSigningPk b.data).toList →
      extractPubkSigningPk a.data = extractPubkSigningPk b.data := by
    decide +kernel
  have henvs : ∀ env ∈ envsOf ownersRun, env.registerError = false := by decide +kernel
  refine ⟨_, rfl, by decide +kernel, by decide +kernel,
    ownerPubkeys_bound primitives ownersRun (fun blob h => ?_) ?_ fun i env h =>
      henvs env (mem_envsOf h)⟩
  · obtain ⟨⟨ns, hcall⟩, -⟩ := h
    exact hhints blob (mem_blobsOf hcall)
  · rintro _ ⟨a, ⟨⟨_, ha⟩, -⟩, rfl⟩ _ ⟨b, ⟨⟨_, hb⟩, -⟩, rfl⟩
    exact hkeys a (mem_blobsOf ha) b (mem_blobsOf hb)

end Sample

end Engine
