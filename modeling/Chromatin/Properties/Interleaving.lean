import Chromatin.Properties.Authorization
import Chromatin.Properties.StoreIndexes

/-!
# What interleaved calls see when they commit

A call checks some of what it relies on in its last segment, and some of it before its last
suspensions.

* `no_tombstoned_blob` — the tombstone of a blob is looked up in the segment that stores the blob,
  so no interleaving leaves a blob beside a tombstone for it, as long as no deletion throws
* `delegation_at_commit` — the delegation of a signer is looked up before the blob is hashed and the
  signature checked, so a delegate's write relies on nobody revoking the delegation meanwhile
-/

namespace Engine

open Infra Util Wire Storage

variable {P : Primitives} {env : Env} {t t' : Tables} {ns hash ns' : Hash32} {blob : BlobData}

/-! ## Tombstones -/

/-- No blob that a tombstone is for is stored, other than tombstones and BOMBs. -/
def NoTombstonedBlob (t : Tables) : Prop :=
  ∀ ns hash blob, t.hasTombstoneFor ns hash = true → t.getBlob ns hash = some blob →
    isTombstone blob.data = true ∨ isBomb blob.data = true

/-- Nothing but a stored tombstone makes a mark. -/
theorem mark_of_deleteBlobData {target : Hash32}
    (h : (deleteBlobData P t ns' target).1.hasTombstoneFor ns hash = true) :
    t.hasTombstoneFor ns hash = true := by
  unfold deleteBlobData at h
  cases hblob : t.getBlob ns' target with
  | none =>
    rw [hblob] at h
    exact h
  | some blob =>
    rw [hblob] at h
    dsimp only at h
    rw [hasTombstoneFor_removeBlob, Bool.and_eq_true] at h
    exact h.2

theorem mark_of_prepared (h : (prepared P env t ns' blob).hasTombstoneFor ns hash = true) :
    t.hasTombstoneFor ns hash = true := by
  rw [prepared, hasTombstoneFor_registered] at h
  revert h
  refine List.foldlRecOn (motive := fun t' : Tables => t'.hasTombstoneFor ns hash = true →
    t.hasTombstoneFor ns hash = true) _ _ id ?_
  intro t' ih target _ h
  exact ih (mark_of_deleteBlobData h)

theorem mark_of_expireEntry {entry : ExpiryEntry}
    (h : (expireEntry P t entry).hasTombstoneFor ns hash = true) :
    t.hasTombstoneFor ns hash = true := by
  unfold expireEntry at h
  cases hblob : t.getBlob entry.ns entry.hash with
  | none =>
    rw [hblob] at h
    exact h
  | some blob =>
    simp only [hblob, Tables.hasTombstoneFor] at h
    split_ifs at h
    · rw [getElem?_erase_eq] at h
      split_ifs at h
      · exact absurd h (by simp)
      · exact h
    · exact h

theorem NoTombstonedBlob.prepared (h : NoTombstonedBlob t) :
    NoTombstonedBlob (prepared P env t ns blob) :=
  fun ns' hash' blob' hmark hblob =>
    h ns' hash' blob' (mark_of_prepared hmark) (getBlob_of_prepared hblob)

/-- The segment that stores a blob has just looked for its tombstone, and the one that stores a
tombstone has just deleted its target. -/
theorem NoTombstonedBlob.committed {result : IngestResult} (h : NoTombstonedBlob t)
    (hdelete : env.deleteErrors = []) (hcommit : Committed P env t ns blob t' result) :
    NoTombstonedBlob t' := by
  cases hcommit with
  | blocked _ _ => exact h
  | mismatch _ => exact h
  | refused error detail _ _ _ => exact NoTombstonedBlob.prepared h
  | duplicate ack _ _ => exact NoTombstonedBlob.prepared h
  | stored ack _ hclear _ =>
    intro ns' hash' blob' hmark hblob
    rw [hasTombstoneFor_insertBlob, Bool.or_eq_true] at hmark
    rw [getBlob_insertBlob] at hblob
    split_ifs at hblob with hkey
    · obtain ⟨rfl, rfl⟩ := hkey
      obtain rfl := Option.some.inj hblob
      -- a regular blob had no tombstone, and makes none
      by_contra hneither
      rw [not_or, Bool.not_eq_true, Bool.not_eq_true] at hneither
      have hregular : isRegular blob = true := by simp [isRegular, hneither]
      rcases hmark with hnew | hold
      · simp [hneither.1] at hnew
      · have hmark := mark_of_prepared hold
        rw [hclear hregular] at hmark
        exact absurd hmark Bool.false_ne_true
    · rcases hmark with hnew | hold
      · rw [Bool.and_eq_true, decide_eq_true_iff] at hnew
        obtain ⟨htomb, rfl, rfl⟩ := hnew
        rw [getBlob_prepared, deletedBy_errorFree hdelete,
          if_pos ⟨rfl, by simp [targetsOf, htomb]⟩] at hblob
        exact absurd hblob (by simp)
      · exact NoTombstonedBlob.prepared h ns' hash' blob' hold hblob

/-- **No tombstoned blob is stored**, after any interleaving of calls and expiry scans in which no
deletion throws. -/
theorem no_tombstoned_blob (P : Primitives) (events : List Event)
    (hdelete : ∀ i env, .resume i env ∈ events → env.deleteErrors = []) :
    NoTombstonedBlob (run (Node.step P) {} events).tables := by
  refine tables_rule (fun ns hash blob h => absurd h (by simp))
    (fun env t t' ns blob result hresume _ h hcommit => ?_) fun t now _ h => ?_
  · obtain ⟨i, hmem⟩ := hresume
    exact h.committed (hdelete i env hmem) hcommit
  refine runExpiryScan_preserves now (fun t entry ht => ?_) h
  intro ns hash blob hmark hblob
  rw [getBlob_expireEntry] at hblob
  split_ifs at hblob
  exact ht ns hash blob (mark_of_expireEntry hmark) hblob

section Sample

open Wire.Sample

/-- The owner's blob is deleted and handed in again. -/
def deletionRun : List Event :=
  ownerEvents [pubk 1 (owned 1) 3000000, note] ++
    (callAlone 2 sampleEnv .deleteBlob (owned 1) grave ++
      callAlone 3 sampleEnv .ingest (owned 1) note)

-- the list of the PUBK's bytes is as deep as it is long
set_option maxRecDepth 20000 in
/-- Its tombstone keeps it out. -/
theorem no_tombstoned_blob_grave :
    (run (Node.step primitives) {} deletionRun).tables.hasTombstoneFor (owned 1) noteHash = true ∧
      NoTombstonedBlob (run (Node.step primitives) {} deletionRun).tables := by
  have henvs : ∀ env ∈ envsOf deletionRun, env.deleteErrors = [] := by decide +kernel
  exact ⟨by decide +kernel,
    no_tombstoned_blob primitives deletionRun fun i env hmem => henvs env (mem_envsOf hmem)⟩

end Sample

/-! ## Delegations -/

/-- A delegation blob for the key is stored in the namespace. -/
def Delegated (t : Tables) (ns : Hash32) (pubkey : PubKey) : Prop :=
  ∃ hash, Delegates t ns pubkey hash

/-- Whether the step deletes what is stored under the hash: a call whose signature verifies names it
and the deletion does not throw, or it is due to expire. -/
def Node.deletes (P : Primitives) (node : Node) (ns hash : Hash32) : Event → Bool
  | .call _ _ _ => false
  | .expiryScan now => node.tables.scheduled now ns hash
  | .resume i env => (node.tasks[i]?).any fun task =>
    match task.pc with
    | .verify signer => verifySignature P task.ns task.blob signer.pubkey && task.ns == ns &&
        (deletedBy env task.blob).contains hash
    | _ => false

/-- A delegation blob for the key is stored in the namespace that the step does not delete. -/
def Spared (P : Primitives) (node : Node) (event : Event) (ns : Hash32) (pubkey : PubKey) : Prop :=
  ∃ hash, Delegates node.tables ns pubkey hash ∧ node.deletes P ns hash event = false

/-- The delegations of a namespace can be searched for one with a property. -/
theorem exists_delegates_iff (t : Tables) (ns : Hash32) (pubkey : PubKey) (p : Hash32 → Bool) :
    (∃ hash, Delegates t ns pubkey hash ∧ p hash = true) ↔ t.blobs.toList.any (fun entry =>
      (splitBlobKey entry.1).1 == ns && isDelegation entry.2.data &&
        extractDelegatePubkey entry.2.data == pubkey && p (splitBlobKey entry.1).2) = true := by
  rw [any_toList_iff]
  constructor
  · rintro ⟨hash, ⟨blob, hblob, hdelegation, rfl⟩, hp⟩
    refine ⟨makeBlobKey ns hash, blob, hblob, ?_⟩
    simp [splitBlobKey_makeBlobKey, hdelegation, hp]
  · rintro ⟨key, blob, hblob, hmatch⟩
    simp only [Bool.and_eq_true, beq_iff_eq] at hmatch
    obtain ⟨⟨⟨rfl, hdelegation⟩, rfl⟩, hp⟩ := hmatch
    refine ⟨(splitBlobKey key).2, ⟨blob, ?_, hdelegation, rfl⟩, hp⟩
    rw [Tables.getBlob, makeBlobKey_splitBlobKey, hblob]

instance (t : Tables) (ns : Hash32) (pubkey : PubKey) : Decidable (Delegated t ns pubkey) :=
  decidable_of_iff _ ((exists_delegates_iff t ns pubkey fun _ => true).symm.trans
    (by simp [Delegated]))

instance (P : Primitives) (node : Node) (event : Event) (ns : Hash32) (pubkey : PubKey) :
    Decidable (Spared P node event ns pubkey) :=
  decidable_of_iff _ ((exists_delegates_iff node.tables ns pubkey
    fun hash => !node.deletes P ns hash event).symm.trans (by simp [Spared]))

/-- While a call is waiting that was resolved to a delegate, the step does not delete all the
delegations of the delegate's key. -/
def KeepsDelegations (P : Primitives) (node : Node) (event : Event) : Prop :=
  ∀ task ∈ node.tasks, ∀ pubkey, task.pc.signer = some (.delegate pubkey) →
    Delegated node.tables task.ns pubkey → Spared P node event task.ns pubkey

instance (P : Primitives) (node : Node) (event : Event) :
    Decidable (KeepsDelegations P node event) :=
  decidable_of_iff (∀ task ∈ node.tasks, ∀ signer ∈ task.pc.signer,
      signer = .delegate signer.pubkey → Delegated node.tables task.ns signer.pubkey →
        Spared P node event task.ns signer.pubkey) <| by
    refine forall₂_congr fun task _ =>
      ⟨fun h pubkey hsigner => h _ hsigner rfl, fun h signer hsigner heq => ?_⟩
    exact h signer.pubkey (hsigner.trans (congrArg some heq))

/-- What a step does not delete stays. -/
theorem getBlob_step {node : Node} {event : Event} (hsound : node.Sound)
    (hblob : node.tables.getBlob ns hash = some blob)
    (hkept : node.deletes P ns hash event = false) :
    (node.step P event).tables.getBlob ns hash = some blob := by
  rcases tables_step_cases (P := P) hsound event with
    hsame | ⟨now, rfl, hscan⟩ | ⟨i, env, task, signer, result, rfl, hi, -, hpc, hverify, hcommit⟩
  · rw [hsame, hblob]
  · rw [Node.deletes] at hkept
    rw [hscan, Storage.getBlob_runExpiryScan, hkept, if_neg Bool.false_ne_true, hblob]
  · refine getBlob_committed_of_stored hcommit hblob fun hns hmem => ?_
    simp [Node.deletes, hi, hpc, hns ▸ hverify, hns, hmem] at hkept

theorem Spared.step {node : Node} {event : Event} {pubkey : PubKey} (hsound : node.Sound)
    (h : Spared P node event ns pubkey) : Delegated (node.step P event).tables ns pubkey := by
  obtain ⟨hash, ⟨blob, hblob, hdelegation⟩, hkept⟩ := h
  exact ⟨hash, blob, getBlob_step hsound hblob hkept, hdelegation⟩

/-- Every call that was resolved to a delegate has its delegation stored. -/
def Backed (node : Node) : Prop :=
  ∀ task ∈ node.tasks, ∀ pubkey, task.pc.signer = some (.delegate pubkey) →
    Delegated node.tables task.ns pubkey

/-- A turn that leaves the call with a delegate for its signer found it so, or found its
delegation; and it leaves the tables as they are. -/
theorem turn_delegate {task : Task} {pc : Pc} {pubkey : PubKey} (hturn : Turn P env t task t' pc)
    (hsigner : pc.signer = some (.delegate pubkey)) :
    task.pc.signer = some (.delegate pubkey) ∨ t' = t ∧ Delegated t task.ns pubkey := by
  cases hturn with
  | known signer ack _ _ => exact absurd hsigner (by simp [Pc.signer])
  | commit signer t' result _ _ _ => exact absurd hsigner (by simp [Pc.signer])
  | idle => exact .inl hsigner
  | absent signer hpc =>
    rw [hpc]
    exact .inl hsigner
  | resolve pc hresolves _ =>
    obtain ⟨hlookup, -⟩ := hresolves.delegate pubkey hsigner
    obtain ⟨delegationHash, delegation, -, hdelegation⟩ :=
      getDelegatePubkeyByHint_eq_some.mp hlookup
    exact .inr ⟨rfl, delegationHash, delegation, hdelegation⟩

theorem Backed.step {node : Node} {event : Event} (h : Backed node) (hsound : node.Sound)
    (hkeeps : KeepsDelegations P node event) : Backed (node.step P event) := by
  intro task htask pubkey hsigner
  rcases mem_tasks_step htask with
    hold | ⟨entry, ns, blob, -, rfl⟩ | ⟨i, env, before, rfl, hi, rfl⟩
  · exact (hkeeps task hold pubkey hsigner (h task hold pubkey hsigner)).step hsound
  · exact absurd hsigner (by simp [Pc.signer])
  · have hmem := List.mem_of_getElem? hi
    have hturn := segment_turn (P := P) env node.tables (hsound before hmem)
    rcases turn_delegate hturn hsigner with hbefore | ⟨hsame, hdelegated⟩
    · exact (hkeeps before hmem pubkey hbefore (h before hmem pubkey hbefore)).step hsound
    · have htables : (node.step P (.resume i env)).tables = node.tables := by
        simp only [Node.step, hi]
        exact hsame
      rw [htables]
      exact hdelegated

/-- In this step a call on behalf of a delegate only stores a blob while a delegation for the
delegate's key is stored in the namespace. -/
def ValidAtCommit (P : Primitives) (node : Node) (event : Event) : Prop :=
  ∀ i ns blob pubkey, Stores P i ns blob (.delegate pubkey) node event →
    Delegated node.tables ns pubkey

/-- **Delegations at the commit.** In every run in which no step deletes the last delegation of a
key while a call waits that was resolved to it, every delegate's blob is stored while a delegation
for the delegate is stored. -/
theorem delegation_at_commit (P : Primitives) (events : List Event)
    (hkeeps : AllSteps (Node.step P) (KeepsDelegations P) {} events) :
    AllSteps (Node.step P) (ValidAtCommit P) {} events := by
  refine allSteps_of_forall ?_
  rintro before event after rfl
  have hbacked : Backed (run (Node.step P) {} before) := by
    have hrun : (run (Node.step P) {} before).Sound ∧ Backed (run (Node.step P) {} before) := by
      refine run_invariant (I := fun node => node.Sound ∧ Backed node) ?_ ⟨?_, ?_⟩
        (allSteps_append.mp hkeeps).1
      · rintro node event ⟨hsound, hbacked⟩ hkeeps
        exact ⟨hsound.step event, hbacked.step hsound hkeeps⟩
      · exact fun task htask => absurd htask (by simp)
      · exact fun task htask => absurd htask (by simp)
    exact hrun.2
  rintro i ns blob pubkey ⟨env, task, ack, rfl, hi, rfl, rfl, hpc, -, -⟩
  exact hbacked task (List.mem_of_getElem? hi) pubkey (by rw [hpc]; rfl)

section Sample

open Wire.Sample

set_option maxRecDepth 20000

/-- The tombstone for the delegation. -/
def revocation : BlobData :=
  signed (key 1) (owned 1) (owned 1)
    (makeTombstoneData (contentHash primitives (grant 3000001))) 0 3000003

/-- The owner's key and a delegation are stored. -/
def delegationRun : List Event :=
  ownerEvents [signed (key 1) (owned 1) (owned 1)
    (makePubkData (key 1) (FixedBytes.fill 1568 0)) 0 3000000, grant 3000001]

/-- The delegate's call is resolved and waits for the signature check while the delegation is
deleted. -/
def revokedRun : List Event :=
  delegationRun ++ [.call .ingest (owned 1) letter, .resume 2 sampleEnv, .resume 2 sampleEnv] ++
    callAlone 3 sampleEnv .deleteBlob (owned 1) revocation

/-- The delegate's blob is stored while the delegation is. -/
theorem delegation_at_commit_letter :
    AllSteps (Node.step primitives) (ValidAtCommit primitives) {}
      (delegationRun ++ callAlone 2 sampleEnv .ingest (owned 1) letter) :=
  delegation_at_commit primitives _ (by decide)

/-- The deletion of the delegation has been answered with success; the delegate's blob is stored in
the next step. -/
theorem delegation_revoked_before_commit :
    let node := run (Node.step primitives) {} revokedRun
    (∃ ack, (node.tasks[3]?).map Task.pc = some (.done (.success ack))) ∧
      Stores primitives 2 (owned 1) letter (.delegate (key 2)) node (.resume 2 sampleEnv) ∧
      ¬ Delegated node.tables (owned 1) (key 2) := by
  refine ⟨⟨{ blobHash := contentHash primitives revocation, seqNum := 3 }, by decide⟩, ?_,
    by decide⟩
  let task : Task :=
    { entry := .ingest, ns := owned 1, blob := letter, pc := .verify (.delegate (key 2)) }
  exact ⟨sampleEnv, task, { blobHash := contentHash primitives letter, seqNum := 4 }, rfl,
    by decide, rfl, rfl, rfl, rfl, by decide⟩

end Sample

end Engine
