import Chromatin.Properties.Deletion
import Chromatin.Properties.SequenceIndex

/-!
# When `ingest` stores a blob

`Ready` is what `ingest` looks for in the tables and in the configuration besides the limits, the
clock and the marks of tombstones. A blob that those do not hold back is stored exactly when the
node is ready for it (`getBlob_ingest_iff`).

* `wellFormed_stored` : what the first checks of a call demand of a blob, every stored blob has.
* `marksBacked_run` : a mark that blocks a hash stems from a tombstone that is stored.
-/

namespace Engine

open Infra Util Wire Storage

variable {P : Primitives} {env : Env} {t : Tables} {ns hash : Hash32} {blob : BlobData}

/-- The tables have the key the blob is signed with, and its own key does not contradict them. -/
structure Ready (P : Primitives) (env : Env) (t : Tables) (ns : Hash32) (blob : BlobData) :
    Prop where
  published : t.hasOwnerPubkey ns = true ∨ isPubkeyBlob blob.data = true
  signer : ∃ signer, signerOf P t ns blob = some signer ∧
    verifySignature P ns blob signer.pubkey = true
  key : isPubkeyBlob blob.data = true → ∀ existing,
    t.getOwnerPubkey blob.signerHint = some existing → existing = extractPubkSigningPk blob.data
  maxTtl : checkMaxTtl env blob = none

/-- Neither too large for the node nor outside of its time window. -/
structure Deliverable (env : Env) (blob : BlobData) : Prop where
  size : checkSize env blob = none
  timestamp : checkTimestamp env blob = none
  live : isBlobExpired blob env.now = false

/-- What `ingest` and `delete_blob` demand of every blob. -/
structure WellFormed (blob : BlobData) : Prop where
  signature : checkSignaturePresent blob = none
  bomb : checkBomb blob = none

theorem checkExpired_eq_none_iff : checkExpired env blob = none ↔
    isBlobExpired blob env.now = false := by
  unfold checkExpired isBlobExpired
  by_cases httl : blob.ttl = 0
  · simp [httl]
  · have hpos : blob.ttl > 0 := UInt32.pos_iff_ne_zero.mpr httl
    simp [httl, hpos]

theorem admissible_iff (henv : Unlimited env ns) : Admissible env blob ↔
    Deliverable env blob ∧ WellFormed blob ∧ checkMaxTtl env blob = none := by
  constructor
  · intro h
    exact ⟨⟨h.size, h.timestamp, checkExpired_eq_none_iff.mp h.expired⟩,
      ⟨h.signature, h.bomb⟩, h.maxTtl⟩
  · rintro ⟨hdeliver, hformed, hmaxTtl⟩
    refine ⟨hdeliver.size, ?_, hdeliver.timestamp,
      checkExpired_eq_none_iff.mpr hdeliver.live, hmaxTtl, hformed.signature, hformed.bomb⟩
    simp [checkCapacity, henv.capacity]

/-! ## Calls that are refused -/

/-- Without an embedded key that owns the namespace and without a delegation the call ends. -/
theorem runAlone_resolveOther_none (n : Nat)
    (h : (if isPubkeyBlob blob.data then (embeddedOwner P ns blob).map Signer.owner
      else (delegateOf t ns blob).map .delegate) = none) :
    (runAlone P env n t { entry := .ingest, ns, blob, pc := resolveOther P env t ns blob }).1 =
        t := by
  unfold resolveOther
  by_cases hpubk : isPubkeyBlob blob.data = true
  · simp only [hpubk, if_true, embeddedOwner] at h ⊢
    split_ifs at h with hns
    · simp at h
    · cases n with
      | zero => rfl
      | succ n =>
        rw [runAlone]
        simp only [segment, ingestSegment, ne_eq, hns, not_false_eq_true, if_true]
        rw [runAlone_done]
  · simp only [hpubk, Bool.false_eq_true, if_false, delegateOf] at h ⊢
    unfold resolveDelegate
    cases hkey : t.getDelegatePubkeyByHint ns blob.signerHint with
    | none =>
      dsimp only
      rw [runAlone_done]
    | some pubkey =>
      cases hcheck : checkDelegate blob with
      | none => simp [hkey, hcheck] at h
      | some result =>
        dsimp only
        rw [runAlone_done]

/-- A call without an accepted signer changes nothing. -/
theorem ingest_unsigned (hsigner : signerOf P t ns blob = none) :
    (ingest P env t ns blob).1 = t := by
  by_cases hchecks : ingestChecks env t ns blob = none
  · rw [ingest_of_checks hchecks]
    unfold signerOf registeredOwner at hsigner
    unfold resolveSigner
    cases hkey : t.getOwnerPubkey blob.signerHint with
    | none =>
      rw [hkey] at hsigner
      exact runAlone_resolveOther_none 4 hsigner
    | some ownerPk =>
      rw [hkey] at hsigner
      rw [runAlone]
      by_cases hns : P.sha3_256 ownerPk.toList = ns
      · simp [Option.filter, hns] at hsigner
      · simp only [segment, ingestSegment, hns, if_false]
        refine runAlone_resolveOther_none 3 ?_
        simpa [Option.filter, hns] using hsigner
  · exact ingest_of_checks_fail hchecks

/-- **A blob is stored exactly when the node is ready for it**, if it is not there and neither the
limits nor the clock nor a tombstone holds it back. -/
theorem getBlob_ingest_iff (henv : Unlimited env ns) (hdeliver : Deliverable env blob)
    (hformed : WellFormed blob) (hclear : t.hasTombstoneFor ns (contentHash P blob) = false)
    (hfresh : t.getBlob ns (contentHash P blob) = none) :
    (ingest P env t ns blob).1.getBlob ns (contentHash P blob) = some blob ↔
    Ready P env t ns blob := by
  have hchanged (h : (ingest P env t ns blob).1.getBlob ns (contentHash P blob) = some blob) :
      (ingest P env t ns blob).1 ≠ t := by
    intro hsame
    rw [hsame, hfresh] at h
    exact absurd h (by simp)
  constructor
  · intro h
    -- each condition that fails leaves the tables as they were
    have hchecks : ingestChecks env t ns blob = none := by
      by_contra hfail
      exact hchanged h (ingest_of_checks_fail hfail)
    obtain ⟨hadmissible, hfirst⟩ := ingestChecks_eq_none_iff.mp hchecks
    cases hsigner : signerOf P t ns blob with
    | none => exact absurd (ingest_unsigned hsigner) (hchanged h)
    | some signer =>
      have hingest := ingest_signer hchecks henv hsigner
      have hmissing : t.hasBlob ns (contentHash P blob) = false := by simp [Tables.hasBlob, hfresh]
      rw [finishIngest, hmissing] at hingest
      have hverify : verifySignature P ns blob signer.pubkey = true := by
        by_contra hforged
        simp only [Bool.false_eq_true, if_false, hforged] at hingest
        exact hchanged h (by rw [hingest])
      refine ⟨?_, ⟨signer, hsigner, hverify⟩, fun hpubk existing hexisting =>
        ?_, hadmissible.maxTtl⟩
      · by_contra hnone
        rw [not_or] at hnone
        simp [checkPubkFirst, hnone] at hfirst
      · by_contra hne
        simp only [Bool.false_eq_true, if_false, hverify, if_true,
          ingestCommit_mismatch hpubk hclear hexisting hne] at hingest
        exact hchanged h (by rw [hingest])
  · intro hready
    have hadmissible := (admissible_iff henv).mpr ⟨hdeliver, hformed, hready.maxTtl⟩
    obtain ⟨signer, hsigner, hverify⟩ := hready.signer
    have hingest := ingest_signer (ingestChecks_eq_none hadmissible hready.published) henv hsigner
    have hmissing : t.hasBlob ns (contentHash P blob) = false := by simp [Tables.hasBlob, hfresh]
    have hprepared : (prepared P env t ns blob).getBlob ns (contentHash P blob) = none := by
      rw [getBlob_prepared, hfresh, ite_self]
    rw [finishIngest, hmissing, hverify] at hingest
    rw [hingest]
    show (ingestCommit P env t ns blob).1.getBlob ns (contentHash P blob) = some blob
    rw [ingestCommit_fresh henv (fun _ => hclear) hready.key hprepared, getBlob_insertBlob,
      if_pos ⟨rfl, rfl⟩]

/-! ## Blobs that are stored -/

/-- The first checks of every turn ensure the property. -/
def ChecksEnsure (Q : BlobData → Prop) (events : List Event) : Prop :=
  ∀ i env, .resume i env ∈ events →
    (∀ t ns blob, ingestChecks env t ns blob = none → Q blob) ∧
      ∀ blob, deleteChecks env blob = none → Q blob

section Checked

variable {Q : BlobData → Prop} {events : List Event}

theorem ChecksEnsure.init {event : Event} (h : ChecksEnsure Q (events ++ [event])) :
    ChecksEnsure Q events :=
  fun i env hmem => h i env (List.mem_append_left _ hmem)

/-- A call that goes on has passed the first checks in this turn or before. -/
theorem checked_segment {task : Task}
    (hingest : ∀ ns blob, ingestChecks env t ns blob = none → Q blob)
    (hdelete : ∀ blob, deleteChecks env blob = none →
      Q blob) (h : task.pc.waiting = true → Q task.blob)
    (hwaiting : (segment P env t task).2.waiting = true) : Q task.blob := by
  obtain ⟨entry, ns, blob, pc⟩ := task
  cases pc with
  | start =>
    cases entry with
    | ingest =>
      cases hchecks : ingestChecks env t ns blob with
      | none => exact hingest ns blob hchecks
      | some result => simp [segment, ingestSegment, hchecks, Pc.waiting] at hwaiting
    | deleteBlob =>
      cases hchecks : deleteChecks env blob with
      | none => exact hdelete blob hchecks
      | some result => simp [segment, deleteSegment, hchecks, Pc.waiting] at hwaiting
  | done result => cases entry <;> simp [segment, ingestSegment, deleteSegment,
      Pc.waiting] at hwaiting
  | ownerHash ownerPk => exact h rfl
  | pubkHash => exact h rfl
  | blobHash signer => exact h rfl
  | verify signer => exact h rfl

theorem checked_waiting (hchecks : ChecksEnsure Q events) :
    ∀ task ∈ (run (Node.step P) {} events).tasks, task.pc.waiting = true → Q task.blob := by
  induction events using List.reverseRecOn with
  | nil => exact fun task htask => by simp at htask
  | append_singleton events event ih =>
    rw [run_append, run_cons, run_nil]
    intro task htask hwaiting
    rcases mem_tasks_step htask
      with hold | ⟨entry, ns, blob, -, rfl⟩ | ⟨i, env, before, rfl, hi, rfl⟩
    · exact ih hchecks.init task hold hwaiting
    · exact absurd hwaiting (by simp [Pc.waiting])
    · obtain ⟨hingest, hdelete⟩ := hchecks i env (by simp)
      have hbefore := ih hchecks.init before (List.mem_of_getElem? hi)
      exact (checked_segment (hingest _) hdelete hbefore hwaiting : Q before.blob)

/-- **What the first checks demand of a blob, every stored blob satisfies**, in every run. -/
theorem checked_stored (hchecks : ChecksEnsure Q events)
    (h : (run (Node.step P) {} events).tables.getBlob ns hash = some blob) : Q blob := by
  refine tables_origin (P := P) (R := fun t => t.getBlob ns hash = some blob)
    (Q := fun events => ChecksEnsure Q events → Q blob) (by simp)
    (fun _ _ hQ hchecks => hQ hchecks.init) (fun t now => getBlob_runExpiryScan) ?_ events h hchecks
  intro events i env task signer result t' hi _ hpc _ hcommit hstored
  rcases getBlob_committed hcommit hstored with hold | ⟨-, rfl, -⟩
  · exact .inl hold
  · exact .inr fun hchecks =>
      checked_waiting hchecks.init task (List.mem_of_getElem? hi) (by rw [hpc]; rfl)

end Checked

/-- **Every stored blob is well formed**, in every run. -/
theorem wellFormed_stored (events : List Event)
    (h : (run (Node.step P) {} events).tables.getBlob ns hash = some blob) : WellFormed blob := by
  refine checked_stored (fun i env _ => ⟨fun t ns blob hchecks => ?_, fun blob hchecks => ?_⟩) h
  · obtain ⟨hadmissible, -⟩ := ingestChecks_eq_none_iff.mp hchecks
    exact ⟨hadmissible.signature, hadmissible.bomb⟩
  · have htomb := (deleteChecks_none hchecks).1
    simp only [deleteChecks, Option.orElse_eq_orElse, Option.orElse_eq_or,
      Option.or_eq_none_iff] at hchecks
    refine ⟨hchecks.2.2.1, ?_⟩
    simp [checkBomb, hasBombMagic_of_isTombstone htomb]

/-! ## Marks of stored tombstones -/

/-- Every mark stems from a stored tombstone. -/
def MarksBacked (t : Tables) : Prop :=
  ∀ ns hash, t.hasTombstoneFor ns hash = true →
    ∃ key blob, t.getBlob ns key = some blob ∧ isTombstoneFor hash blob = true

theorem marksBacked_empty : MarksBacked {} := by
  intro ns hash hmark
  simp at hmark

theorem MarksBacked.insertBlob (h : MarksBacked t)
    (hfresh : t.getBlob ns (contentHash P blob) = none) :
    MarksBacked (t.insertBlob P ns blob) := by
  intro ns' hash hmark
  rw [hasTombstoneFor_insertBlob, Bool.or_eq_true] at hmark
  rcases hmark with hnew | hold
  · simp only [Bool.and_eq_true, decide_eq_true_eq] at hnew
    obtain ⟨htomb, rfl, htarget⟩ := hnew
    exact ⟨contentHash P blob, blob, by rw [getBlob_insertBlob, if_pos ⟨rfl, rfl⟩],
      isTombstoneFor_iff.mpr ⟨htomb, htarget⟩⟩
  · obtain ⟨key, stored, hstored, htomb⟩ := h ns' hash hold
    refine ⟨key, stored, ?_, htomb⟩
    rw [getBlob_insertBlob, if_neg ?_]
    · exact hstored
    · rintro ⟨rfl, rfl⟩
      rw [hfresh] at hstored
      exact absurd hstored (by simp)

/-- A tombstone that is taken out takes its mark along. -/
theorem MarksBacked.erase {t' : Tables} (h : MarksBacked t)
    (hstored : t.getBlob ns hash = some blob)
    (hblobs : ∀ ns' hash', t'.getBlob ns' hash' = if ns = ns' ∧ hash = hash' then none
      else t.getBlob ns' hash')
    (hmarks : ∀ ns' target, t'.hasTombstoneFor ns' target = true →
      t.hasTombstoneFor ns' target = true ∧ ¬(ns = ns' ∧ isTombstoneFor target blob = true)) :
      MarksBacked t' := by
  intro ns' target hmark
  obtain ⟨hold, hother⟩ := hmarks ns' target hmark
  obtain ⟨key, tomb, htomb, hfor⟩ := h ns' target hold
  refine ⟨key, tomb, ?_, hfor⟩
  rw [hblobs, if_neg ?_]
  · exact htomb
  · rintro ⟨rfl, rfl⟩
    rw [hstored] at htomb
    obtain rfl := Option.some.inj htomb
    exact hother ⟨rfl, hfor⟩

theorem MarksBacked.removeBlob (h : MarksBacked t) (hstored : t.getBlob ns hash = some blob) :
    MarksBacked (t.removeBlob P ns hash blob) := by
  refine h.erase hstored (fun ns' hash' => getBlob_removeBlob) fun ns' target hmark => ?_
  rw [hasTombstoneFor_removeBlob, Bool.and_eq_true] at hmark
  refine ⟨hmark.2, ?_⟩
  rintro ⟨rfl, hfor⟩
  obtain ⟨htomb, rfl⟩ := isTombstoneFor_iff.mp hfor
  simp [htomb] at hmark

theorem MarksBacked.expireEntry (h : MarksBacked t) (entry : ExpiryEntry) :
    MarksBacked (Storage.expireEntry P t entry) := by
  cases hstored : t.getBlob entry.ns entry.hash with
  | none =>
    rw [Storage.expireEntry, hstored]
    exact h
  | some blob =>
    refine h.erase hstored (fun ns' hash' => getBlob_expireEntry) fun ns' target hmark => ?_
    by_cases hfor : entry.ns = ns' ∧ isTombstoneFor target blob = true
    · obtain ⟨rfl, hfor⟩ := hfor
      obtain ⟨htomb, rfl⟩ := isTombstoneFor_iff.mp hfor
      simp [Storage.expireEntry, hstored, Tables.hasTombstoneFor, htomb] at hmark
    · rw [mark_expireEntry] at hmark
      · exact ⟨hmark, hfor⟩
      · intro hns other hother
        rw [← hns, hstored] at hother
        obtain rfl := Option.some.inj hother
        exact Bool.eq_false_of_not_eq_true fun htomb => hfor ⟨hns, htomb⟩

theorem marksBacked_committed {t' : Tables} {result : IngestResult} (h : MarksBacked t)
    (hcommit : Committed P env t ns blob t' result) : MarksBacked t' :=
  committed_rule hcommit h (fun _ _ _ _ hstored ht => ht.removeBlob hstored) (fun _ _ ht => ht)
    fun _ hfresh ht => ht.insertBlob hfresh

/-- **Every mark stems from a stored tombstone**, in every run. -/
theorem marksBacked_run (events : List Event) : MarksBacked (run (Node.step P) {} events).tables :=
  tables_rule marksBacked_empty (fun _ _ _ _ _ _ _ _ h hcommit => marksBacked_committed h hcommit)
    fun _ now _ h => runExpiryScan_preserves now (fun _ entry ht => ht.expireEntry entry) h

end Engine
