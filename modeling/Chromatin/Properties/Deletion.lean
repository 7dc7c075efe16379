import Chromatin.Properties.Authorization
import Mathlib.Data.Set.Function

/-!
# Deletion by tombstones

The tombstone table holds one mark for a target, whichever tombstone it came from.

* `stored_submitted`, `expiry_submitted`: what is stored or due to expire was submitted.
* `deletion_permanent`: as long as the tombstones for a hash are permanent and are not deleted
  themselves, and no deletion of that hash throws, an accepted tombstone keeps regular blobs with
  that hash out.
* `deletion_undone`: a tombstone with a TTL expires and the deleted blob comes back.
-/

namespace Engine

open Infra Util Wire Storage

variable {P : Primitives} {env : Env} {events : List Event} {ns ns' hash : Hash32} {blob : BlobData}
  {t : Tables} {time : Nat} {t' : Tables} {node : Node} {event : Event} {entry : ExpiryEntry}
  {result : IngestResult}

/-! ## Where blobs and expiry entries come from -/

/-- The blobs the calls of a run are made with. -/
def submittedBlobs (events : List Event) : Set BlobData :=
  {blob | ∃ entry ns, Event.call entry ns blob ∈ events}

theorem submittedBlobs_append (events more : List Event) :
    submittedBlobs events ⊆ submittedBlobs (events ++ more) := by
  rintro blob ⟨entry, ns, hcall⟩
  exact ⟨entry, ns, List.mem_append_left _ hcall⟩

theorem submitted_of_verify {i : Nat} {task : Task} {signer : Signer}
    (hi : (run (Node.step P) {} events).tasks[i]? = some task) (hpc : task.pc = .verify signer) :
    Event.call .ingest task.ns task.blob ∈ events ∨
      (Event.call .deleteBlob task.ns task.blob ∈ events ∧ task.blob.ttl = 0) := by
  have hmem := List.mem_of_getElem? hi
  have hcall := called_of_mem_tasks hmem
  have hwaiting : task.pc.waiting = true := by rw [hpc]; rfl
  cases hentry : task.entry with
  | ingest => exact .inl (hentry ▸ hcall)
  | deleteBlob => exact .inr ⟨hentry ▸ hcall, (sound_run events task hmem hentry hwaiting).2⟩

theorem expiry_deleteTargets (targets : List Hash32)
    (h : get₂ (deleteTargets P t ns targets).expiry time hash = some ns') :
    get₂ t.expiry time hash = some ns' := by
  unfold deleteTargets at h
  induction targets generalizing t with
  | nil => exact h
  | cons target rest ih =>
    rw [List.foldl_cons] at h
    have hdelete := ih h
    unfold deleteBlobData at hdelete
    cases hblob : t.getBlob ns target with
    | none => simpa only [hblob] using hdelete
    | some blob =>
      simp only [hblob, Tables.removeBlob] at hdelete
      split_ifs at hdelete
      · rw [get₂_erase₂] at hdelete
        split_ifs at hdelete
        exact hdelete
      · exact hdelete

theorem getExpiry_expireEntry
    (h : get₂ (expireEntry P t entry).expiry time hash = some ns) :
    get₂ t.expiry time hash = some ns := by
  have hexpiry : (expireEntry P t entry).expiry = erase₂ t.expiry entry.time entry.hash := by
    unfold expireEntry
    cases t.getBlob entry.ns entry.hash <;> rfl
  rw [hexpiry, get₂_erase₂] at h
  split_ifs at h
  exact h

/-- A commit makes an expiry entry only for a blob that is not permanent, and that it stores. -/
theorem getExpiry_committed
    (hcommit : Committed P env t ns' blob t' result) (h : get₂ t'.expiry time hash = some ns) :
    get₂ t.expiry time hash = some ns ∨
      (contentHash P blob = hash ∧ blob.ttl ≠ 0 ∧
        (saturatingExpiry blob.timestamp blob.ttl).toNat = time ∧ ∃ ack, result = .success ack ∧
        ack.status = .stored) := by
  have hprepared (hentry : get₂ (prepared P env t ns' blob).expiry time hash = some ns) :
      get₂ t.expiry time hash = some ns := by
    have hregistered : (prepared P env t ns' blob).expiry =
        (deleteTargets P t ns' (deletedBy env blob)).expiry := by
      unfold prepared registered
      split <;> rfl
    rw [hregistered] at hentry
    exact expiry_deleteTargets _ hentry
  cases hcommit with
  | blocked _ _ => exact .inl h
  | mismatch _ => exact .inl h
  | refused error detail _ _ _ => exact .inl (hprepared h)
  | duplicate ack _ _ => exact .inl (hprepared h)
  | stored ack hstatus _ _ =>
    simp only [Tables.insertBlob] at h
    split_ifs at h with httl
    · rw [get₂_insert₂] at h
      split_ifs at h with hkey
      · exact .inr ⟨hkey.2, fun h0 => by simp [h0] at httl, hkey.1, ack, rfl, hstatus⟩
      · exact .inl (hprepared h)
    · exact .inl (hprepared h)

/-- A stored blob was submitted for its namespace, and `delete_blob` submits permanent
tombstones only. -/
theorem stored_submitted
    (h : (run (Node.step P) {} events).tables.getBlob ns hash = some blob) :
    contentHash P blob = hash ∧
      (Event.call .ingest ns blob ∈ events ∨
        (Event.call .deleteBlob ns blob ∈ events ∧ blob.ttl = 0)) := by
  refine tables_origin (R := fun t => t.getBlob ns hash = some blob)
    (Q := fun events => contentHash P blob = hash ∧ (Event.call .ingest ns blob ∈ events ∨
      (Event.call .deleteBlob ns blob ∈ events ∧ blob.ttl = 0)))
    (by simp) ?_ (fun t now => getBlob_runExpiryScan) ?_ events h
  · rintro events event ⟨hhash, hcall⟩
    exact ⟨hhash, hcall.imp (List.mem_append_left _) fun h => ⟨List.mem_append_left _ h.1, h.2⟩⟩
  · intro events i env task signer result t' hi _ hpc _ hcommit hblob
    refine (getBlob_committed hcommit hblob).imp id ?_
    rintro ⟨rfl, rfl, hhash, -⟩
    exact ⟨hhash, (submitted_of_verify hi hpc).imp (List.mem_append_left _)
      fun h => ⟨List.mem_append_left _ h.1, h.2⟩⟩

/-- An entry of the expiry table was made for a submitted blob that is not permanent. -/
theorem expiry_submitted
    (h : get₂ (run (Node.step P) {} events).tables.expiry time hash = some ns) :
    ∃ blob ∈ submittedBlobs events, contentHash P blob = hash ∧ blob.ttl ≠ 0 := by
  refine tables_origin (R := fun t => get₂ t.expiry time hash = some ns)
    (Q := fun events => ∃ blob ∈ submittedBlobs events, contentHash P blob = hash ∧ blob.ttl ≠ 0)
    (by simp [get₂]) ?_ ?_ ?_ events h
  · rintro events event ⟨blob, hsubmitted, hblob⟩
    exact ⟨blob, submittedBlobs_append _ _ hsubmitted, hblob⟩
  · intro t now
    refine runExpiryScan_preserves (motive := fun t' => get₂ t'.expiry time hash = some ns →
      get₂ t.expiry time hash = some ns) now (fun t' entry ih hentry => ih ?_) id
    exact getExpiry_expireEntry hentry
  · intro events i env task signer result t' hi _ hpc _ hcommit hentry
    refine (getExpiry_committed hcommit hentry).imp id ?_
    rintro ⟨hhash, httl, -⟩
    exact ⟨task.blob, submittedBlobs_append _ _
      ⟨_, _, called_of_mem_tasks (List.mem_of_getElem? hi)⟩, hhash, httl⟩

/-! ## Marks -/

/-- A tombstone whose target is the hash. -/
def isTombstoneFor (hash : Hash32) (blob : BlobData) : Bool :=
  isTombstone blob.data && extractTombstoneTarget blob.data == hash

theorem isTombstoneFor_iff : isTombstoneFor hash blob = true ↔
    isTombstone blob.data = true ∧ extractTombstoneTarget blob.data = hash := by
  simp [isTombstoneFor]

/-- Deleting a blob that is not a tombstone for the hash leaves the mark. -/
theorem mark_deleteBlobData {target : Hash32}
    (hkeep : ns' = ns → ∀ blob, t.getBlob ns target = some blob →
      isTombstoneFor hash blob = false) :
    (deleteBlobData P t ns' target).1.hasTombstoneFor ns hash = t.hasTombstoneFor ns hash := by
  unfold deleteBlobData
  cases hblob : t.getBlob ns' target with
  | none => rfl
  | some blob =>
    have hnot : (isTombstone blob.data &&
        decide (ns' = ns ∧ extractTombstoneTarget blob.data = hash)) = false := by
      by_cases hns : ns' = ns
      · subst hns
        simpa [isTombstoneFor] using hkeep rfl blob hblob
      · simp [hns]
    rw [hasTombstoneFor_removeBlob, hnot]
    rfl

theorem mark_deleteTargets (targets : List Hash32)
    (hkeep : ns' = ns → ∀ target ∈ targets, ∀ blob, t.getBlob ns target = some blob →
      isTombstoneFor hash blob = false) :
    (deleteTargets P t ns' targets).hasTombstoneFor ns hash = t.hasTombstoneFor ns hash := by
  unfold deleteTargets
  induction targets generalizing t with
  | nil => rfl
  | cons target rest ih =>
    have hhead : (deleteBlobData P t ns' target).1.hasTombstoneFor ns hash =
        t.hasTombstoneFor ns hash :=
      mark_deleteBlobData fun hns => hkeep hns target List.mem_cons_self
    rw [List.foldl_cons, ih, hhead]
    intro hns other hother blob hblob
    rw [getBlob_deleteBlobData] at hblob
    split_ifs at hblob
    exact hkeep hns other (List.mem_cons_of_mem _ hother) blob hblob

/-- The mark after a commit that deletes no tombstone for the hash: it is set exactly when such a
tombstone is stored. -/
theorem mark_committed
    (hcommit : Committed P env t ns' blob t' result)
    (hkeep : ns' = ns → ∀ target ∈ deletedBy env blob, ∀ blob', t.getBlob ns target = some blob' →
      isTombstoneFor hash blob' = false) :
    t'.hasTombstoneFor ns hash = true ↔ t.hasTombstoneFor ns hash = true ∨
      (ns' = ns ∧ isTombstoneFor hash blob = true ∧
        ∃ ack, result = .success ack ∧ ack.status = .stored) := by
  have hprepared : (prepared P env t ns' blob).hasTombstoneFor ns hash =
      t.hasTombstoneFor ns hash := by
    rw [prepared, hasTombstoneFor_registered, mark_deleteTargets _ hkeep]
  cases hcommit with
  | blocked _ _ => simp
  | mismatch _ => simp
  | refused error detail _ _ _ => simp [hprepared]
  | duplicate ack hstatus _ => simp [hprepared, hstatus]
  | stored ack hstatus _ _ =>
    rw [hasTombstoneFor_insertBlob, hprepared, Bool.or_eq_true, or_comm]
    simp only [isTombstoneFor, Bool.and_eq_true, decide_eq_true_eq, beq_iff_eq,
      IngestResult.success.injEq]
    constructor
    · rintro (hmark | ⟨htomb, hns, htarget⟩)
      · exact .inl hmark
      · exact .inr ⟨hns, ⟨htomb, htarget⟩, ack, rfl, hstatus⟩
    · rintro (hmark | ⟨hns, ⟨htomb, htarget⟩, -⟩)
      · exact .inl hmark
      · exact .inr ⟨htomb, hns, htarget⟩

/-- Expiring a blob that is not a tombstone for the hash leaves the mark. -/
theorem mark_expireEntry
    (hkeep : entry.ns = ns → ∀ blob, t.getBlob ns entry.hash = some blob →
      isTombstoneFor hash blob = false) :
    (expireEntry P t entry).hasTombstoneFor ns hash = t.hasTombstoneFor ns hash := by
  unfold expireEntry
  cases hblob : t.getBlob entry.ns entry.hash with
  | none => rfl
  | some blob =>
    by_cases htomb : isTombstone blob.data = true
    · have hkey : ¬ (entry.ns = ns ∧ extractTombstoneTarget blob.data = hash) := by
        rintro ⟨hns, htarget⟩
        have hnot := hkeep hns blob (hns ▸ hblob)
        simp [isTombstoneFor, htomb, htarget] at hnot
      simp [Tables.hasTombstoneFor, htomb, getElem?_erase_eq, hkey]
    · simp [Tables.hasTombstoneFor, htomb]

theorem mark_runExpiryScan (now : UInt64)
    (hkeep : ∀ entry ∈ t.expiryEntries, entry.ns = ns → ∀ blob,
      t.getBlob ns entry.hash = some blob → isTombstoneFor hash blob = false) :
    (runExpiryScan P t now).1.hasTombstoneFor ns hash = t.hasTombstoneFor ns hash := by
  -- the scan only removes blobs, so what holds of the blobs it starts from holds at every turn
  have hscan : (runExpiryScan P t now).1.hasTombstoneFor ns hash = t.hasTombstoneFor ns hash ∧
      ∀ key blob, (runExpiryScan P t now).1.getBlob ns key = some blob →
        t.getBlob ns key = some blob := by
    unfold runExpiryScan
    refine List.foldlRecOn (motive := fun t' : Tables =>
      t'.hasTombstoneFor ns hash = t.hasTombstoneFor ns hash ∧ ∀ key blob,
        t'.getBlob ns key = some blob → t.getBlob ns key = some blob) _ _ ⟨rfl, fun _ _ h => h⟩ ?_
    rintro t' ⟨hmark, hblobs⟩ entry hentry
    have hmem := (List.takeWhile_prefix _).subset hentry
    constructor
    · rw [mark_expireEntry fun hns blob hblob => hkeep entry hmem hns blob (hblobs _ _ hblob),
        hmark]
    · intro key blob hblob
      rw [getBlob_expireEntry] at hblob
      split_ifs at hblob
      exact hblobs key blob hblob
  exact hscan.1

/-! ## Permanence -/

/-- In this step no call whose signature verifies deletes a stored tombstone for the hash. -/
def KeepsTombstones (P : Primitives) (ns hash : Hash32) (node : Node) (event : Event) : Prop :=
  ∀ i env task signer, event = .resume i env → node.tasks[i]? = some task →
    task.pc = .verify signer → verifySignature P task.ns task.blob signer.pubkey = true →
    task.ns = ns → ∀ target ∈ deletedBy env task.blob, ∀ blob,
      node.tables.getBlob ns target = some blob → isTombstoneFor hash blob = false

/-- In this step no deletion of the hash throws. -/
def Deletes (hash : Hash32) (event : Event) : Prop :=
  ∀ i env, event = .resume i env → hash ∉ env.deleteErrors

/-- What the tombstone table says about the hash. -/
structure Marked (ns hash : Hash32) (node : Node) : Prop where
  /-- a stored tombstone has its mark -/
  stored : ∀ key blob, node.tables.getBlob ns key = some blob → isTombstoneFor hash blob = true →
    node.tables.hasTombstoneFor ns hash = true
  /-- where there is a mark there is no regular blob -/
  clear : node.tables.hasTombstoneFor ns hash = true → ∀ blob,
    node.tables.getBlob ns hash = some blob → isRegular blob = false
  /-- an accepted tombstone has its mark -/
  accepted : ∀ task ∈ node.tasks, task.ns = ns → isTombstoneFor hash task.blob = true →
    (∃ ack, task.pc = .done (.success ack)) → node.tables.hasTombstoneFor ns hash = true

/-- A stored blob with the hash of a call's blob is that blob. -/
def HashesIdentify (P : Primitives) (node : Node) : Prop :=
  ∀ task ∈ node.tasks, ∀ blob, node.tables.getBlob task.ns (contentHash P task.blob) = some blob →
    blob = task.blob

/-- No stored tombstone for the hash is going to expire. -/
def TombstonesPermanent (ns hash : Hash32) (node : Node) : Prop :=
  ∀ entry ∈ node.tables.expiryEntries, entry.ns = ns → ∀ blob,
    node.tables.getBlob ns entry.hash = some blob → isTombstoneFor hash blob = false

theorem isRegular_of_isTombstoneFor (h : isTombstoneFor hash blob = true) :
    isRegular blob = false := by
  simp [isRegular, (isTombstoneFor_iff.mp h).1]

/-- A tombstone for the hash takes the place of whatever is stored under the hash. -/
theorem getBlob_committed_tombstone {other : BlobData}
    (hcommit : Committed P env t ns blob t' result) (htomb : isTombstoneFor hash blob = true)
    (hdeletes : hash ∉ env.deleteErrors)
    (hstored : ∃ ack, result = .success ack ∧ ack.status = .stored)
    (h : t'.getBlob ns hash = some other) : other = blob := by
  obtain ⟨hshape, htarget⟩ := isTombstoneFor_iff.mp htomb
  have hmem : hash ∈ deletedBy env blob :=
    mem_deletedBy.mpr ⟨by simp [targetsOf, hshape, htarget], hdeletes⟩
  obtain ⟨ack, rfl, hstatus⟩ := hstored
  cases hcommit with
  | duplicate ack hduplicate _ => simp [hstatus] at hduplicate
  | stored ack _ _ _ =>
    rw [getBlob_insertBlob] at h
    split_ifs at h
    · exact (Option.some.inj h).symm
    · simp [getBlob_prepared, hmem] at h

/-- A call answered with success stored its blob, or found it stored. -/
theorem accepted_of_turn {task : Task} {pc : Pc} {ack : WriteAck}
    (hturn : Turn P env t task t' pc) (hpc : pc = .done (.success ack)) :
    task.pc = .done (.success ack) ∨ t.hasBlob task.ns (contentHash P task.blob) = true ∨
      t'.getBlob task.ns (contentHash P task.blob) = some task.blob := by
  rcases turn_accepted hturn hpc with hidle | ⟨-, hknown⟩ | hcommit
  · exact .inl hidle
  · exact .inr (.inl hknown)
  · cases hcommit with
    | duplicate ack' _ hblob =>
      refine .inr (.inl ?_)
      rw [Tables.hasBlob, getBlob_prepared] at hblob
      split_ifs at hblob
      · simp at hblob
      · exact hblob
    | stored ack' _ _ _ => exact .inr (.inr (by rw [getBlob_insertBlob, if_pos ⟨rfl, rfl⟩]))

section Step

variable (hsound : node.Sound) (hpermanent : TombstonesPermanent ns hash node)
  (hkeeps : KeepsTombstones P ns hash node event)

include hsound hpermanent hkeeps

/-- A mark survives every step that keeps the tombstones. -/
theorem mark_step (h : node.tables.hasTombstoneFor ns hash = true) :
    (node.step P event).tables.hasTombstoneFor ns hash = true := by
  rcases tables_step_cases (P := P) hsound event with
    hsame | ⟨now, -, hscan⟩ | ⟨i, env, task, signer, result, hevent, hi, -, hpc, hverify, hcommit⟩
  · rw [hsame, h]
  · rw [hscan, mark_runExpiryScan now hpermanent, h]
  · have hkeep := hkeeps i env task signer hevent hi hpc hverify
    exact (mark_committed hcommit hkeep).mpr (.inl h)

theorem Marked.step_stored (h : Marked ns hash node) {key : Hash32}
    (hblob : (node.step P event).tables.getBlob ns key = some blob)
    (htomb : isTombstoneFor hash blob = true) :
    (node.step P event).tables.hasTombstoneFor ns hash = true := by
  rcases tables_step_cases (P := P) hsound event with
    hsame | ⟨now, -, hscan⟩ | ⟨i, env, task, signer, result, hevent, hi, -, hpc, hverify, hcommit⟩
  · rw [hsame] at hblob ⊢
    exact h.stored key blob hblob htomb
  · rw [hscan] at hblob
    exact mark_step hsound hpermanent hkeeps (h.stored key blob (getBlob_runExpiryScan hblob) htomb)
  · rcases getBlob_committed hcommit hblob with hold | ⟨hns, rfl, -, -, hstored⟩
    · exact mark_step hsound hpermanent hkeeps (h.stored key blob hold htomb)
    · have hkeep := hkeeps i env task signer hevent hi hpc hverify
      exact (mark_committed hcommit hkeep).mpr (.inr ⟨hns, htomb, hstored⟩)

theorem Marked.step_clear (h : Marked ns hash node) (hdeletes : Deletes hash event)
    (hmark : (node.step P event).tables.hasTombstoneFor ns hash = true)
    (hblob : (node.step P event).tables.getBlob ns hash = some blob) : isRegular blob = false := by
  rcases tables_step_cases (P := P) hsound event with
    hsame | ⟨now, -, hscan⟩ | ⟨i, env, task, signer, result, hevent, hi, -, hpc, hverify, hcommit⟩
  · rw [hsame] at hblob hmark
    exact h.clear hmark blob hblob
  · rw [hscan] at hblob hmark
    rw [mark_runExpiryScan now hpermanent] at hmark
    exact h.clear hmark blob (getBlob_runExpiryScan hblob)
  · rw [mark_committed hcommit (hkeeps i env task signer hevent hi hpc hverify)] at hmark
    rcases hmark with hmark | ⟨hns, htomb, hstored⟩
    · rcases getBlob_committed hcommit hblob with hold | ⟨-, rfl, -, hclear, -⟩
      · exact h.clear hmark blob hold
      · -- a regular blob is only stored where there is no mark
        by_contra hregular
        rw [hclear (Bool.eq_true_of_not_eq_false hregular)] at hmark
        exact Bool.false_ne_true hmark
    · subst hns
      rw [getBlob_committed_tombstone hcommit htomb (hdeletes i env hevent) hstored hblob]
      exact isRegular_of_isTombstoneFor htomb

/-- **One step keeps what the tombstone table says about the hash.** -/
theorem Marked.step (h : Marked ns hash node) (hdeletes : Deletes hash event)
    (hidentify : HashesIdentify P node) :
    Marked ns hash (node.step P event) where
  stored key blob hblob htomb := h.step_stored hsound hpermanent hkeeps hblob htomb
  clear hmark blob hblob := h.step_clear hsound hpermanent hkeeps hdeletes hmark hblob
  accepted task htask hns htomb hdone := by
    obtain ⟨ack, hpc⟩ := hdone
    rcases mem_tasks_step htask with
      hold | ⟨entry, ns, blob, -, rfl⟩ | ⟨i, env, before, rfl, hi, rfl⟩
    · exact mark_step hsound hpermanent hkeeps (h.accepted task hold hns htomb ⟨ack, hpc⟩)
    · simp at hpc
    · have hmem := List.mem_of_getElem? hi
      have hturn := segment_turn (P := P) env node.tables (hsound before hmem)
      rcases accepted_of_turn hturn hpc with hidle | hknown | hstored
      · exact mark_step hsound hpermanent hkeeps (h.accepted before hmem hns htomb ⟨ack, hidle⟩)
      · obtain ⟨blob, hblob⟩ := Option.isSome_iff_exists.mp hknown
        obtain rfl := hidentify before hmem blob hblob
        subst hns
        exact mark_step hsound hpermanent hkeeps (h.stored _ _ hblob htomb)
      · have htables :
            (node.step P (.resume i env)).tables = (segment P env node.tables before).1 := by
          simp only [Node.step, hi]
        rw [← htables] at hstored
        subst hns
        exact h.step_stored hsound hpermanent hkeeps hstored htomb

end Step

/-- Every tombstone for the hash that is handed to `ingest` for the namespace is permanent. -/
def TombstonesSubmittedPermanent (ns hash : Hash32) (events : List Event) : Prop :=
  ∀ blob, Event.call .ingest ns blob ∈ events → isTombstoneFor hash blob = true → blob.ttl = 0

theorem mem_submittedBlobs_of_stored
    (h : (run (Node.step P) {} events).tables.getBlob ns hash = some blob) :
    blob ∈ submittedBlobs events := by
  rcases (stored_submitted h).2 with hcall | ⟨hcall, -⟩
  · exact ⟨_, _, hcall⟩
  · exact ⟨_, _, hcall⟩

theorem hashesIdentify_run (hcollision : Set.InjOn (contentHash P) (submittedBlobs events)) :
    HashesIdentify P (run (Node.step P) {} events) := by
  intro task htask blob hblob
  exact hcollision (mem_submittedBlobs_of_stored hblob) ⟨_, _, called_of_mem_tasks htask⟩
    (stored_submitted hblob).1

theorem tombstonesPermanent_run (hcollision : Set.InjOn (contentHash P) (submittedBlobs events))
    (hpermanent : TombstonesSubmittedPermanent ns hash events) :
    TombstonesPermanent ns hash (run (Node.step P) {} events) := by
  intro entry hentry _ blob hblob
  obtain ⟨expiring, hsubmitted, hhash, httl⟩ := expiry_submitted (mem_expiryEntries.mp hentry)
  obtain ⟨hblobHash, hcall⟩ := stored_submitted hblob
  -- the blob the entry was made for has the same hash, so it is the stored one
  obtain rfl : expiring = blob :=
    hcollision hsubmitted (mem_submittedBlobs_of_stored hblob) (hhash.trans hblobHash.symm)
  by_contra htomb
  rcases hcall with hcall | ⟨-, hzero⟩
  · exact httl (hpermanent _ hcall (Bool.eq_true_of_not_eq_false htomb))
  · exact httl hzero

theorem marked_run (hcollision : Set.InjOn (contentHash P) (submittedBlobs events))
    (hpermanent : TombstonesSubmittedPermanent ns hash events)
    (hkeeps : AllSteps (Node.step P) (KeepsTombstones P ns hash) {} events)
    (hdeletes : ∀ event ∈ events, Deletes hash event) :
    Marked ns hash (run (Node.step P) {} events) := by
  induction events using List.reverseRecOn with
  | nil => exact ⟨fun key blob h => by simp at h, fun h => by simp at h, fun task h => by simp at h⟩
  | append_singleton events event ih =>
    have hcollision' := hcollision.mono (submittedBlobs_append events [event])
    have hpermanent' : TombstonesSubmittedPermanent ns hash events :=
      fun blob hcall => hpermanent blob (List.mem_append_left _ hcall)
    obtain ⟨hkeeps', hlast, -⟩ := allSteps_append.mp hkeeps
    have hbefore := ih hcollision' hpermanent' hkeeps' fun event hmem =>
      hdeletes event (List.mem_append_left _ hmem)
    rw [run_append]
    exact hbefore.step (sound_run events) (tombstonesPermanent_run hcollision' hpermanent') hlast
      (hdeletes event (List.mem_append_right _ List.mem_cons_self)) (hashesIdentify_run hcollision')

/-- **Deletion permanence**, for tombstones that stay. In every run of interleaved calls and expiry
scans in which the tombstones for a hash that are handed to `ingest` have TTL 0, no call deletes
a stored tombstone for that hash and no deletion of the hash throws (and no two submitted blobs have
the same hash): once a tombstone for the hash has been accepted, no regular blob is stored under the
hash. -/
theorem deletion_permanent (P : Primitives) (events : List Event) (ns hash : Hash32)
    (hcollision : Set.InjOn (contentHash P) (submittedBlobs events))
    (hpermanent : TombstonesSubmittedPermanent ns hash events)
    (hkeeps : AllSteps (Node.step P) (KeepsTombstones P ns hash) {} events)
    (hdeletes : ∀ event ∈ events, Deletes hash event)
    (task : Task) (htask : task ∈ (run (Node.step P) {} events).tasks) (hns : task.ns = ns)
    (htomb : isTombstoneFor hash task.blob = true)
    (haccepted : ∃ ack, task.pc = .done (.success ack)) :
    ¬ ∃ blob, (run (Node.step P) {} events).tables.getBlob ns hash = some blob ∧
      isRegular blob = true := by
  rintro ⟨blob, hblob, hregular⟩
  have hmarked := marked_run hcollision hpermanent hkeeps hdeletes
  have hclear := hmarked.clear (hmarked.accepted task htask hns htomb haccepted) blob hblob
  rw [hregular] at hclear
  exact Bool.noConfusion hclear

/-! ## A tombstone with a TTL -/

section Sample

open Wire.Sample

-- the list of the PUBK's bytes is as deep as it is long
set_option maxRecDepth 20000

/-- A tombstone for the owner's blob that lives ten seconds. -/
def mortal : BlobData :=
  signed (key 1) (owned 1) (owned 1) (makeTombstoneData noteHash) 10 3000002

/-- Ten seconds after `mortal`. -/
def laterEnv : Env := { now := 3000012 }

/-- The owner publishes its key, stores a blob and deletes it with a tombstone that has a TTL; the
tombstone expires and the blob is handed in again. -/
def undoRun : List Event :=
  ownerEvents [pubk 1 (owned 1) 3000000, note, mortal] ++
    .expiryScan 3000012 :: callAlone 3 laterEnv .ingest (owned 1) note

/-- **A deletion can be undone.** A tombstone with a TTL is accepted by `ingest`; nothing targets
it; after it has expired the blob it had deleted is stored again. -/
theorem deletion_undone :
    (∃ ack, { entry := .ingest, ns := owned 1, blob := mortal, pc := .done (.success ack) } ∈
      (run (Node.step primitives) {} undoRun).tasks) ∧
    isTombstoneFor noteHash mortal = true ∧
    (∀ entry ns blob, Event.call entry ns blob ∈ undoRun →
      contentHash primitives mortal ∉ targetsOf blob) ∧
    (run (Node.step primitives) {} undoRun).tables.getBlob (owned 1) noteHash = some note ∧
    isRegular note = true := by
  have hnone : ∀ blob ∈ blobsOf undoRun, contentHash primitives mortal ∉ targetsOf blob := by
    decide +kernel
  refine ⟨⟨{ blobHash := contentHash primitives mortal, seqNum := 3 }, ?_⟩, ?_,
    fun entry ns blob hcall => hnone blob (mem_blobsOf hcall), ?_, ?_⟩
  all_goals decide +kernel

def graveRun : List Event := ownerEvents [pubk 1 (owned 1) 3000000, grave]

/-- Nothing is ever stored under the target of the tombstone. -/
theorem keepsTombstones_graveRun :
    AllSteps (Node.step primitives) (KeepsTombstones primitives (owned 1) noteHash) {}
      graveRun := by
  have hnone : ∀ a ∈ blobsOf graveRun, ∀ b ∈ blobsOf graveRun,
      contentHash primitives b ∉ targetsOf a := by
    decide +kernel
  refine allSteps_of_forall fun before e after hsplit => ?_
  intro i env task signer _ hi _ _ _ target htarget blob hblob
  have hsubset := hsplit ▸ submittedBlobs_append before (e :: after)
  obtain ⟨_, _, htask⟩ := hsubset ⟨_, _, called_of_mem_tasks (List.mem_of_getElem? hi)⟩
  obtain ⟨_, _, hstored⟩ := hsubset (mem_submittedBlobs_of_stored hblob)
  rw [← (stored_submitted hblob).1] at htarget
  exact absurd (mem_deletedBy.mp htarget).1 (hnone _ (mem_blobsOf htask) _ (mem_blobsOf hstored))

/-- The owner's permanent tombstone keeps the blob out. -/
theorem deletion_permanent_grave :
    (∃ ack, { entry := .ingest, ns := owned 1, blob := grave, pc := .done (.success ack) } ∈
      (run (Node.step primitives) {} graveRun).tasks) ∧
    ¬ ∃ blob, (run (Node.step primitives) {} graveRun).tables.getBlob (owned 1) noteHash =
      some blob ∧ isRegular blob = true := by
  have htask :
      { entry := .ingest, ns := owned 1, blob := grave
        pc := .done (.success { blobHash := contentHash primitives grave, seqNum := 2 }) } ∈
      (run (Node.step primitives) {} graveRun).tasks := by
    decide +kernel
  have hblobs : ∀ a ∈ blobsOf graveRun, a.ttl = 0 ∧ ∀ b ∈ blobsOf graveRun,
      contentHash primitives a = contentHash primitives b → a = b := by
    decide +kernel
  have henvs : ∀ env ∈ envsOf graveRun, noteHash ∉ env.deleteErrors := by decide +kernel
  refine ⟨⟨_, htask⟩, ?_⟩
  refine deletion_permanent primitives graveRun (owned 1) noteHash ?_ ?_ keepsTombstones_graveRun
    (fun event hmem i env hevent => henvs env (mem_envsOf (hevent ▸ hmem)))
    _ htask rfl (by decide +kernel) ⟨_, rfl⟩
  · rintro a ⟨_, _, ha⟩ b ⟨_, _, hb⟩
    exact (hblobs a (mem_blobsOf ha)).2 b (mem_blobsOf hb)
  · exact fun blob hcall _ => (hblobs blob (mem_blobsOf hcall)).1

end Sample

end Engine
