import Chromatin.Properties.EngineCalls

/-!
# Who may store a blob

* `signer_standing`: a waiting call has resolved its signer to an owner of the namespace, or to a
  delegate whose delegation was stored there at that moment.
* `stored_authorized`: every stored blob was verified against the key of such a signer, by the
  call that stored it; tombstones, BOMBs and delegations against an owner's key.
-/

namespace Engine

open Infra Util Wire Storage

variable {P : Primitives} {env : Env} {events : List Event} {ns hash : Hash32} {blob : BlobData}
  {i : Nat} {signer : Signer}

/-! ## What happened -/

/-- In this step the `i`-th call, on this blob, resolves its signer to a delegate, and a delegation
blob for the delegate's key is stored in the namespace. -/
def ResolvesDelegate (P : Primitives) (i : Nat) (ns : Hash32) (blob : BlobData) (pubkey : PubKey)
    (node : Node) (event : Event) : Prop :=
  (∃ task, node.tasks[i]? = some task ∧ task.ns = ns ∧ task.blob = blob ∧
    task.pc.signer = none) ∧
  (∃ task, (node.step P event).tasks[i]? = some task ∧
    task.pc.signer = some (.delegate pubkey)) ∧
  ∃ delegationHash delegation, node.tables.getBlob ns delegationHash = some delegation ∧
    isDelegation delegation.data = true ∧ extractDelegatePubkey delegation.data = pubkey

/-- In this step the `i`-th call, which has resolved its signer, stores the blob. -/
def Stores (P : Primitives) (i : Nat) (ns : Hash32) (blob : BlobData) (signer : Signer)
    (node : Node) (event : Event) : Prop :=
  ∃ env task ack, event = .resume i env ∧ node.tasks[i]? = some task ∧ task.ns = ns ∧
    task.blob = blob ∧ task.pc = .verify signer ∧ ack.status = .stored ∧
    (node.step P event).tasks[i]? = some { task with pc := .done (.success ack) }

/-- The signer of the `i`-th call owns the namespace; or it was a delegate of it when it was
resolved, and the blob is not one of those only an owner may write. -/
def Standing (P : Primitives) (events : List Event) (i : Nat) (ns : Hash32) (blob : BlobData) :
    Signer → Prop
  | .owner pubkey => P.sha3_256 pubkey.toList = ns
  | .delegate pubkey =>
    Happened (Node.step P) (ResolvesDelegate P i ns blob pubkey) {} events ∧
      isTombstone blob.data = false ∧ isBomb blob.data = false ∧ isDelegation blob.data = false

theorem Standing.append (h : Standing P events i ns blob signer)
    (more : List Event) : Standing P (events ++ more) i ns blob signer := by
  cases signer with
  | owner pubkey => exact h
  | delegate pubkey => exact ⟨h.1.append more, h.2⟩

theorem shape_of_checkDelegate (h : checkDelegate blob = none) :
    isTombstone blob.data = false ∧ isBomb blob.data = false ∧ isDelegation blob.data = false := by
  unfold checkDelegate at h
  split_ifs at h with hdelegation htomb hbomb
  exact ⟨Bool.eq_false_of_not_eq_true htomb, Bool.eq_false_of_not_eq_true hbomb,
    Bool.eq_false_of_not_eq_true hdelegation⟩

/-! ## Signers -/

/-- One turn of a call keeps the standing of its signer, or settles it. -/
theorem standing_turn {before : Task}
    (hi : (run (Node.step P) {} events).tasks[i]? = some before)
    (ih : ∀ signer, before.pc.signer = some signer →
      Standing P events i before.ns before.blob signer)
    (hsigner : (segment P env (run (Node.step P) {} events).tables before).2.signer = some signer) :
    Standing P (events ++ [.resume i env]) i before.ns before.blob signer := by
  have hmem : before ∈ (run (Node.step P) {} events).tasks := List.mem_of_getElem? hi
  have hturn := segment_turn (P := P) env (run (Node.step P) {} events).tables
    (sound_run events before hmem)
  have hnext := getElem?_tasks_resume (P := P) env hi
  generalize (segment P env (run (Node.step P) {} events).tables before).2 = pc at *
  generalize (segment P env (run (Node.step P) {} events).tables before).1 = tables at hturn
  cases hturn with
  | known signer' ack _ _ => simp [Pc.signer] at hsigner
  | commit signer' t' result _ _ _ => simp [Pc.signer] at hsigner
  | idle => exact (ih signer hsigner).append _
  | absent signer' hpc =>
    obtain rfl : signer' = signer := by simpa [Pc.signer] using hsigner
    exact (ih signer' (by rw [hpc]; rfl)).append _
  | resolve pc hresolves hfresh =>
    cases signer with
    | owner pubkey => exact hresolves.owner pubkey hsigner
    | delegate pubkey =>
      obtain ⟨hlookup, hcheck⟩ := hresolves.delegate pubkey hsigner
      obtain ⟨delegationHash, delegation, -, hdelegation⟩ :=
        getDelegatePubkeyByHint_eq_some.mp hlookup
      exact ⟨Happened.last ⟨⟨before, hi, rfl, rfl, hfresh (by simp [hsigner])⟩,
        ⟨_, hnext, hsigner⟩, ⟨delegationHash, delegation, hdelegation⟩⟩,
        shape_of_checkDelegate hcheck⟩

/-- **A call that knows its signer knows one with standing.** -/
theorem signer_standing {task : Task}
    (hi : (run (Node.step P) {} events).tasks[i]? = some task)
    (hsigner : task.pc.signer = some signer) :
    Standing P events i task.ns task.blob signer := by
  induction events using List.reverseRecOn generalizing task signer with
  | nil => simp at hi
  | append_singleton events event ih =>
    rw [run_append, run_cons, run_nil] at hi
    rcases getElem?_tasks_step hi with
      hold | ⟨entry, ns, blob, -, rfl⟩ | ⟨env, before, rfl, hb, rfl⟩
    · exact (ih hold hsigner).append _
    · simp [Pc.signer] at hsigner
    · have hstanding : Standing P _ i before.ns before.blob signer :=
        standing_turn hb (fun signer hs => ih hb hs) hsigner
      exact hstanding

/-! ## Stored blobs -/

/-- The blob was stored by a call that verified it for a signer with standing. -/
def Authorized (P : Primitives) (events : List Event) (ns : Hash32) (blob : BlobData) : Prop :=
  ∃ i signer, Happened (Node.step P) (Stores P i ns blob signer) {} events ∧
    verifySignature P ns blob signer.pubkey = true ∧ Standing P events i ns blob signer

theorem Authorized.append (h : Authorized P events ns blob) (more : List Event) :
    Authorized P (events ++ more) ns blob := by
  obtain ⟨i, signer, hstores, hverify, hstanding⟩ := h
  exact ⟨i, signer, hstores.append more, hverify, hstanding.append more⟩

/-- A blob of the tables a call leaves was there before, or is the one the call stores. -/
theorem getBlob_committed {t t' : Tables} {ns' : Hash32} {blob' : BlobData} {result : IngestResult}
    (hcommit : Committed P env t ns' blob' t' result) (h : t'.getBlob ns hash = some blob) :
    t.getBlob ns hash = some blob ∨
      (ns' = ns ∧ blob' = blob ∧ contentHash P blob = hash ∧
        (isRegular blob = true → t.hasTombstoneFor ns hash = false) ∧
        ∃ ack, result = .success ack ∧ ack.status = .stored) := by
  cases hcommit with
  | blocked _ _ => exact .inl h
  | mismatch _ => exact .inl h
  | refused error detail _ _ _ => exact .inl (getBlob_of_prepared h)
  | duplicate ack _ _ => exact .inl (getBlob_of_prepared h)
  | stored ack hstatus hclear _ =>
    rw [getBlob_insertBlob] at h
    split_ifs at h with hkey
    · obtain ⟨rfl, rfl⟩ := hkey
      obtain rfl := Option.some.inj h
      exact .inr ⟨rfl, rfl, rfl, hclear, ack, rfl, hstatus⟩
    · exact .inl (getBlob_of_prepared h)

/-- A stored blob stays when a call commits that does not delete it. -/
theorem getBlob_committed_of_stored {t t' : Tables} {ns' : Hash32} {stored : BlobData}
    {result : IngestResult} (hcommit : Committed P env t ns' blob t' result)
    (hstored : t.getBlob ns hash = some stored) (hspared : ns' = ns → hash ∉ deletedBy env blob) :
    t'.getBlob ns hash = some stored := by
  have hprepared : (prepared P env t ns' blob).getBlob ns hash = some stored := by
    rw [getBlob_prepared, if_neg fun h => hspared h.1 h.2]
    exact hstored
  cases hcommit with
  | blocked _ _ => exact hstored
  | mismatch _ => exact hstored
  | refused error detail _ _ _ => exact hprepared
  | duplicate ack _ _ => exact hprepared
  | stored ack _ _ hfresh =>
    rw [getBlob_insertBlob, if_neg ?_]
    · exact hprepared
    · rintro ⟨rfl, rfl⟩
      rw [hprepared] at hfresh
      exact absurd hfresh (by simp)

/-- The expiry scan stores nothing. -/
theorem getBlob_runExpiryScan {t : Tables} {now : UInt64}
    (h : (runExpiryScan P t now).1.getBlob ns hash = some blob) :
    t.getBlob ns hash = some blob := by
  revert h
  refine runExpiryScan_preserves
    (motive := fun t' => t'.getBlob ns hash = some blob → t.getBlob ns hash = some blob) now ?_ id
  intro t' entry ih h
  rw [getBlob_expireEntry] at h
  split_ifs at h
  exact ih h

/-- A stored blob sits under its own hash and is authorized. -/
theorem authorized_of_stored
    (h : (run (Node.step P) {} events).tables.getBlob ns hash = some blob) :
    contentHash P blob = hash ∧ Authorized P events ns blob := by
  refine tables_origin (R := fun t => t.getBlob ns hash = some blob)
    (Q := fun events => contentHash P blob = hash ∧ Authorized P events ns blob)
    (by simp) ?_ (fun t now => getBlob_runExpiryScan) ?_ events h
  · rintro events event ⟨hhash, hauthorized⟩
    exact ⟨hhash, hauthorized.append _⟩
  · intro events i env task signer result t' hi hdone hpc hverify hcommit hblob
    refine (getBlob_committed hcommit hblob).imp id ?_
    rintro ⟨rfl, rfl, hhash, -, ack, rfl, hstatus⟩
    have hstanding := signer_standing hi (show task.pc.signer = some signer by rw [hpc]; rfl)
    exact ⟨hhash, i, signer,
      Happened.last ⟨env, task, ack, rfl, hi, rfl, rfl, hpc, hstatus, hdone⟩, hverify,
      hstanding.append _⟩

/-- **Authorization soundness.** In every run of interleaved calls and expiry scans, a stored blob
sits under its own hash and was stored by a call that verified its signature, over the namespace
it is stored in, against the key of the signer the call had resolved. That signer owns the
namespace, or it is the delegate of a delegation blob stored there when it was resolved; the
latter never for a tombstone, a BOMB or a delegation. -/
theorem stored_authorized (P : Primitives) (events : List Event) (ns hash : Hash32)
    (blob : BlobData)
    (h : (run (Node.step P) {} events).tables.getBlob ns hash = some blob) :
    contentHash P blob = hash ∧
    ∃ i signer, Happened (Node.step P) (Stores P i ns blob signer) {} events ∧
      verifySignature P ns blob signer.pubkey = true ∧ Standing P events i ns blob signer :=
  authorized_of_stored h

section Sample

open Wire.Sample

/-- A blob of the delegate. -/
def letter : BlobData := signed (key 2) (owned 1) (owned 2) [1, 2, 3] 0 3000002

/-- Two owners publish their keys, one makes the other its delegate, and the delegate writes. -/
def letterRun : List Event :=
  callAlone 0 sampleEnv .ingest (owned 1) (pubk 1 (owned 1) 3000000) ++
    (callAlone 1 sampleEnv .ingest (owned 2) (pubk 2 (owned 2) 3000000) ++
      (callAlone 2 sampleEnv .ingest (owned 1) (grant 3000001) ++
        callAlone 3 sampleEnv .ingest (owned 1) letter))

-- the list of the PUBK's bytes is as deep as it is long
set_option maxRecDepth 20000 in
/-- The PUBK of the second owner and the delegate's blob are stored, each by a signer with
standing. -/
theorem stored_authorized_letter :
    (∃ i signer, Happened (Node.step primitives)
        (Stores primitives i (owned 2) (pubk 2 (owned 2) 3000000) signer) {} letterRun ∧
      verifySignature primitives (owned 2) (pubk 2 (owned 2) 3000000) signer.pubkey = true ∧
      Standing primitives letterRun i (owned 2) (pubk 2 (owned 2) 3000000) signer) ∧
    ∃ i signer, Happened (Node.step primitives) (Stores primitives i (owned 1) letter signer) {}
        letterRun ∧
      verifySignature primitives (owned 1) letter signer.pubkey = true ∧
      Standing primitives letterRun i (owned 1) letter signer := by
  have hpubk : (run (Node.step primitives) {} letterRun).tables.getBlob (owned 2)
      (contentHash primitives (pubk 2 (owned 2) 3000000)) = some (pubk 2 (owned 2) 3000000) := by
    decide +kernel
  have hletter : (run (Node.step primitives) {} letterRun).tables.getBlob (owned 1)
      (contentHash primitives letter) = some letter := by
    decide +kernel
  exact ⟨(stored_authorized primitives letterRun _ _ _ hpubk).2,
    (stored_authorized primitives letterRun _ _ _ hletter).2⟩

end Sample

end Engine
