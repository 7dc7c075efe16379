import Chromatin.Peer.SyncOrchestrator
import Chromatin.Properties.ReconcileLoop
import Chromatin.Properties.SequenceIndex

/-!
# A session that nothing holds back: phases A and B

The invariant of a sync session between two nodes that run the same code, over every interleaving
of their turns, up to the point where both sides know what they miss.

* `SyncSound` is what a session needs of the tables it starts from, `Setting` of the surroundings.
* `Records` says what a side knows of the namespaces that are closed.
* `Lag` covers the messages the responder has not read yet while the initiator is ahead of it.
* `Reconciling` is the invariant, `Reconciling.step` the step.
-/

namespace Peer

open Infra Util Wire Storage Engine Sync

variable {rest : List Hash32}

/-! ## Tables to sync from -/

/-- The tables index every blob under its content hash, each once, and nothing in them is too
large for the wire format. -/
structure SyncSound (P : Primitives) (t : Tables) : Prop where
  hashed : ∀ ns hash blob, t.getBlob ns hash = some blob → contentHash P blob = hash
  indexed : ∀ ns hash blob, t.getBlob ns hash = some blob → hash ∈ t.getHashesByNamespace ns
  distinct : ∀ now ns, (collectNamespaceHashes t now ns).Nodup
  count : ∀ ns, (t.getHashesByNamespace ns).length < 2 ^ 32
  noMaxHash : ∀ ns, t.getBlob ns maxHash = none
  size : ∀ ns hash blob, t.getBlob ns hash = some blob → (encodeBlob P blob).length < 2 ^ 32
  namespaces : t.listNamespaces.length < 2 ^ 32
  seqNums : ∀ info ∈ t.listNamespaces, info.latestSeqNum < 2 ^ 64

/-- **The tables of a run can be synced**: without an expiry scan their index is sound, and what was
handed to the node is small enough for the wire format. -/
theorem syncSound_run {P : Primitives} {events : List Engine.Event} {t : Tables}
    (hrun : (run (Node.step P) {} events).tables = t)
    (hscan : ∀ event ∈ events, event.isCall = true)
    (hblobs : ∀ blob, Handed events blob → contentHash P blob ≠ zeroHash ∧
      contentHash P blob ≠ maxHash ∧ (encodeBlob P blob).length < 2 ^ 32)
    (hrows : ∀ row ∈ t.seq.toList, row.2.toList.length < 2 ^ 32)
    (hnamespaces : t.listNamespaces.length < 2 ^ 32)
    (hseq : ∀ info ∈ t.listNamespaces, info.latestSeqNum < 2 ^ 64) : SyncSound P t := by
  subst hrun
  have hindexed := indexed_run (P := P) hscan fun entry ns blob hcall =>
    (hblobs blob ⟨entry, ns, hcall⟩).1
  have hstored := (catalogued_run (P := P) events).listed
  refine ⟨fun ns hash blob h => (hstored ns hash blob h).2.1,
    fun ns hash blob h => hindexed.mem_getHashesByNamespace.mpr ⟨blob, h⟩,
    fun now ns => (hindexed.nodup_getHashesByNamespace ns).filter _, fun ns => ?_, fun ns => ?_,
    fun ns hash blob h => (hblobs blob (hstored ns hash blob h).1).2.2, hnamespaces, hseq⟩
  · refine (List.length_filter_le _ _).trans_lt ?_
    rw [List.length_map, Tables.seqEntries]
    cases hrow : (run (Node.step P) {} events).tables.seq[ns]? with
    | none => simp
    | some row => exact hrows (ns, row) (Std.ExtTreeMap.mem_toList_iff_getElem?_eq_some.mpr hrow)
  · cases hblob : (run (Node.step P) {} events).tables.getBlob ns maxHash with
    | none => rfl
    | some blob =>
      obtain ⟨hhanded, hhash, -⟩ := hstored ns maxHash blob hblob
      exact absurd hhash (hblobs blob hhanded).2.1

/-- The namespaces the node and the peer sync are the shared ones, the peer is not full, and there
is budget left. -/
structure Open (shared : Hash32 → Bool) (env : SyncEnv) : Prop where
  filter : ∀ ns, (env.syncs ns && env.peerSyncs ns) = shared ns
  notFull : env.peerIsFull = false
  budget : env.budgetExhausted = false

/-- The namespaces a node announces. -/
def announced (shared : Hash32 → Bool) (t : Tables) : List NamespaceInfo :=
  t.listNamespaces.filter fun info => shared info.namespaceId

/-- A blob that is in the snapshot of its namespace. -/
def SyncEnv.offers (env : SyncEnv) (blob : BlobData) : Prop :=
  isBlobExpired blob env.engine.now = false ∧
    shouldSkipForPeerCap blob.data.length env.advertisedBlobCap = false

section Snapshot

variable {P : Primitives} {t : Tables} {env : SyncEnv} {ns hash : Hash32} {blob : BlobData}
  {shared : Hash32 → Bool}

theorem mem_collectNamespaceHashes {now : UInt64} :
    hash ∈ collectNamespaceHashes t now ns ↔ hash ∈ t.getHashesByNamespace ns ∧
      ∃ blob, t.getBlob ns hash = some blob ∧ isBlobExpired blob now = false := by
  rw [collectNamespaceHashes, List.mem_filter]
  refine and_congr_right fun _ => ?_
  cases hblob : t.getBlob ns hash with
  | none => simp
  | some blob => simp

theorem mem_snapshotHashes : hash ∈ snapshotHashes env t ns ↔
    hash ∈ t.getHashesByNamespace ns ∧ ∃ blob, t.getBlob ns hash = some blob ∧ env.offers blob := by
  rw [snapshotHashes, List.mem_filter, (List.perm_insertionSort _ _).mem_iff,
    mem_collectNamespaceHashes, and_assoc]
  refine and_congr_right fun _ => ?_
  constructor
  · rintro ⟨⟨blob, hblob, hexpired⟩, hcap⟩
    refine ⟨blob, hblob, hexpired, ?_⟩
    simpa [hblob] using hcap
  · rintro ⟨blob, hblob, hexpired, hcap⟩
    exact ⟨⟨blob, hblob, hexpired⟩, by simp [hblob, hcap]⟩

theorem stored_of_mem_snapshot (h : hash ∈ snapshotHashes env t ns) :
    ∃ blob, t.getBlob ns hash = some blob := by
  obtain ⟨-, blob, hblob, -⟩ := mem_snapshotHashes.mp h
  exact ⟨blob, hblob⟩

theorem pairwise_snapshotHashes (hsound : SyncSound P t) :
    (snapshotHashes env t ns).Pairwise (· < ·) := by
  have hnodup := (List.perm_insertionSort (· ≤ ·) _).nodup_iff.mpr
    (hsound.distinct env.engine.now ns)
  have hsorted := List.pairwise_insertionSort (· ≤ ·) (collectNamespaceHashes t env.engine.now ns)
  refine List.Pairwise.filter _ ?_
  exact (hsorted.and hnodup).imp fun h => lt_of_le_of_ne h.1 h.2

theorem length_snapshotHashes (hsound : SyncSound P t) :
    (snapshotHashes env t ns).length < 2 ^ 32 := by
  have hsort := (List.perm_insertionSort (· ≤ ·)
    (collectNamespaceHashes t env.engine.now ns)).length_eq
  calc (snapshotHashes env t ns).length
      ≤ (collectNamespaceHashes t env.engine.now ns).length :=
        hsort ▸ List.length_filter_le _ _
    _ ≤ (t.getHashesByNamespace ns).length := List.length_filter_le _ _
    _ < 2 ^ 32 := hsound.count ns

theorem maxHash_notMem_snapshot (hsound : SyncSound P t) :
    maxHash ∉ snapshotHashes env t ns := by
  intro hmem
  obtain ⟨blob, hblob⟩ := stored_of_mem_snapshot hmem
  rw [hsound.noMaxHash ns] at hblob
  exact absurd hblob (by simp)

theorem ourNamespaces_open (hopen : Open shared env) :
    ourNamespaces env t = announced shared t := by
  simp only [ourNamespaces, announced, hopen.filter]

/-- A shared namespace with a stored blob is announced. -/
theorem mem_announced (hsound : SyncSound P t) (hblob : t.getBlob ns hash = some blob)
    (hshared : shared ns = true) : ns ∈ (announced shared t).map NamespaceInfo.namespaceId := by
  have hmem := hsound.indexed ns hash blob hblob
  rw [Tables.getHashesByNamespace, Tables.seqEntries] at hmem
  cases hrow : t.seq[ns]? with
  | none => simp [hrow] at hmem
  | some row =>
    rw [announced, Tables.listNamespaces, List.mem_map]
    refine ⟨_, List.mem_filter.mpr ⟨List.mem_map_of_mem
      (Std.ExtTreeMap.mem_toList_iff_getElem?_eq_some.mpr hrow), hshared⟩, rfl⟩

end Snapshot

/-! ## Turns of a link -/

section Link

variable {P : Primitives} {link : Link} {side : Side} {env : SyncEnv} {s : Session}
  {inbox out : List SyncMessage}

@[simp] theorem Side.other_other (side : Side) : side.other.other = side := by
  cases side <;> rfl

theorem Side.other_ne (side : Side) : side.other ≠ side := by
  cases side <;> decide

@[simp] theorem Link.session_update_self : (link.update side s inbox out).session side = s := by
  simp [Link.update]

@[simp] theorem Link.session_update_other :
    (link.update side s inbox out).session side.other = link.session side.other := by
  simp [Link.update, side.other_ne]

@[simp] theorem Link.inbox_update_self : (link.update side s inbox out).inbox side = inbox := by
  simp [Link.update, side.other_ne.symm]

@[simp] theorem Link.inbox_update_other : (link.update side s inbox out).inbox side.other =
    link.inbox side.other ++ out.filter fun msg => routedToSession msg.type := by
  simp [Link.update]

@[simp] theorem Link.session_update_initiator :
    (link.update .initiator s inbox out).session .responder = link.session .responder := by
  simp [Link.update]

@[simp] theorem Link.session_update_responder :
    (link.update .responder s inbox out).session .initiator = link.session .initiator := by
  simp [Link.update]

@[simp] theorem Link.inbox_update_initiator :
    (link.update .initiator s inbox out).inbox .responder =
    link.inbox .responder ++ out.filter fun msg => routedToSession msg.type := by
  simp [Link.update, Side.other]

@[simp] theorem Link.inbox_update_responder :
    (link.update .responder s inbox out).inbox .initiator =
    link.inbox .initiator ++ out.filter fun msg => routedToSession msg.type := by
  simp [Link.update, Side.other]

theorem Link.step_deliver_nil (h : link.inbox side = []) :
    link.step P (.deliver side env) = link := by
  simp [Link.step, h]

theorem Link.step_deliver {msg : SyncMessage} (h : link.inbox side = msg :: inbox)
    (hrecv : (link.session side).recv P env (some msg) = (s, out)) :
    link.step P (.deliver side env) = link.update side s inbox out := by
  simp [Link.step, h, hrecv]

section Recv

variable {msg : SyncMessage} {ns : Hash32} {ourHashes : List Hash32} {cursorHit : Bool}
  {loop : ReconcileLoop}

theorem recv_awaitNamespaces (h : s.stage = .awaitNamespaces) (htype : msg.type = .namespaceList) :
    s.recv P env (some msg) = s.reconcile env msg.payload := by
  unfold Session.recv
  rw [h]
  exact if_pos htype

theorem recv_initiatorLoop
    (h : s.stage = .initiatorLoop ns ourHashes cursorHit loop rest) :
    s.recv P env (some msg) =
      ((s.initiatorNext env ns ourHashes cursorHit (initiatorRound ns ourHashes loop msg).1 rest).1,
        (initiatorRound ns ourHashes loop msg).2 ++ (s.initiatorNext env ns ourHashes cursorHit
          (initiatorRound ns ourHashes loop msg).1 rest).2) := by
  unfold Session.recv
  rw [h]

theorem recv_responderLoop (h : s.stage = .responderLoop ns ourHashes cursorHit loop) :
    s.recv P env (some msg) =
      (s.responderNext env ns ourHashes cursorHit (responderRound ns ourHashes loop msg).1,
        (responderRound ns ourHashes loop msg).2) := by
  unfold Session.recv
  rw [h]

end Recv

end Link

/-! ## The setting -/

/-- Two nodes whose session nothing holds back: the tables they start from, what each of them can
read of its surroundings, and the namespaces both of them sync. No two snapshots collide in a
fingerprint. -/
structure Setting (P : Primitives) where
  tables : Side → Tables
  /-- by which each side knows the other -/
  peerHash : Side → Hash32
  envs : Side → Set SyncEnv
  shared : Hash32 → Bool
  codec : ∀ fb, P.getBlob (P.finishBlob fb) = some fb
  sound : ∀ side, SyncSound P (tables side)
  isOpen : ∀ side, ∀ env ∈ envs side, Open shared env
  noCollision : ∀ ns, ∀ envI ∈ envs .initiator, ∀ envR ∈ envs .responder,
    NoCollision (snapshotHashes envI (tables .initiator) ns)
      (snapshotHashes envR (tables .responder) ns)

/-- The coroutine only serves from here on. -/
def Stage.Settled (stage : Stage) : Prop := stage = .remaining ∨ stage = .finished

namespace Setting

variable {P : Primitives} (S : Setting P)

/-- No connection is lost, and a wait only times out when both sides have all they asked for. -/
def Smooth (link : Link) : LinkEvent → Prop
  | .deliver side env => env ∈ S.envs side
  | .timeout side env => env ∈ S.envs side ∧ (link.session side).stage = .remaining ∧
      (link.session side.other).stage.Settled
  | .lost _ => False

/-- One of the snapshots a side can take of a namespace. -/
def Snapshot (side : Side) (ns : Hash32) (hashes : List Hash32) : Prop :=
  ∃ env ∈ S.envs side, hashes = snapshotHashes env (S.tables side) ns

/-- The namespaces a side announces. -/
def announced (side : Side) : List NamespaceInfo := Peer.announced S.shared (S.tables side)

/-- A side has a cursor for the namespace that is where the other side is. -/
def Skipped (side : Side) (ns : Hash32) : Prop :=
  ∃ env ∈ S.envs side, ns ∈
    (cursorDecisions env (S.tables side) (S.peerHash side) (S.announced side.other)).2

/-- A side wants a blob of a shared namespace that is in every snapshot of the other side and that
it did not have itself, unless a cursor skips the namespace. -/
structure Wanted (side : Side) (ns hash : Hash32) : Prop where
  shared : S.shared ns = true
  offered : ∃ blob, (S.tables side.other).getBlob ns hash = some blob ∧
    ∀ env ∈ S.envs side.other, env.offers blob
  missing : (S.tables side).getBlob ns hash = none
  noSkip : ¬ S.Skipped side ns

/-- The namespaces of the session. -/
def namespaces : List Hash32 := allNamespaces (S.announced .initiator) (S.announced .responder)

def listMessage (side : Side) : SyncMessage :=
  ⟨.namespaceList, encodeNamespaceList (S.announced side)⟩

/-- A session that has not read the other side's list, with the tables it started from. -/
structure Unlisted (side : Side) (s : Session) : Prop where
  role : s.side = side
  peerHash : s.peerHash = S.peerHash side
  store : s.tables = S.tables side

/-- A session past the exchange of the namespace lists, with the blobs it started from. -/
structure Begun (side : Side) (s : Session) : Prop where
  role : s.side = side
  peerHash : s.peerHash = S.peerHash side
  store : s.tables = { S.tables side with cursor := s.tables.cursor }
  peers : s.peerNamespaces = S.announced side.other
  skips : ∀ ns ∈ s.cursorSkipNamespaces, S.Skipped side ns

/-- What a side knows it misses in the namespaces that are closed. -/
def Records (side : Side) (done : List Hash32) (missingPerNs : Table Hash32 (List Hash32)) : Prop :=
  ∀ ns ∈ done, ∀ hash, S.Wanted side ns hash →
    ∃ missing, missingPerNs[ns]? = some missing ∧ hash ∈ missing

variable {S} {side : Side} {s : Session} {ns hash : Hash32} {env : SyncEnv}
  {done own other items : List Hash32} {hit : Bool} {out : List SyncMessage}

theorem mem_namespaces (hwanted : S.Wanted side ns hash) : ns ∈ S.namespaces := by
  obtain ⟨blob, hblob, -⟩ := hwanted.offered
  have hmem := mem_announced (S.sound side.other) hblob hwanted.shared
  rw [namespaces, allNamespaces, (List.perm_insertionSort _ _).mem_iff, List.mem_dedup,
    List.map_append, List.mem_append]
  cases side with
  | initiator => exact .inr hmem
  | responder => exact .inl hmem

/-- A wanted blob is in every snapshot of the other side, and in none of our own. -/
theorem Wanted.snapshots (hwanted : S.Wanted side ns hash) (hown : S.Snapshot side ns own)
    (hother : S.Snapshot side.other ns other) : hash ∈ other ∧ hash ∉ own := by
  obtain ⟨blob, hblob, hoffers⟩ := hwanted.offered
  obtain ⟨env, henv, rfl⟩ := hown
  obtain ⟨env', henv', rfl⟩ := hother
  constructor
  · exact mem_snapshotHashes.mpr
      ⟨(S.sound side.other).indexed ns hash blob hblob, blob, hblob, hoffers env' henv'⟩
  · intro hmem
    obtain ⟨blob', hblob'⟩ := stored_of_mem_snapshot hmem
    rw [hwanted.missing] at hblob'
    exact absurd hblob' (by simp)

/-- **Closing a namespace records what we miss in it.** -/
theorem Records.close (h : S.Records side done s.missingPerNs)
    (hhit : hit = true → S.Skipped side ns) (hown : S.Snapshot side ns own)
    (hother : S.Snapshot side.other ns other) (hitems : Collected own other items) :
    S.Records side (done ++ [ns]) (s.closeNamespace ns own hit items).missingPerNs := by
  have hmissing {hash : Hash32} (hwanted : S.Wanted side ns hash) :
      hit = false ∧ hash ∈ missingHashes own items := by
    obtain ⟨hmem, hnot⟩ := hwanted.snapshots hown hother
    obtain ⟨env, henv, rfl⟩ := hother
    exact ⟨Bool.eq_false_of_not_eq_true fun h => hwanted.noSkip (hhit h),
      (hitems.missing (maxHash_notMem_snapshot (S.sound _)) hash).mpr ⟨hmem, hnot⟩⟩
  intro ns' hns' hash hwanted
  unfold Session.closeNamespace
  by_cases hclosed : (hit || (missingHashes own items).isEmpty) = true
  · simp only [hclosed, if_true]
    rcases List.mem_append.mp hns' with hdone | hlast
    · exact h ns' hdone hash hwanted
    · obtain rfl := List.mem_singleton.mp hlast
      obtain ⟨hfalse, hmem⟩ := hmissing hwanted
      rw [hfalse, Bool.false_or, List.isEmpty_iff] at hclosed
      rw [hclosed] at hmem
      exact absurd hmem List.not_mem_nil
  · simp only [hclosed, Bool.false_eq_true, if_false]
    by_cases hsame : ns = ns'
    · subst hsame
      exact ⟨_, by rw [getElem?_insert_eq, if_pos rfl], (hmissing hwanted).2⟩
    · have hdone : ns' ∈ done := by
        rcases List.mem_append.mp hns' with hdone | hlast
        · exact hdone
        · exact absurd (List.mem_singleton.mp hlast).symm hsame
      obtain ⟨missing, hentry, hhash⟩ := h ns' hdone hash hwanted
      exact ⟨missing, by rw [getElem?_insert_eq, if_neg hsame, hentry], hhash⟩

/-- The responder's cached snapshots are snapshots. -/
def Cached (S : Setting P) (s : Session) : Prop :=
  ∀ ns hashes, s.nsHashCache[ns]? = some hashes → S.Snapshot .responder ns hashes

/-- The responder has read all but these messages; it answers none of them, and once it has read
them it is in its outer loop and has closed the namespaces `done`. -/
inductive Lag (S : Setting P) : Session → List SyncMessage → List Hash32 → Prop
  | idle {s : Session} {done : List Hash32} (hbegun : S.Begun .responder s)
    (hstage : s.stage = .responderIdle) (hcached : S.Cached s)
    (hrecords : S.Records .responder done s.missingPerNs) : Lag S s [] done
  | list {s : Session} (hunlisted : S.Unlisted .responder s) (hstage : s.stage = .awaitNamespaces)
    (hcached : S.Cached s) : Lag S s [S.listMessage .initiator] []
  | items {s : Session} {done : List Hash32} {ns : Hash32} {own other : List Hash32} {round : Nat}
    {collected items : List Hash32} {hit : Bool} (hbegun : S.Begun .responder s)
    (hstage : s.stage = .responderLoop ns own hit ⟨.waiting, round, collected⟩)
    (hhit : hit = true → S.Skipped .responder ns)
    (hcached : S.Cached s) (hrecords : S.Records .responder done s.missingPerNs)
    (hown : S.Snapshot .responder ns own) (hother : S.Snapshot .initiator ns other)
    (hcollected : ∀ h ∈ collected, h ∈ other) (hlen : items.length < 2 ^ 32)
    (hitems : Collected own other items) : Lag S s [itemsMessage ns items] (done ++ [ns])

/-- A closed namespace leaves everything but the missing hashes as it was. -/
theorem closeNamespace_eq (s : Session) (ns : Hash32) (own : List Hash32) (hit : Bool)
    (items : List Hash32) : s.closeNamespace ns own hit items =
      { s with missingPerNs := (s.closeNamespace ns own hit items).missingPerNs } := by
  simp only [Session.closeNamespace]
  split_ifs <;> rfl

theorem Begun.closeNamespace (h : S.Begun side s) (ns : Hash32) (own : List Hash32) (hit : Bool)
    (items : List Hash32) : S.Begun side (s.closeNamespace ns own hit items) := by
  rw [closeNamespace_eq]
  exact ⟨h.role, h.peerHash, h.store, h.peers, h.skips⟩

theorem cursorDecision_store (peerHash : Hash32) (state : Tables × List Hash32)
    (pns : NamespaceInfo) : (cursorDecision peerHash state pns).1 =
      { state.1 with cursor := (cursorDecision peerHash state pns).1.cursor } := by
  unfold cursorDecision
  split
  · rfl
  · split_ifs <;> rfl

/-- The decisions on the cursors change nothing but the cursors. -/
theorem cursorDecisions_store (env : SyncEnv) (t : Tables) (peerHash : Hash32)
    (peers : List NamespaceInfo) : (cursorDecisions env t peerHash peers).1 =
      { t with cursor := (cursorDecisions env t peerHash peers).1.cursor } := by
  have hfold : ∀ (peers : List NamespaceInfo) (state : Tables × List Hash32),
      (peers.foldl (cursorDecision peerHash) state).1 =
        { state.1 with cursor := (peers.foldl (cursorDecision peerHash) state).1.cursor } := by
    intro peers
    induction peers with
    | nil => exact fun _ => rfl
    | cons pns rest ih =>
      intro state
      have hstep := cursorDecision_store peerHash state pns
      rw [List.foldl_cons, ih, hstep]
  unfold cursorDecisions
  split_ifs
  · rfl
  · exact hfold peers (t, [])

/-- Both sides read the other's list as it was sent. -/
theorem decode_listMessage (S : Setting P) (side : Side) :
    decodeNamespaceList (S.listMessage side).payload = S.announced side :=
  decodeNamespaceList_encode (lt_of_le_of_lt (List.length_filter_le _ _) (S.sound side).namespaces)
    fun info hinfo => (S.sound side).seqNums info (List.mem_of_mem_filter hinfo)

theorem Unlisted.listed (h : S.Unlisted side s) (henv : env ∈ S.envs side) :
    S.Begun side (s.listed env (S.announced side.other)) := by
  refine ⟨h.role, h.peerHash, ?_, rfl, ?_⟩
  · simp only [Session.listed, h.store]
    exact cursorDecisions_store _ _ _ _
  · simp only [Session.listed, h.store, h.peerHash]
    exact fun ns hns => ⟨env, henv, hns⟩

theorem respond_open (s : Session) (henv : env ∈ S.envs side) :
    s.respond env = { s with stage := .responderIdle } := by
  rw [Session.respond, (S.isOpen _ env henv).budget]
  rfl

/-- **The responder catches up** one message at a time. -/
theorem Lag.read {msg : SyncMessage} {rest : List SyncMessage}
    (h : S.Lag s (msg :: rest) done) (henv : env ∈ S.envs .responder) :
    ∃ s', s.recv P env (some msg) = (s', []) ∧ S.Lag s' rest done := by
  cases h with
  | list hunlisted hstage hcached =>
    have hbegun := hunlisted.listed henv
    have hdecode := decode_listMessage S .initiator
    refine ⟨{ s.listed env (S.announced .initiator) with stage := .responderIdle }, ?_, ?_⟩
    · have hside : (s.listed env (S.announced .initiator)).side = .responder := hunlisted.role
      rw [← respond_open _ henv, recv_awaitNamespaces hstage rfl, Session.reconcile, hdecode, hside]
    · exact .idle ⟨hbegun.role, hbegun.peerHash, hbegun.store, hbegun.peers,
        hbegun.skips⟩ rfl hcached
        fun ns hns => absurd hns List.not_mem_nil
  | items hbegun hstage hhit hcached hrecords hown hother hcollected hlen hitems =>
    rename_i done ns own other round collected items hit
    have hread := reconcileRound_items hlen .left ns own ⟨.waiting, round, collected⟩
    have hclosed := hbegun.closeNamespace ns own hit (collected ++ items)
    refine ⟨{ s.closeNamespace ns own hit (collected ++ items) with stage := .responderIdle },
      ?_, ?_⟩
    · rw [← respond_open _ henv, recv_responderLoop hstage, responderRound, hread]
      rfl
    · refine .idle ⟨hclosed.role, hclosed.peerHash, hclosed.store, hclosed.peers, hclosed.skips⟩ rfl
        ?_ (hrecords.close hhit hown hother (hitems.append hcollected))
      rw [closeNamespace_eq]
      exact hcached

theorem Lag.not_settled {lag : List SyncMessage} (h : S.Lag s lag done) : ¬ s.stage.Settled := by
  cases h with
  | idle _ hstage _ _ => simp [hstage, Stage.Settled]
  | list _ hstage _ => simp [hstage, Stage.Settled]
  | items _ hstage _ _ _ _ _ _ _ _ => simp [hstage, Stage.Settled]

/-! ## The exchange of one namespace inside a session -/

/-- The responder of an exchange whose init message it has read: in the loop, or out of it and
with the namespace closed. -/
inductive Answering (S : Setting P) (done : List Hash32) (ns : Hash32) (own : List Hash32) :
    Session → Option ReconcileLoop → Prop
  | looping {s : Session} {loop : ReconcileLoop} {hit : Bool} (hbegun : S.Begun .responder s)
    (hstage : s.stage = .responderLoop ns own hit loop)
    (hhit : hit = true → S.Skipped .responder ns)
    (hwaiting : loop.phase = .waiting) (hcached : S.Cached s)
    (hrecords : S.Records .responder done s.missingPerNs) :
    Answering S done ns own s (some loop)
  | closed {s : Session} {loop : ReconcileLoop} (hleft : loop.phase = .left)
    (hidle : S.Lag s [] (done ++ [ns])) : Answering S done ns own s (some loop)

theorem Answering.not_settled {loop : Option ReconcileLoop}
    (h : S.Answering done ns own s loop) : ¬ s.stage.Settled := by
  cases h with
  | looping _ hstage _ _ _ _ => simp [hstage, Stage.Settled]
  | closed _ hidle => exact hidle.not_settled

/-- The initiator has opened a namespace, or ended phase B. -/
inductive Advanced (S : Setting P) (done : List Hash32) : Session → List SyncMessage → Prop
  | opening {s : Session} {ns : Hash32} {rest own : List Hash32} {hit : Bool}
    (hbegun : S.Begun .initiator s)
    (hstage : s.stage = .initiatorLoop ns own hit ⟨.waiting, 0, []⟩ rest)
    (hhit : hit = true → S.Skipped .initiator ns)
    (hrecords : S.Records .initiator done s.missingPerNs) (hown : S.Snapshot .initiator ns own)
    (hall : done ++ ns :: rest = S.namespaces) :
    Advanced S done s (initiatorStart ns own).2
  | complete {s : Session} (hbegun : S.Begun .initiator s) (hall : done = S.namespaces)
    (hrecords : S.Records .initiator S.namespaces s.missingPerNs) :
    Advanced S done (s.nextBatch (Session.requests s.missingPerNs)).1
      (⟨.syncComplete, []⟩ :: (s.nextBatch (Session.requests s.missingPerNs)).2)

/-- The exchange of a namespace is under way, and the initiator is in its loop. -/
structure Exchanging (S : Setting P) (link : Link) (done : List Hash32) (ns : Hash32) (hit : Bool)
    (rest own other : List Hash32) (t : Nat) (ex : Exchange) : Prop where
  lockstep : Lockstep ns own other (t + 1) ex
  waiting : ex.initiator.phase = .waiting
  begun : S.Begun .initiator (link.session .initiator)
  stage : (link.session .initiator).stage = .initiatorLoop ns own hit ex.initiator rest
  skipped : hit = true → S.Skipped .initiator ns
  records : S.Records .initiator done (link.session .initiator).missingPerNs
  ownSnapshot : S.Snapshot .initiator ns own
  otherSnapshot : S.Snapshot .responder ns other
  all : done ++ ns :: rest = S.namespaces
  answering : S.Answering done ns other (link.session .responder) ex.responder
  toInitiator : link.inbox .initiator = ex.toInitiator
  toResponder : link.inbox .responder = ex.toResponder

/-- **Phases A and B.** -/
inductive Reconciling (S : Setting P) (link : Link) : Prop
  | greeting (hstage : (link.session .initiator).stage = .awaitAccept)
    (hunlisted : S.Unlisted .initiator (link.session .initiator))
    (hlag : S.Lag (link.session .responder) [S.listMessage .initiator] [])
    (hinbox : link.inbox .initiator = [⟨.syncAccept, []⟩, S.listMessage .responder])
    (hempty : link.inbox .responder = [])
  | listing (hstage : (link.session .initiator).stage = .awaitNamespaces)
    (hunlisted : S.Unlisted .initiator (link.session .initiator))
    (hours : (link.session .initiator).ourNamespaces = S.announced .initiator)
    (hinbox : link.inbox .initiator = [S.listMessage .responder])
    (hlag : S.Lag (link.session .responder) (link.inbox .responder) [])
  | advanced {done : List Hash32} {lag out : List SyncMessage}
    (hinitiator : S.Advanced done (link.session .initiator) out)
    (hempty : link.inbox .initiator = []) (hinbox : link.inbox .responder = lag ++ out)
    (hlag : S.Lag (link.session .responder) lag done)
  | exchanging {done : List Hash32} {ns : Hash32} {hit : Bool} {rest own other : List Hash32}
    {t : Nat} {ex : Exchange} (h : S.Exchanging link done ns hit rest own other t ex)

/-- Both sides know what they miss and have requested their first batch. -/
inductive Reconciled (S : Setting P) (link : Link) : Prop
  | mk (start : Side → Session) (hbegun : ∀ side, S.Begun side (start side))
    (hrecords : ∀ side, S.Records side S.namespaces (start side).missingPerNs)
    (hsession : ∀ side, link.session side =
      ((start side).nextBatch (Session.requests (start side).missingPerNs)).1)
    (hinbox : ∀ side, link.inbox side.other =
      ((start side).nextBatch (Session.requests (start side).missingPerNs)).2)

/-! ### What the lockstep says when a side has left -/

section Lockstep

variable {t : Nat} {ex : Exchange}

theorem collected_initiator (h : Lockstep ns own other t ex) (hleft : ex.initiator.phase = .left) :
    Collected own other ex.initiator.peerItems := by
  cases h with
  | itemsToResponder _ _ _ _ _ _ hI => exact hI
  | finished _ _ _ hI _ => exact hI
  | _ => simp [Exchange.start, initiatorStart] at hleft

theorem collected_responder (h : Lockstep ns own other t ex) {loop : ReconcileLoop}
    (hloop : ex.responder = some loop) (hleft : loop.phase = .left) :
    Collected other own loop.peerItems := by
  cases h with
  | matched hagree =>
    obtain rfl := Option.some.inj hloop
    exact collected_of_agree fun h hmax => (hagree h hmax).mp
  | itemsToInitiator _ _ _ _ _ _ hR =>
    obtain rfl := Option.some.inj hloop
    exact hR
  | finished _ _ _ _ hR =>
    obtain rfl := Option.some.inj hloop
    exact hR
  | opening => simp [Exchange.start] at hloop
  | rangesToInitiator =>
    obtain rfl := Option.some.inj hloop
    simp at hleft
  | rangesToResponder =>
    obtain rfl := Option.some.inj hloop
    simp at hleft
  | itemsToResponder =>
    obtain rfl := Option.some.inj hloop
    simp at hleft

/-- When the initiator leaves, the responder has left, or has the closing items to read. -/
theorem initiator_left (h : Lockstep ns own other t ex) (hleft : ex.initiator.phase = .left) :
    ex.toInitiator = [] ∧
      ((ex.toResponder = [] ∧ ∃ loop, ex.responder = some loop ∧ loop.phase = .left) ∨
        ∃ round collected items, ex.responder = some ⟨.waiting, round, collected⟩ ∧
          ex.toResponder = [itemsMessage ns items] ∧ items.length < 2 ^ 32 ∧
          (∀ h ∈ collected, h ∈ own) ∧ Collected other own items) := by
  cases h with
  | itemsToResponder _ _ _ hlen hR hitems _ =>
    exact ⟨rfl, .inr ⟨_, _, _, rfl, rfl, hlen, hR, hitems⟩⟩
  | finished => exact ⟨rfl, .inl ⟨rfl, _, rfl, rfl⟩⟩
  | _ => simp [Exchange.start, initiatorStart] at hleft

end Lockstep

/-! ### The initiator moves on -/

theorem Begun.stage (h : S.Begun side s) (stage : Stage) : S.Begun side { s with stage } :=
  ⟨h.role, h.peerHash, h.store, h.peers, h.skips⟩

/-- The blobs of a session past the exchange of the lists are those it started from. -/
theorem Begun.snapshotHashes_eq (h : S.Begun side s) :
    snapshotHashes env s.tables ns = snapshotHashes env (S.tables side) ns := by
  rw [h.store]
  rfl

/-- A namespace that a cursor of this session skips. -/
theorem Begun.skipped (h : S.Begun side s) (hit : s.cursorSkipNamespaces.contains ns = true) :
    S.Skipped side ns :=
  h.skips ns (List.contains_iff_mem.mp hit)

/-- The namespaces of the session are shared. -/
theorem shared_of_mem_namespaces (h : ns ∈ S.namespaces) : S.shared ns = true := by
  rw [namespaces, allNamespaces, (List.perm_insertionSort _ _).mem_iff, List.mem_dedup,
    List.mem_map] at h
  obtain ⟨info, hinfo, rfl⟩ := h
  rcases List.mem_append.mp hinfo with hmem | hmem
  · exact (List.mem_filter.mp hmem).2
  · exact (List.mem_filter.mp hmem).2

theorem advanced_next (hbegun : S.Begun .initiator s)
    (hrecords : S.Records .initiator done s.missingPerNs) (hall : done ++ rest = S.namespaces)
    (henv : env ∈ S.envs .initiator) :
    S.Advanced done (s.nextNamespace env rest).1 (s.nextNamespace env rest).2 := by
  have hopen := S.isOpen _ env henv
  cases rest with
  | nil =>
    rw [List.append_nil] at hall
    subst hall
    exact .complete hbegun rfl hrecords
  | cons ns rest =>
    have hshared : S.shared ns = true := shared_of_mem_namespaces (by simp [← hall])
    have hfilter := (hopen.filter ns).trans hshared
    rw [Bool.and_eq_true] at hfilter
    simp only [Session.nextNamespace, hopen.budget, hfilter, Bool.not_true, Bool.or_self,
      Bool.false_eq_true, if_false]
    exact .opening (hbegun.stage _) rfl hbegun.skipped hrecords
      ⟨env, henv, hbegun.snapshotHashes_eq⟩ hall

theorem routed_nextBatch (s : Session) (batches : List (Hash32 × List Hash32)) :
    ((s.nextBatch batches).2.filter fun msg => routedToSession msg.type) =
      (s.nextBatch batches).2 := by
  cases batches with
  | nil => rfl
  | cons batch rest => simp [Session.nextBatch, routedToSession]

theorem Advanced.routed (h : S.Advanced done s out) :
    (out.filter fun msg => routedToSession msg.type) = out := by
  cases h with
  | opening => simp [initiatorStart, routedToSession]
  | complete => rw [List.filter_cons_of_pos rfl, routed_nextBatch]

theorem routed_reconcileRound (invalid : LoopPhase) (loop : ReconcileLoop) (msg : SyncMessage) :
    ((reconcileRound invalid ns own loop msg).2.filter fun msg => routedToSession msg.type) =
      (reconcileRound invalid ns own loop msg).2 := by
  unfold reconcileRound
  split
  · split
    · rfl
    · split_ifs
      · rfl
      · split <;> simp [routedToSession]
      · simp [routedToSession]
  · split <;> rfl
  · rfl

section Step

variable {link : Link} {t : Nat} {ex : Exchange}

/-- A delivery keeps the snapshots in lockstep. -/
theorem lockstep_deliver {ex' : Exchange} {side : Side}
    (h : Lockstep ns own other t ex) (hown : S.Snapshot .initiator ns own)
    (hother : S.Snapshot .responder ns other) (hd : ex.deliver ns own other side = some ex') :
    Lockstep ns own other (t + 1) ex' := by
  obtain ⟨envI, henvI, rfl⟩ := hown
  obtain ⟨envR, henvR, rfl⟩ := hother
  exact h.deliver (pairwise_snapshotHashes (S.sound _)) (pairwise_snapshotHashes (S.sound _))
    (length_snapshotHashes (S.sound _)) (length_snapshotHashes (S.sound _))
    (maxHash_notMem_snapshot (S.sound _))
    (S.noCollision ns envI henvI envR henvR) hd

/-- What the responder has still to read when the initiator leaves. -/
theorem Answering.lag (hlockstep : Lockstep ns own other t ex)
    (h : S.Answering done ns other s ex.responder) (hleft : ex.initiator.phase = .left)
    (hown : S.Snapshot .initiator ns own) (hother : S.Snapshot .responder ns other) :
    S.Lag s ex.toResponder (done ++ [ns]) := by
  obtain ⟨-, ⟨hnone, loop, hloop, hphase⟩ | ⟨round, collected, items, hloop, hitems,
    hlen, hR, hc⟩⟩ :=
    initiator_left hlockstep hleft
  · rw [hloop] at h
    rw [hnone]
    cases h with
    | looping _ _ _ hwaiting _ _ => simp [hphase] at hwaiting
    | closed _ hidle => exact hidle
  · rw [hloop] at h
    rw [hitems]
    cases h with
    | looping hbegun hstage hhit _ hcached hrecords =>
      exact .items hbegun hstage hhit hcached hrecords hother hown hR hlen hc
    | closed hphase _ => simp at hphase

/-- The initiator of an exchange reads a message. -/
theorem Exchanging.initiator
    {msg : SyncMessage} {inbox : List SyncMessage}
    (h : S.Exchanging link done ns hit rest own other t ex)
    (henv : env ∈ S.envs .initiator) (hmsg : ex.toInitiator = msg :: inbox) :
    S.Reconciling (link.step P (.deliver .initiator env)) := by
  have hrecv : (link.session .initiator).recv P env (some msg) = _ := recv_initiatorLoop h.stage
  rw [Link.step_deliver (h.toInitiator.trans hmsg) hrecv]
  have hrouted : ((initiatorRound ns own ex.initiator msg).2.filter fun msg =>
      routedToSession msg.type) = (initiatorRound ns own ex.initiator msg).2 :=
    routed_reconcileRound _ _ _
  have hd : ex.deliver ns own other .initiator = some
      { ex with
        initiator := (initiatorRound ns own ex.initiator msg).1
        toInitiator := inbox
        toResponder := ex.toResponder ++ (initiatorRound ns own ex.initiator msg).2 } := by
    simp [Exchange.deliver, hmsg, h.waiting]
  have hnext := lockstep_deliver h.lockstep h.ownSnapshot h.otherSnapshot hd
  generalize initiatorRound ns own ex.initiator msg = round at *
  obtain ⟨loop, out⟩ := round
  dsimp only at hrouted hnext ⊢
  rcases hnext.orderly.1.initiator with hphase | hphase
  · -- still in the loop
    rw [Session.initiatorNext, hphase]
    dsimp only
    rw [List.append_nil]
    refine .exchanging (t := t + 1) ⟨hnext, hphase, ?_, ?_, h.skipped, ?_, h.ownSnapshot,
      h.otherSnapshot, h.all, ?_, ?_, ?_⟩
    · simpa using h.begun.stage _
    · simp
    · simpa using h.records
    · simpa using h.answering
    · simp
    · simp [h.toResponder, hrouted]
  · -- the namespace is closed
    have hclosed := h.begun.closeNamespace ns own hit loop.peerItems
    have hrecords :=
      h.records.close h.skipped h.ownSnapshot h.otherSnapshot (collected_initiator hnext hphase)
    have hadvanced := advanced_next hclosed hrecords (by simpa using h.all) henv
    have hlag := Answering.lag hnext h.answering hphase h.ownSnapshot h.otherSnapshot
    have hempty := (initiator_left hnext hphase).1
    rw [Session.initiatorNext, hphase]
    refine .advanced (by simpa using hadvanced) (by simpa using hempty) ?_ (by simpa using hlag)
    rw [Link.inbox_update_initiator, List.filter_append, hrouted, hadvanced.routed, h.toResponder,
      List.append_assoc]

/-- The responder after a round: in the loop, or out of it with the namespace closed. -/
theorem answering_next {loop : ReconcileLoop}
    (henv : env ∈ S.envs .responder) (hhit : hit = true → S.Skipped .responder ns)
    (hlockstep : Lockstep ns own other t ex) (hloop : ex.responder = some loop)
    (hbegun : S.Begun .responder s) (hcached : S.Cached s)
    (hrecords : S.Records .responder done s.missingPerNs) (hown : S.Snapshot .initiator ns own)
    (hother : S.Snapshot .responder ns other) :
    S.Answering done ns other (s.responderNext env ns other hit loop) (some loop) := by
  rcases hlockstep.orderly.1.responder loop hloop with hphase | hphase
  · rw [Session.responderNext, hphase]
    exact .looping (hbegun.stage _) rfl hhit hphase hcached hrecords
  · simp only [Session.responderNext, hphase, respond_open _ henv]
    have hclosed := hbegun.closeNamespace ns other hit loop.peerItems
    refine .closed hphase (.idle (hclosed.stage _) rfl ?_ ?_)
    · rw [closeNamespace_eq]
      exact hcached
    · exact hrecords.close hhit hother hown (collected_responder hlockstep hloop hphase)

/-- The responder of an exchange reads a message. -/
theorem Exchanging.responder
    {msg : SyncMessage} {inbox : List SyncMessage}
    (h : S.Exchanging link done ns hit rest own other t ex)
    (henv : env ∈ S.envs .responder) (hmsg : ex.toResponder = msg :: inbox) :
    S.Reconciling (link.step P (.deliver .responder env)) := by
  have hanswering := h.answering
  have horderly := h.lockstep.orderly.1
  cases hresponder : ex.responder with
  | none =>
    rw [hresponder] at hanswering
    cases hanswering
  | some loop =>
    rw [hresponder] at hanswering
    cases hanswering with
    | closed hleft _ =>
      rw [horderly.responderLeft loop hresponder hleft] at hmsg
      exact absurd hmsg (by simp)
    | looping hbegun hstage hhit hwaiting hcached hrecords =>
      have hrecv : (link.session .responder).recv P env (some msg) = _ := recv_responderLoop hstage
      rw [Link.step_deliver (h.toResponder.trans hmsg) hrecv]
      have hrouted : ((responderRound ns other loop msg).2.filter fun msg =>
          routedToSession msg.type) = (responderRound ns other loop msg).2 :=
        routed_reconcileRound _ _ _
      have hd : ex.deliver ns own other .responder = some
          { ex with
            responder := some (responderRound ns other loop msg).1
            toResponder := inbox
            toInitiator := ex.toInitiator ++ (responderRound ns other loop msg).2 } := by
        simp [Exchange.deliver, hmsg, hresponder, hwaiting]
      have hnext := lockstep_deliver h.lockstep h.ownSnapshot h.otherSnapshot hd
      refine .exchanging (t := t + 1) ⟨hnext, h.waiting, ?_, ?_, h.skipped, ?_, h.ownSnapshot,
        h.otherSnapshot, h.all, ?_, ?_, ?_⟩
      · simpa using h.begun
      · simpa using h.stage
      · simpa using h.records
      · rw [Link.session_update_self]
        exact answering_next henv hhit hnext rfl hbegun hcached hrecords h.ownSnapshot
          h.otherSnapshot
      · rw [Link.inbox_update_responder, hrouted, h.toInitiator]
      · rw [Link.inbox_update_self]

/-- The responder's snapshot is a snapshot, cached or not. -/
theorem cachedHashes_snapshot (hbegun : S.Begun .responder s) (hcached : S.Cached s)
    (henv : env ∈ S.envs .responder) : S.Snapshot .responder ns (s.cachedHashes env ns) := by
  simp only [Session.cachedHashes]
  split_ifs with hempty
  · exact ⟨env, henv, hbegun.snapshotHashes_eq⟩
  · cases hentry : s.nsHashCache[ns]? with
    | none => simp [hentry] at hempty
    | some hashes => exact hcached ns hashes hentry

theorem cached_insert {hashes : List Hash32} (hcached : S.Cached s)
    (hsnapshot : S.Snapshot .responder ns hashes) :
    S.Cached { s with nsHashCache := s.nsHashCache.insert ns hashes } := by
  intro ns' hashes' hentry
  rw [getElem?_insert_eq] at hentry
  split_ifs at hentry with hsame
  · subst hsame
    obtain rfl := Option.some.inj hentry
    exact hsnapshot
  · exact hcached ns' hashes' hentry

/-- The responder reads the init message. -/
theorem exchanging_start (henv : env ∈ S.envs .responder)
    (hbegun : S.Begun .initiator (link.session .initiator))
    (hstage : (link.session .initiator).stage = .initiatorLoop ns own hit ⟨.waiting, 0, []⟩ rest)
    (hhit : hit = true → S.Skipped .initiator ns)
    (hrecords : S.Records .initiator done (link.session .initiator).missingPerNs)
    (hown : S.Snapshot .initiator ns own) (hall : done ++ ns :: rest = S.namespaces)
    (hempty : link.inbox .initiator = [])
    (hinbox : link.inbox .responder = (initiatorStart ns own).2)
    (hlag : S.Lag (link.session .responder) [] done) :
    S.Reconciling (link.step P (.deliver .responder env)) := by
  cases hlag with
  | idle hbegunR hstageR hcached hrecordsR =>
    have hdecode : decodeReconcileInit (encodeReconcileInit (initOf ns own)) =
      some (initOf ns own) :=
      decodeReconcileInit_encode rfl
    have hother : S.Snapshot .responder ns _ := cachedHashes_snapshot hbegunR hcached henv
    generalize hother' : (link.session .responder).cachedHashes env ns = other at hother
    have hpeerSyncs : env.peerSyncs ns = true := by
      have hfilter := ((S.isOpen _ env henv).filter ns).trans
        (shared_of_mem_namespaces (by simp [← hall]))
      exact (Bool.and_eq_true_iff.mp hfilter).2
    have hns : (initOf ns own).namespaceId = ns := rfl
    have hrecv : (link.session .responder).recv P env
        (some ⟨.reconcileInit, encodeReconcileInit (initOf ns own)⟩) =
        ({ link.session .responder with nsHashCache :=
            (link.session .responder).nsHashCache.insert ns other }.responderNext env ns other
              ((link.session .responder).cursorSkipNamespaces.contains ns)
              (responderStart other (initOf ns own)).1,
              (responderStart other (initOf ns own)).2) := by
      simp only [Session.recv, hstageR, Session.respondTo, hdecode, hns, hpeerSyncs, Bool.not_true,
        Bool.false_eq_true, if_false, hother']
    rw [Link.step_deliver hinbox hrecv]
    have hd : (Exchange.start ns own).deliver ns own other .responder = some
        { initiator := ⟨.waiting, 0, []⟩
          responder := some (responderStart other (initOf ns own)).1
          toInitiator := (responderStart other (initOf ns own)).2
          toResponder := [] } := by
      simp [Exchange.deliver, Exchange.start, initiatorStart, hdecode]
    have hnext := lockstep_deliver .opening hown hother hd
    have hrouted : ((responderStart other (initOf ns own)).2.filter fun msg =>
        routedToSession msg.type) = (responderStart other (initOf ns own)).2 := by
      unfold responderStart
      split
      · rfl
      · split_ifs <;> simp [routedToSession]
    refine .exchanging (t := 0) ⟨hnext, rfl, ?_, ?_, hhit, ?_, hown, hother, hall, ?_, ?_, ?_⟩
    · simpa using hbegun
    · simpa using hstage
    · simpa using hrecords
    · rw [Link.session_update_self]
      exact answering_next henv hbegunR.skipped hnext rfl
        ⟨hbegunR.role, hbegunR.peerHash, hbegunR.store, hbegunR.peers, hbegunR.skips⟩
        (cached_insert hcached hother) hrecordsR hown hother
    · rw [Link.inbox_update_responder, hrouted, hempty, List.nil_append]
    · rw [Link.inbox_update_self]

/-- The responder reads the end of phase B. -/
theorem reconciled_start (hbegun : S.Begun .initiator s)
    (hrecords : S.Records .initiator S.namespaces s.missingPerNs)
    (hsession : link.session .initiator = (s.nextBatch (Session.requests s.missingPerNs)).1)
    (hempty : link.inbox .initiator = [])
    (hinbox : link.inbox .responder =
      ⟨.syncComplete, []⟩ :: (s.nextBatch (Session.requests s.missingPerNs)).2)
    (hlag : S.Lag (link.session .responder) [] S.namespaces) :
    S.Reconciled (link.step P (.deliver .responder env)) := by
  cases hlag with
  | idle hbegunR hstageR hcached hrecordsR =>
    set missing := Session.requests (link.session .responder).missingPerNs with hmissing
    have hrecv : (link.session .responder).recv P env (some ⟨.syncComplete, []⟩) =
        (((link.session .responder).nextBatch missing).1,
          ((link.session .responder).nextBatch missing).2) := by
      simp only [Session.recv, hstageR]
      rfl
    rw [Link.step_deliver hinbox hrecv]
    refine .mk (Side.rec (motive := fun _ => Session) s (link.session .responder)) ?_ ?_ ?_ ?_
    · rintro (_ | _)
      · exact hbegun
      · exact hbegunR
    · rintro (_ | _)
      · exact hrecords
      · exact hrecordsR
    · rintro (_ | _)
      · rw [Link.session_update_responder, hsession]
      · rw [Link.session_update_self, hmissing]
    · rintro (_ | _)
      · exact Link.inbox_update_self
      · show (link.update .responder _ _ _).inbox .initiator = _
        rw [Link.inbox_update_responder, hempty, routed_nextBatch, List.nil_append, hmissing]

/-- The initiator reads the responder's namespace list. -/
theorem advanced_listed (henv : env ∈ S.envs .initiator)
    (hstage : (link.session .initiator).stage = .awaitNamespaces)
    (hunlisted : S.Unlisted .initiator (link.session .initiator))
    (hours : (link.session .initiator).ourNamespaces = S.announced .initiator)
    (hinbox : link.inbox .initiator = [S.listMessage .responder])
    (hlag : S.Lag (link.session .responder) (link.inbox .responder) []) :
    S.Reconciling (link.step P (.deliver .initiator env)) := by
  set s := (link.session .initiator).listed env (S.announced .responder) with hs
  have hbegun : S.Begun .initiator s := hunlisted.listed henv
  have hall : allNamespaces s.ourNamespaces s.peerNamespaces = S.namespaces := by
    rw [namespaces, ← hours]
    rfl
  have hadvanced : S.Advanced [] _ _ := advanced_next hbegun
    (fun ns hns => absurd hns List.not_mem_nil) (List.nil_append S.namespaces) henv
  have hrecv : (link.session .initiator).recv P env (some (S.listMessage .responder)) =
      ((s.nextNamespace env S.namespaces).1, (s.nextNamespace env S.namespaces).2) := by
    have hside : s.side = .initiator := hunlisted.role
    rw [recv_awaitNamespaces hstage rfl, Session.reconcile, decode_listMessage, ← hs, hside, hall]
  rw [Link.step_deliver hinbox hrecv]
  refine .advanced (by simpa using hadvanced) (by simp) ?_ (by simpa using hlag)
  rw [Link.inbox_update_initiator, hadvanced.routed]

/-- The initiator reads the answer to its request. -/
theorem listing_accepted (henv : env ∈ S.envs .initiator)
    (hstage : (link.session .initiator).stage = .awaitAccept)
    (hunlisted : S.Unlisted .initiator (link.session .initiator))
    (hlag : S.Lag (link.session .responder) [S.listMessage .initiator] [])
    (hinbox : link.inbox .initiator = [⟨.syncAccept, []⟩, S.listMessage .responder])
    (hempty : link.inbox .responder = []) :
    S.Reconciling (link.step P (.deliver .initiator env)) := by
  have hours : ourNamespaces env (link.session .initiator).tables =
      S.announced .initiator := by
    rw [hunlisted.store, ourNamespaces_open (S.isOpen _ env henv)]
    rfl
  have hrecv : (link.session .initiator).recv P env (some ⟨.syncAccept, []⟩) =
      (link.session .initiator).accepted env := by
    simp only [Session.recv, hstage, if_true]
  rw [Session.accepted, hours] at hrecv
  rw [Link.step_deliver hinbox hrecv]
  refine .listing (by simp) (by simpa using ⟨hunlisted.1, hunlisted.2, hunlisted.3⟩) (by simp)
    (by simp) ?_
  rw [Link.inbox_update_initiator, hempty, Link.session_update_initiator]
  exact hlag

/-- The responder reads a message the initiator does not wait for. -/
theorem advanced_lag {lag : List SyncMessage} {msg : SyncMessage}
    (henv : env ∈ S.envs .responder) (hinitiator : S.Advanced done (link.session .initiator) out)
    (hempty : link.inbox .initiator = []) (hinbox : link.inbox .responder = (msg :: lag) ++ out)
    (hlag : S.Lag (link.session .responder) (msg :: lag) done) :
    S.Reconciling (link.step P (.deliver .responder env)) := by
  obtain ⟨s, hrecv, hlag⟩ := hlag.read henv
  rw [Link.step_deliver hinbox hrecv]
  have hinbox' : (link.update .responder s (lag ++ out) []).inbox .responder = lag ++ out :=
    Link.inbox_update_self
  exact .advanced (by simpa using hinitiator) (by simpa using hempty) hinbox' (by simpa using hlag)

/-- The responder still answers in phases A and B. -/
theorem Reconciling.responder_busy (h : S.Reconciling link) :
    ¬ (link.session .responder).stage.Settled := by
  cases h with
  | greeting _ _ hlag _ _ => exact hlag.not_settled
  | listing _ _ _ _ hlag => exact hlag.not_settled
  | advanced _ _ _ hlag => exact hlag.not_settled
  | exchanging h => exact h.answering.not_settled

theorem Advanced.not_finished (h : S.Advanced done s out) :
    s.stage ≠ .finished := by
  cases h with
  | opening _ hstage _ _ _ _ => simp [hstage]
  | complete _ _ _ =>
    unfold Session.nextBatch
    split <;> simp

/-- No side has ended its session in phases A and B. -/
theorem Reconciling.not_finished (h : S.Reconciling link) (side : Side) :
    (link.session side).stage ≠ .finished := by
  cases side with
  | responder => exact fun hstage => h.responder_busy (.inr hstage)
  | initiator =>
    cases h with
    | greeting hstage _ _ _ _ => simp [hstage]
    | listing hstage _ _ _ _ => simp [hstage]
    | advanced hinitiator _ _ _ => exact hinitiator.not_finished
    | exchanging h => simp [h.stage]

/-- In phases A and B a side that has all it asked for still waits for the other. -/
theorem Reconciling.no_timeout (h : S.Reconciling link) {side : Side}
    (hstage : (link.session side).stage = .remaining) :
    ¬ (link.session side.other).stage.Settled := by
  cases side with
  | initiator => exact h.responder_busy
  | responder => exact absurd (.inl hstage) h.responder_busy

/-- **Every turn of phases A and B** keeps the invariant, or ends phase B on both sides. -/
theorem Reconciling.step {e : LinkEvent} (h : S.Reconciling link) (hsmooth : S.Smooth link e) :
    S.Reconciling (link.step P e) ∨ S.Reconciled (link.step P e) := by
  cases e with
  | lost side => exact hsmooth.elim
  | timeout side env => exact absurd hsmooth.2.2 (h.no_timeout hsmooth.2.1)
  | deliver side env =>
    cases hinbox : link.inbox side with
    | nil =>
      rw [Link.step_deliver_nil hinbox]
      exact .inl h
    | cons msg inbox =>
      cases h with
      | greeting hstage hunlisted hlag hinboxI hempty =>
        cases side with
        | initiator =>
          exact .inl (listing_accepted hsmooth hstage hunlisted hlag hinboxI hempty)
        | responder => simp [hempty] at hinbox
      | listing hstage hunlisted hours hinboxI hlag =>
        cases side with
        | initiator =>
          exact .inl (advanced_listed hsmooth hstage hunlisted hours hinboxI hlag)
        | responder =>
          rw [hinbox] at hlag
          obtain ⟨s, hrecv, hlag⟩ := hlag.read hsmooth
          rw [Link.step_deliver hinbox hrecv]
          exact .inl (.listing (by simpa using hstage) (by simpa using hunlisted)
            (by simpa using hours) (by simpa using hinboxI) (by simpa using hlag))
      | advanced hinitiator hempty hinboxR hlag =>
        cases side with
        | initiator => simp [hempty] at hinbox
        | responder =>
          rename_i done lag out
          cases lag with
          | cons msg lag => exact .inl (advanced_lag hsmooth hinitiator hempty hinboxR hlag)
          | nil =>
            generalize hsession : link.session .initiator = s at hinitiator
            cases hinitiator with
            | opening hbegun hstage hhit hrecords hown hall =>
              subst hsession
              exact .inl (exchanging_start hsmooth hbegun hstage hhit hrecords hown hall
                hempty hinboxR hlag)
            | complete hbegun hall hrecords =>
              subst hall
              exact .inr (reconciled_start hbegun hrecords hsession hempty hinboxR hlag)
      | exchanging h =>
        cases side with
        | initiator => exact .inl (h.initiator hsmooth (h.toInitiator.symm.trans hinbox))
        | responder => exact .inl (h.responder hsmooth (h.toResponder.symm.trans hinbox))

end Step

/-! ## The first state -/

/-- The responder has just started its coroutine. -/
def start (S : Setting P) (env : SyncEnv) : Link :=
  Link.start env (S.tables .initiator) (S.tables .responder) (S.peerHash .responder)
    (S.peerHash .initiator)

theorem reconciling_start (henv : env ∈ S.envs .responder) : S.Reconciling (S.start env) := by
  have hours : ourNamespaces env (S.tables .responder) = S.announced .responder :=
    ourNamespaces_open (S.isOpen _ env henv)
  have hlag : S.Lag ((S.start env).session .responder) [S.listMessage .initiator] [] := by
    refine .list ⟨rfl, rfl, rfl⟩ rfl fun ns hashes hentry => ?_
    simp [start, Link.start, handleSyncAsResponder] at hentry
  refine .greeting rfl ⟨rfl, rfl, rfl⟩ hlag ?_ rfl
  simp only [start, Link.start, handleSyncAsResponder, hours, listMessage]

end Setting

end Peer
