import Chromatin.Peer.PeerManager
import Chromatin.Properties.RangeSafety
import Chromatin.Wire.Sample
import Chromatin.Infra.Run
import Mathlib.Logic.Relation

/-!
# The `syncing` flag

The flag is meant to keep the coroutines of a connection apart, and to be reset when the one that
has set it ends.

* `Move` lists what a coroutine can do to the flags, the coroutines and the timer loop, and
  `step_moves` says that an event is a sequence of moves.
* `one_session_iff` — there is at most one session per connection until a spawned
  `handle_sync_as_responder` starts beside another one, which is the one start that does not look at
  the flag
* `flags_released` — no flag stays set behind its coroutine, and the timer loop goes on, as long as
  every message that a session receives can be decoded
-/

namespace Peer

open Infra Util Wire Storage Engine Sync

namespace PeerManager

/-- The flag of a connection. -/
def flag (pm : PeerManager) (conn : ConnId) : Option Bool := pm.peers[conn]?.map PeerInfo.syncing

/-! ## Sessions that no exception has left -/

/-- The session has not been left by an exception or an access outside a list. -/
def intact (s : Session) : Bool :=
  match s.stage with
  | .thrown | .undefined => false
  | _ => true

/-- The session can decode the message: the blobs of a transfer are valid, and the ranges that are
compared are in bounds of the local list. -/
def accepts (P : Primitives) (s : Session) (msg : SyncMessage) : Bool :=
  match s.stage, msg.type with
  | .transfer .., .blobTransfer => (decodeBlobTransfer P msg.payload).isSome
  | .initiatorLoop _ ourHashes _ _ _, .reconcileRanges | .responderLoop _ ourHashes _ _,
      .reconcileRanges =>
    match decodeReconcileRanges msg.payload with
    | none => true
    | some decoded => !hasFingerprint decoded.ranges ||
        (processRanges ourHashes decoded.ranges).isSome
  | _, _ => true

section Intact

variable {P : Primitives} {env : SyncEnv} {s : Session} {ns : Hash32} {ourHashes : List Hash32}
  {cursorHit : Bool} {loop : ReconcileLoop}

theorem intact_nextBatch (batches : List (Hash32 × List Hash32)) :
    intact (s.nextBatch batches).1 = true := by
  cases batches <;> rfl

theorem intact_nextNamespace (rest : List Hash32) : intact (s.nextNamespace env rest).1 = true := by
  induction rest with
  | nil => exact intact_nextBatch _
  | cons ns rest ih =>
    rw [Session.nextNamespace]
    split_ifs
    · exact intact_nextBatch _
    · exact ih
    · rfl

theorem intact_respond : intact (s.respond env) = true := by
  unfold intact Session.respond
  dsimp only
  split_ifs <;> rfl

theorem intact_initiatorNext (rest : List Hash32) (hloop : loop.phase ≠ .undefined) :
    intact (s.initiatorNext env ns ourHashes cursorHit loop rest).1 = true := by
  unfold Session.initiatorNext
  cases hphase : loop.phase with
  | waiting => rfl
  | left => exact intact_nextNamespace rest
  | exhausted => exact intact_nextNamespace rest
  | aborted => rfl
  | undefined => exact absurd hphase hloop

theorem intact_responderNext (hloop : loop.phase ≠ .undefined) :
    intact (s.responderNext env ns ourHashes cursorHit loop) = true := by
  unfold Session.responderNext
  cases hphase : loop.phase with
  | waiting => rfl
  | left => exact intact_respond
  | exhausted => exact intact_respond
  | aborted => rfl
  | undefined => exact absurd hphase hloop

/-- The range of a `ReconcileInit` starts at the first hash, so it is in bounds. -/
theorem responderStart_defined (ourHashes : List Hash32) (init : ReconcileInit) :
    (responderStart ourHashes init).1.phase ≠ .undefined := by
  have hbounds : (rangeAction ourHashes minHash (initRangeOf init)).InBounds ourHashes.length := by
    have hzero : lowerBound ourHashes minHash = 0 := by
      rw [lowerBound, List.length_eq_zero_iff]
      cases ourHashes with
      | nil => rfl
      | cons hash rest => exact List.takeWhile_cons_of_neg (by simpa using minHash_le hash)
    have hle : lowerBound ourHashes minHash ≤
        lowerBound ourHashes (initRangeOf init).upperBound := by
      rw [hzero]
      exact Nat.zero_le _
    refine ⟨fun b e hpair => ?_, fun mid hmid => splitIndex_lt hle hmid⟩
    have hmode : (initRangeOf init).mode ≠ .skip := by simp [initRangeOf]
    rw [indexPair_rangeAction hmode, rangeIndices, Option.some.injEq, Prod.mk.injEq] at hpair
    obtain ⟨rfl, rfl⟩ := hpair
    exact ⟨hle, lowerBound_le_length _ _⟩
  have hsome : (processRanges ourHashes [initRangeOf init]).isSome = true := by
    refine processFrom_isSome_of_inBounds fun action haction => ?_
    rw [List.mem_singleton.mp haction]
    exact hbounds
  obtain ⟨result, hresult⟩ := Option.isSome_iff_exists.mp hsome
  unfold responderStart
  rw [hresult]
  dsimp only
  split_ifs <;> simp

/-- A round that compares ranges in bounds stays in the loop or leaves it. -/
theorem reconcileRound_defined {invalid : LoopPhase}
    (hinvalid : invalid ≠ .undefined) {msg : SyncMessage} (hdefined : msg.type = .reconcileRanges →
      ∀ decoded, decodeReconcileRanges msg.payload = some decoded →
      hasFingerprint decoded.ranges = true →
      (processRanges ourHashes decoded.ranges).isSome = true) :
    (reconcileRound invalid ns ourHashes loop msg).1.phase ≠ .undefined := by
  unfold reconcileRound
  cases htype : msg.type with
  | reconcileRanges =>
    dsimp only
    cases hdecoded : decodeReconcileRanges msg.payload with
    | none => exact hinvalid
    | some decoded =>
      dsimp only
      split_ifs with hempty hfingerprint
      · simp [ReconcileLoop.leave]
      · obtain ⟨result, hresult⟩ :=
          Option.isSome_iff_exists.mp (hdefined htype decoded hdecoded hfingerprint)
        rw [hresult]
        dsimp only [ReconcileLoop.next]
        split_ifs <;> simp
      · simp [ReconcileLoop.leave]
  | reconcileItems =>
    dsimp only
    cases decodeReconcileItems msg.payload <;> simp [ReconcileLoop.leave]
  | _ => simp [ReconcileLoop.leave]

theorem accepts_ranges {msg : SyncMessage} {rest : List Hash32}
    (hstage : s.stage = .initiatorLoop ns ourHashes cursorHit loop rest ∨
      s.stage = .responderLoop ns ourHashes cursorHit loop) (haccepts : accepts P s msg = true)
    (htype : msg.type = .reconcileRanges) (decoded : DecodedRanges)
    (hdecoded : decodeReconcileRanges msg.payload = some decoded)
    (hfingerprint : hasFingerprint decoded.ranges = true) :
    (processRanges ourHashes decoded.ranges).isSome = true := by
  unfold accepts at haccepts
  rcases hstage with hstage | hstage <;>
  · rw [hstage, htype] at haccepts
    simpa [hdecoded, hfingerprint] using haccepts

/-- A message that the session can decode leaves it intact. -/
theorem intact_recv {msg : SyncMessage}
    (hintact : intact s = true) (haccepts : accepts P s msg = true) :
    intact (s.recv P env (some msg)).1 = true := by
  unfold Session.recv
  cases hstage : s.stage with
  | awaitAccept =>
    dsimp only
    split_ifs <;> rfl
  | awaitNamespaces =>
    dsimp only
    split_ifs
    · unfold Session.reconcile
      dsimp only
      split
      · exact intact_nextNamespace _
      · exact intact_respond
    · rfl
  | initiatorLoop ns ourHashes cursorHit loop rest =>
    exact intact_initiatorNext rest
      (reconcileRound_defined (by simp) (accepts_ranges (.inl hstage) haccepts))
  | responderIdle =>
    dsimp only
    unfold Session.respondTo
    split
    · exact intact_nextBatch _
    · split
      · exact intact_respond
      · dsimp only
        split_ifs
        · exact intact_respond
        · exact intact_responderNext (responderStart_defined _ _)
    · exact intact_respond
  | responderLoop ns ourHashes cursorHit loop =>
    have hrest : accepts P s msg = true := haccepts
    exact intact_responderNext (reconcileRound_defined (by simp)
      (@accepts_ranges P s ns ourHashes cursorHit loop msg [] (.inr hstage) hrest))
  | transfer expected received rest =>
    dsimp only
    unfold Session.transferring
    split
    · rename_i htype
      have hsome : (decodeBlobTransfer P msg.payload).isSome = true := by
        unfold accepts at haccepts
        rw [hstage, htype] at haccepts
        exact haccepts
      obtain ⟨nsBlobs, hblobs⟩ := Option.isSome_iff_exists.mp hsome
      rw [hblobs]
      dsimp only
      split_ifs
      · rfl
      · exact intact_nextBatch _
    · unfold Session.answer
      split_ifs <;> simp [intact, hstage]
    · exact hintact
  | remaining =>
    dsimp only
    split_ifs
    · unfold Session.answer
      split_ifs <;> simp [intact, hstage]
    · rfl
  | finished => simp [intact, hstage]
  | aborted => simp [intact, hstage]
  | thrown => simp [intact, hstage] at hintact
  | undefined => simp [intact, hstage] at hintact

theorem intact_recv_none (hintact : intact s = true) : intact (s.recv P env none).1 = true := by
  unfold Session.recv
  cases hstage : s.stage with
  | transfer expected received rest => exact intact_nextBatch rest
  | thrown => simp [intact, hstage] at hintact
  | undefined => simp [intact, hstage] at hintact
  | finished => simp [intact, hstage]
  | aborted => simp [intact, hstage]
  | _ => rfl

end Intact

/-- The session of a coroutine, if it has one, is intact. -/
def sound : Job → Bool
  | .sending _ s | .receiving s => intact s
  | _ => true

/-! ## What an event can do -/

/-- A step of one coroutine. `joins` allows to start although the flag is set, `throws` to end
without resetting it. -/
inductive Move (joins throws : Prop) (pm : PeerManager) : PeerManager → Prop
  | keepFlag {conn : ConnId} {peer peer' : PeerInfo} : pm.peers[conn]? = some peer →
      peer'.syncing = peer.syncing → Move joins throws pm (pm.setPeer conn peer')
  | connect {peer : PeerInfo} : peer.syncing = false →
      Move joins throws pm { pm.setPeer pm.connections peer with connections := pm.connections + 1 }
  | disconnect {conn : ConnId} : Move joins throws pm { pm with peers := pm.peers.erase conn }
  | spawn (c : Coroutine) {peer : PeerInfo} : pm.peers[c.conn]? = some peer →
      c.job.running = false → Move joins throws pm (pm.spawn c)
  | start {i : Nat} {c : Coroutine} {peer peer' : PeerInfo} {job : Job} :
      pm.coroutines[i]? = some c → c.job.running = false → pm.peers[c.conn]? = some peer →
      peer.syncing = false ∨ joins → peer'.syncing = true → job.running = true → sound job = true →
      Move joins throws pm ((pm.setPeer c.conn peer').setJob i c job)
  | startNew (c : Coroutine) {peer peer' : PeerInfo} : pm.peers[c.conn]? = some peer →
      peer.syncing = false → peer'.syncing = true → c.job.running = true → sound c.job = true →
      Move joins throws pm ((pm.setPeer c.conn peer').spawn c)
  | goOn {i : Nat} {c : Coroutine} {job : Job} : pm.coroutines[i]? = some c → c.job.running = true →
      job.running = true → (sound job = false → throws) → Move joins throws pm (pm.setJob i c job)
  | release {i : Nat} {c : Coroutine} {peer : PeerInfo} : pm.coroutines[i]? = some c →
      c.job.running = true → pm.peers[c.conn]? = some peer →
      Move joins throws pm ((pm.setPeer c.conn { peer with syncing := false }).setJob i c .returned)
  | leave {i : Nat} {c : Coroutine} : pm.coroutines[i]? = some c →
      c.job.running = false ∨ pm.peers[c.conn]? = none →
        Move joins throws pm (pm.setJob i c .returned)
  | wreck {i : Nat} {c : Coroutine} {job : Job} : pm.coroutines[i]? = some c → throws →
      job.running = false → Move joins throws pm (pm.setJob i c job)
  | timer {timer : TimerLoop} : (timer = .thrown → throws) →
      (timer = .stopped → pm.stopping = true) →
      Move joins throws pm { pm with timer }
  | stop : Move joins throws pm { pm with stopping := true }
  | write {tables : Tables} : Move joins throws pm { pm with tables }

/-- The moves of one event. -/
abbrev Moves (joins throws : Prop) : PeerManager → PeerManager → Prop :=
  Relation.ReflTransGen (Move joins throws)

/-- What every move keeps, an event keeps. -/
theorem Moves.rule {joins throws : Prop} {I : PeerManager → Prop}
    (hmove : ∀ pm pm', Move joins throws pm pm' → I pm → I pm') {pm pm' : PeerManager}
    (hmoves : Moves joins throws pm pm') (h : I pm) : I pm' := by
  induction hmoves with
  | refl => exact h
  | tail _ hlast ih => exact hmove _ _ hlast ih

section Moves

variable {joins throws : Prop} {P : Primitives} {pm : PeerManager} {env : SyncEnv} {i : Nat}
  {c : Coroutine} {s : Session}

theorem syncNext_moves : ∀ (rest : List ConnId) (pm : PeerManager),
    Moves joins throws pm (pm.syncNext rest)
  | [], pm => by
    refine .single (.timer (fun h => ?_) fun h => ?_)
    · split_ifs at h
    · by_contra hrunning
      rw [if_neg hrunning] at h
      exact absurd h (by simp)
  | conn :: rest, pm => by
    rw [syncNext]
    cases hpeer : pm.peers[conn]? with
    | none => exact syncNext_moves rest pm
    | some peer =>
      dsimp only
      split_ifs with hflag
      · exact syncNext_moves rest pm
      · let c : Coroutine :=
          { conn, job := .sending (runSyncWithPeer pm.tables peer.peerHash).2
              (runSyncWithPeer pm.tables peer.peerHash).1, byTimer := true }
        have hstart : Move joins throws pm
            ((pm.setPeer conn { peer with syncing := true, syncInbox := [] }).spawn c) :=
          .startNew c hpeer (Bool.eq_false_of_not_eq_true hflag) rfl rfl rfl
        exact .tail (.single hstart) (.timer (by simp) (by simp))

variable (hi : pm.coroutines[i]? = some c) (hrunning : c.job.running = true)

include hi hrunning

theorem finish_moves : Moves joins throws pm (pm.finish i c) := by
  unfold finish
  cases hpeer : pm.peers[c.conn]? with
  | none =>
    have hmove : Move joins throws pm _ := .leave hi (.inr hpeer)
    dsimp only
    split
    · exact .head hmove (syncNext_moves _ _)
    · exact .single hmove
  | some peer =>
    have hmove : Move joins throws pm _ := .release hi hrunning hpeer
    dsimp only
    split
    · exact .head hmove (syncNext_moves _ _)
    · exact .single hmove

omit hrunning in
theorem raise_moves (hthrows : throws) : Moves joins throws pm (pm.raise i c) := by
  have hwreck : Move joins throws pm (pm.setJob i c .thrown) := .wreck hi hthrows rfl
  unfold raise
  dsimp only
  split_ifs
  · exact .tail (.single hwreck) (.timer (fun _ => hthrows) (by simp))
  · exact .single hwreck

theorem proceed_moves (hintact : intact s = false → throws) :
    Moves joins throws pm (pm.proceed env i c s) := by
  unfold proceed
  split
  · exact finish_moves hi hrunning
  · rename_i hstage
    exact raise_moves hi (hintact (by rw [intact, hstage]))
  · rename_i hstage
    exact .single (.wreck hi (hintact (by rw [intact, hstage])) rfl)
  · split_ifs
    · exact .single (.goOn hi hrunning rfl (by simp [sound]))
    · exact finish_moves hi hrunning
  · exact .single (.goOn hi hrunning rfl hintact)

theorem goOn_moves (hintact : intact s = false → throws) (out : List SyncMessage) :
    Moves joins throws pm (pm.goOn env i c s out) := by
  cases out with
  | nil => exact proceed_moves hi hrunning hintact
  | cons msg out => exact .single (.goOn hi hrunning rfl hintact)

theorem afterSend_moves (hintact : intact s = false → throws) (msg : SyncMessage)
    (out : List SyncMessage) (ok : Bool) :
    Moves joins throws pm (pm.afterSend env i c s msg out ok) := by
  unfold afterSend
  split_ifs
  · exact finish_moves hi hrunning
  · exact .single (.goOn hi hrunning rfl (by simp [sound]))
  · exact goOn_moves hi hrunning hintact out
  · exact goOn_moves hi hrunning hintact out
  · exact finish_moves hi hrunning

/-- The session has handled a message or a timeout. -/
theorem handled_moves (handled : Session × List SyncMessage)
    (hintact : intact handled.1 = false → throws) : Moves joins throws pm
      ({ pm with tables := handled.1.tables }.goOn env i c handled.1 handled.2) := by
  have hi' : { pm with tables := handled.1.tables }.coroutines[i]? = some c := hi
  exact .head .write (goOn_moves hi' hrunning hintact handled.2)

theorem receive_moves {msg : SyncMessage} {allocates : Nat → Bool}
    (hharmless : (reserveFails allocates s msg = false ∧ accepts P s msg = true) ∧
      intact s = true ∨ throws) :
    Moves joins throws pm (receive P pm env allocates i c s msg) := by
  unfold receive
  split_ifs with hfails
  · refine raise_moves hi (hharmless.resolve_left fun h => ?_)
    rw [h.1.1] at hfails
    exact Bool.false_ne_true hfails
  · refine handled_moves hi hrunning _ fun hbroken => hharmless.resolve_left ?_
    rintro ⟨⟨-, haccepts⟩, hintact⟩
    have hrecv : intact ({ s with tables := pm.tables }.recv P env (some msg)).1 = true :=
      intact_recv hintact haccepts
    exact Bool.false_ne_true (hbroken.symm.trans hrecv)

theorem timeOut_moves (hintact : intact s = true ∨ throws) :
    Moves joins throws pm (timeOut P pm env i c s) := by
  refine handled_moves hi hrunning _ fun hbroken => hintact.resolve_left fun hintact => ?_
  have hrecv : intact ({ s with tables := pm.tables }.recv P env none).1 = true :=
    intact_recv_none hintact
  exact Bool.false_ne_true (hbroken.symm.trans hrecv)

end Moves

/-! ## Events -/

/-- A message that a session takes from the inbox can be decoded, and there is memory for the
elements it announces. -/
def harmless (P : Primitives) (pm : PeerManager) : PeerEvent → Bool
  | .received i _ allocates =>
    match pm.coroutines[i]? with
    | some c =>
      match c.job, pm.peers[c.conn]? with
      | .receiving s, some peer =>
        match peer.syncInbox with
        | msg :: _ => !reserveFails allocates s msg && accepts P s msg
        | [] => true
      | _, _ => true
    | none => true
  | _ => true

/-- A spawned `handle_sync_as_responder` only starts while the flag is not set. -/
def Guarded (pm : PeerManager) (event : PeerEvent) : Prop :=
  ∀ i env c, event = .start i env → pm.coroutines[i]? = some c →
    c.job = .spawned .handleSyncAsResponder → pm.flag c.conn ≠ some true

/-- Every session is intact. -/
def Sound (pm : PeerManager) : Prop := ∀ c ∈ pm.coroutines, sound c.job = true

section Events

variable {joins throws : Prop} {P : Primitives} {pm : PeerManager} {env : SyncEnv} {i : Nat}
  {c : Coroutine}

theorem startCoroutine_moves {entry : Spawned} (hi : pm.coroutines[i]? = some c)
    (hjob : c.job = .spawned entry)
    (hjoins : entry = .handleSyncAsResponder → pm.flag c.conn ≠ some true ∨ joins) :
    Moves joins throws pm (pm.startCoroutine env i c entry) := by
  have hidle : c.job.running = false := by rw [hjob]; rfl
  unfold startCoroutine
  cases hpeer : pm.peers[c.conn]? with
  | none => exact .single (.leave hi (.inl hidle))
  | some peer =>
    cases entry with
    | runSyncWithPeer =>
      dsimp only
      split_ifs with hflag
      · exact .single (.leave hi (.inl hidle))
      · exact .single (.start hi hidle hpeer
          (.inl (Bool.eq_false_of_not_eq_true hflag)) rfl rfl rfl)
    | handleSyncAsResponder =>
      refine .single (.start hi hidle hpeer ?_ rfl rfl rfl)
      refine (hjoins rfl).imp_left fun hflag => ?_
      rw [flag, hpeer] at hflag
      simpa using hflag
    | handlePexAsResponder =>
      dsimp only
      split_ifs with hflag
      · exact .single (.leave hi (.inl hidle))
      · rw [Bool.or_eq_true, not_or] at hflag
        exact .single (.start hi hidle hpeer
          (.inl (Bool.eq_false_of_not_eq_true hflag.1)) rfl rfl rfl)

theorem runPexWithPeer_moves (conn : ConnId) : Moves joins throws pm (pm.runPexWithPeer conn) := by
  unfold runPexWithPeer
  cases hpeer : pm.peers[conn]? with
  | none => exact .refl
  | some peer =>
    dsimp only
    split_ifs with hflag
    · exact .refl
    · exact .single (.startNew { conn, job := .peerLists false } hpeer
        (Bool.eq_false_of_not_eq_true hflag) rfl rfl rfl)

/-- A spawned coroutine on a connection that is there. -/
theorem spawn_moves {conn : ConnId} {peer peer' : PeerInfo} (hpeer : pm.peers[conn]? = some peer)
    (hflag : peer'.syncing = peer.syncing) (entry : Spawned) :
    Moves joins throws pm ((pm.setPeer conn peer').spawn { conn, job := .spawned entry }) := by
  have hthere : (pm.setPeer conn peer').peers[conn]? = some peer' := by
    simp [setPeer]
  exact .tail (.single (.keepFlag hpeer hflag)) (.spawn { conn, job := .spawned entry } hthere rfl)

theorem onPeerMessage_moves (env : DispatchEnv) (conn : ConnId) (msg : SyncMessage) :
    Moves joins throws pm (pm.onPeerMessage env conn msg) := by
  unfold onPeerMessage
  cases hpeer : pm.peers[conn]? with
  | none => exact .refl
  | some peer =>
    dsimp only
    split
    · split_ifs
      · exact .refl
      · refine spawn_moves hpeer ?_ _
        rfl
    · split_ifs
      · exact .single (.keepFlag hpeer rfl)
      · refine spawn_moves hpeer ?_ _
        rfl
    · split_ifs
      · exact .single (.keepFlag hpeer rfl)
      · exact .refl

theorem running_of_waits (h : waits c = true) : c.job.running = true := by
  unfold waits at h
  split at h
  · rename_i hjob
    rw [hjob]
    rfl
  · rename_i hjob
    rw [hjob]
    rfl
  · exact absurd h Bool.false_ne_true

theorem takeMessage_moves {allocates : Nat → Bool} (hi : pm.coroutines[i]? = some c)
    (hrunning : c.job.running = true)
    (hharmless : harmless P pm (.received i env allocates) = true ∧ sound c.job = true ∨ throws) :
    Moves joins throws pm (takeMessage P pm env allocates i c) := by
  unfold takeMessage
  cases hpeer : pm.peers[c.conn]? with
  | none => exact finish_moves hi hrunning
  | some peer =>
    dsimp only
    split
    · exact .refl
    · rename_i msg rest hinbox
      have htaken : Move joins throws pm (pm.setPeer c.conn { peer with syncInbox := rest }) :=
        .keepFlag hpeer rfl
      refine .head htaken ?_
      split
      · rename_i s hjob
        have hi' : (pm.setPeer c.conn { peer with syncInbox := rest }).coroutines[i]? = some c := hi
        refine receive_moves hi' hrunning (hharmless.imp_left ?_)
        rintro ⟨hharmless, hsound⟩
        rw [hjob] at hsound
        simp only [harmless, hi, hjob, hpeer, hinbox, Bool.and_eq_true,
          Bool.not_eq_true'] at hharmless
        exact ⟨hharmless, hsound⟩
      · exact finish_moves hi hrunning

theorem expireWait_moves (hi : pm.coroutines[i]? = some c) (hrunning : c.job.running = true)
    (hsound : sound c.job = true ∨ throws) : Moves joins throws pm (expireWait P pm env i c) := by
  unfold expireWait
  cases hpeer : pm.peers[c.conn]? with
  | none => exact finish_moves hi hrunning
  | some peer =>
    dsimp only
    split_ifs
    · exact .refl
    · split
      · rename_i s hjob
        rw [hjob] at hsound
        exact timeOut_moves hi hrunning hsound
      · exact finish_moves hi hrunning

/-- **An event is a sequence of moves.** -/
theorem step_moves (event : PeerEvent) (hjoins : Guarded pm event ∨ joins)
    (hthrows : harmless P pm event = true ∧ Sound pm ∨ throws) :
    Moves joins throws pm (pm.step P event) := by
  have hsound {i : Nat} {c : Coroutine} (hi : pm.coroutines[i]? = some c) :
      harmless P pm event = true ∧ sound c.job = true ∨ throws :=
    hthrows.imp_left fun h => ⟨h.1, h.2 c (List.mem_of_getElem? hi)⟩
  cases event with
  | connect peerHash initiator =>
    have hadded : Move joins throws pm
        { pm.setPeer pm.connections { peerHash } with connections := pm.connections + 1 } :=
          .connect rfl
    rw [step]
    dsimp only
    split_ifs
    · have hthere : (pm.setPeer pm.connections { peerHash }).peers[pm.connections]? =
          some { peerHash } := by
        simp [setPeer]
      exact .tail (.single hadded)
        (.spawn { conn := pm.connections, job := .spawned .runSyncWithPeer } hthere rfl)
    · exact .single hadded
  | disconnect conn => exact .single .disconnect
  | message env conn msg => exact onPeerMessage_moves env conn msg
  | start i env =>
    rw [step]
    split
    · rename_i c hi
      split
      · rename_i entry hjob
        refine startCoroutine_moves hi hjob fun hentry => hjoins.imp_left fun h => ?_
        exact h i env c rfl hi (hentry ▸ hjob)
      · exact .refl
    · exact .refl
  | sent i ok env =>
    rw [step]
    split
    · rename_i c hi
      split
      · rename_i msg out s hjob
        refine afterSend_moves hi (by rw [hjob]; rfl) (fun hbroken =>
          (hsound hi).resolve_left ?_) msg out ok
        rintro ⟨-, hintact⟩
        rw [hjob] at hintact
        exact Bool.false_ne_true (hbroken.symm.trans hintact)
      · exact .refl
    · exact .refl
  | received i env allocates =>
    rw [step]
    split
    · rename_i c hi
      split_ifs with hwaits
      · exact takeMessage_moves hi (running_of_waits hwaits) (hsound hi)
      · exact .refl
    · exact .refl
  | timedOut i env =>
    rw [step]
    split
    · rename_i c hi
      split_ifs with hwaits
      · exact expireWait_moves hi (running_of_waits hwaits) ((hsound hi).imp_left And.right)
      · exact .refl
    · exact .refl
  | requestPeers conn => exact runPexWithPeer_moves conn
  | tick =>
    rw [step]
    split
    · split_ifs with hstopping
      · exact .single (.timer (by simp) fun _ => hstopping)
      · exact syncNext_moves _ _
    · exact .refl
  | cancelTimer =>
    rw [step]
    split
    · exact .single (.timer (by simp) (by simp))
    · exact .refl
  | stop => exact .single .stop
  | write tables => exact .single .write

end Events

/-! ## Who has the flag -/

/-- The coroutine runs on the connection. -/
def Running (pm : PeerManager) (i : Nat) (conn : ConnId) : Prop :=
  ∃ c, pm.coroutines[i]? = some c ∧ c.job.running = true ∧ c.conn = conn

section Look

variable {pm : PeerManager} {conn conn' : ConnId} {peer peer' : PeerInfo} {i j : Nat}
  {c : Coroutine}
  {job : Job}

theorem flag_setPeer : (pm.setPeer conn peer).flag conn' =
    if conn = conn' then some peer.syncing else pm.flag conn' := by
  unfold flag setPeer
  rw [getElem?_insert_eq]
  split_ifs <;> rfl

theorem flag_keepFlag (hpeer : pm.peers[conn]? = some peer) (hflag : peer'.syncing = peer.syncing) :
    (pm.setPeer conn peer').flag conn' = pm.flag conn' := by
  rw [flag_setPeer]
  split_ifs with heq
  · rw [← heq, flag, hpeer, hflag]
    rfl
  · rfl

theorem flag_of_peer (hpeer : pm.peers[conn]? = some peer) : pm.flag conn = some peer.syncing := by
  rw [flag, hpeer]
  rfl

theorem flag_disconnect : ({ pm with peers := pm.peers.erase conn } : PeerManager).flag conn' =
    if conn = conn' then none else pm.flag conn' := by
  unfold flag
  dsimp only
  rw [getElem?_erase_eq]
  split_ifs <;> rfl

theorem getElem?_setJob (hi : pm.coroutines[i]? = some c) :
    (pm.setJob i c job).coroutines[j]? = if i = j then some { c with job }
    else pm.coroutines[j]? := by
  have hlt : i < pm.coroutines.length := (List.getElem?_eq_some_iff.mp hi).1
  simp only [setJob, List.getElem?_set, hlt, if_true]

theorem running_setJob (hi : pm.coroutines[i]? = some c) : (pm.setJob i c job).Running j conn ↔
    if i = j then job.running = true ∧ c.conn = conn else pm.Running j conn := by
  unfold Running
  rw [getElem?_setJob hi]
  split_ifs
  · simp
  · rfl

theorem getElem?_spawn : (pm.spawn c).coroutines[j]? =
    if j = pm.coroutines.length then some c else pm.coroutines[j]? := by
  rw [spawn, List.getElem?_append]
  split_ifs with hlt heq heq
  · omega
  · rfl
  · rw [heq, Nat.sub_self]
    rfl
  · rw [List.getElem?_eq_none (by simp only [List.length_singleton]; omega),
      List.getElem?_eq_none (by omega)]

theorem running_spawn : (pm.spawn c).Running j conn ↔
    if j = pm.coroutines.length then c.job.running = true ∧
    c.conn = conn else pm.Running j conn := by
  unfold Running
  rw [getElem?_spawn]
  split_ifs
  · simp
  · rfl

theorem running_lt (h : pm.Running i conn) : i < pm.coroutines.length := by
  obtain ⟨c, hi, -⟩ := h
  exact (List.getElem?_eq_some_iff.mp hi).1

end Look

/-! ## One session per connection -/

/-- Every connection has one running coroutine at most, and its flag is set. -/
structure Exclusive (pm : PeerManager) : Prop where
  single : ∀ i j conn, pm.Running i conn → pm.Running j conn → i = j
  flagged : ∀ i conn, pm.Running i conn → pm.flag conn ≠ some false
  known : ∀ i conn, pm.Running i conn → conn < pm.connections
  numbered : ∀ conn, pm.flag conn ≠ none → conn < pm.connections

theorem exclusive_empty : Exclusive {} where
  single i j conn h := by simp [Running] at h
  flagged i conn h := by simp [Running] at h
  known i conn h := by simp [Running] at h
  numbered conn h := by simp [flag] at h

section Exclusive

variable {throws : Prop} {pm pm' : PeerManager} {i : Nat} {c : Coroutine} {job : Job}

/-- No coroutine starts, and no flag changes. -/
theorem Exclusive.mono (h : Exclusive pm)
    (hrun : ∀ {j conn}, pm'.Running j conn → pm.Running j conn)
    (hflag : ∀ conn, pm'.flag conn = pm.flag conn)
    (hconnections : pm'.connections = pm.connections) :
    Exclusive pm' where
  single j k conn hj hk := h.single j k conn (hrun hj) (hrun hk)
  flagged j conn hj := hflag conn ▸ h.flagged j conn (hrun hj)
  known j conn hj := hconnections ▸ h.known j conn (hrun hj)
  numbered conn hconn := hconnections ▸ h.numbered conn (hflag conn ▸ hconn)

/-- A coroutine ends, or goes on. -/
theorem Exclusive.setJob (h : Exclusive pm) (hi : pm.coroutines[i]? = some c)
    (hrunning : job.running = true → c.job.running = true) : Exclusive (pm.setJob i c job) := by
  refine h.mono (fun {j conn} hj => ?_) (fun _ => rfl) rfl
  rw [running_setJob hi] at hj
  split_ifs at hj with heq
  · exact heq ▸ ⟨c, hi, hrunning hj.1, hj.2⟩
  · exact hj

/-- The flag of a connection without a running coroutine changes. -/
theorem Exclusive.setPeer (h : Exclusive pm) {conn : ConnId} {peer peer' : PeerInfo}
    (hpeer : pm.peers[conn]? = some peer)
    (hflag : peer'.syncing = true ∨ ∀ i, ¬ pm.Running i conn) :
    Exclusive (pm.setPeer conn peer') where
  single := h.single
  flagged i conn' hi := by
    rw [flag_setPeer]
    split_ifs with heq
    · rcases hflag with hset | hfree
      · simp [hset]
      · exact absurd (heq ▸ hi) (hfree i)
    · exact h.flagged i conn' hi
  known := h.known
  numbered conn' hconn := by
    rw [flag_setPeer] at hconn
    split_ifs at hconn with heq
    · exact heq ▸ h.numbered conn (by rw [flag_of_peer hpeer]; simp)
    · exact h.numbered conn' hconn

theorem Exclusive.free (h : Exclusive pm) {conn : ConnId} {peer : PeerInfo}
    (hpeer : pm.peers[conn]? = some peer) (hflag : peer.syncing = false) (i : Nat) :
    ¬ pm.Running i conn := by
  intro hi
  exact h.flagged i conn hi (by rw [flag_of_peer hpeer, hflag])

/-- A coroutine starts on a connection without a set flag. -/
theorem Exclusive.start (h : Exclusive pm) {conn : ConnId} {peer peer' : PeerInfo}
    (hpeer : pm.peers[conn]? = some peer)
    (hflag : peer.syncing = false) (hset : peer'.syncing = true)
    (hrun : ∀ j conn', pm'.Running j conn' → j = i ∧ conn = conn' ∨ pm.Running j conn')
    (hpeers : pm'.peers = (pm.setPeer conn peer').peers)
    (hconnections : pm'.connections = pm.connections) :
    Exclusive pm' := by
  have hset' := h.setPeer hpeer (.inl hset)
  have hfree := h.free hpeer hflag
  have hflags (conn' : ConnId) : pm'.flag conn' = (pm.setPeer conn peer').flag conn' := by
    rw [flag, hpeers, flag]
  refine ⟨fun j k conn' hj hk => ?_, fun j conn' hj => ?_, fun j conn' hj =>
    ?_, fun conn' hconn' => ?_⟩
  · rcases hrun j conn' hj with ⟨rfl, rfl⟩ | hj
    · rcases hrun k conn hk with ⟨rfl, -⟩ | hk
      · rfl
      · exact absurd hk (hfree k)
    · rcases hrun k conn' hk with ⟨rfl, rfl⟩ | hk
      · exact absurd hj (hfree j)
      · exact h.single j k conn' hj hk
  · rw [hflags]
    rcases hrun j conn' hj with ⟨-, rfl⟩ | hj
    · simp [flag_setPeer, hset]
    · exact hset'.flagged j conn' hj
  · rw [hconnections]
    rcases hrun j conn' hj with ⟨-, rfl⟩ | hj
    · exact h.numbered conn (by rw [flag_of_peer hpeer]; simp)
    · exact h.known j conn' hj
  · rw [hflags] at hconn'
    exact hconnections ▸ hset'.numbered conn' hconn'

/-- A move that does not start beside a set flag. -/
theorem Exclusive.move (h : Exclusive pm) (hmove : Move False throws pm pm') : Exclusive pm' := by
  cases hmove with
  | @keepFlag conn peer peer' hpeer hflag =>
    exact h.mono id (fun _ => flag_keepFlag hpeer hflag) rfl
  | @connect peer hflag =>
    refine ⟨h.single, fun i conn hi => ?_, fun i conn hi => Nat.lt_succ_of_lt (h.known i conn hi),
      fun conn hconn => ?_⟩
    · have hlt := h.known i conn hi
      change (pm.setPeer pm.connections peer).flag conn ≠ some false
      rw [flag_setPeer, if_neg (Nat.ne_of_gt hlt)]
      exact h.flagged i conn hi
    · change (pm.setPeer pm.connections peer).flag conn ≠ none at hconn
      rw [flag_setPeer] at hconn
      split_ifs at hconn with heq
      · exact heq ▸ Nat.lt_succ_self _
      · exact Nat.lt_succ_of_lt (h.numbered conn hconn)
  | @disconnect conn =>
    refine ⟨h.single, fun i conn' hi => ?_, h.known, fun conn' hconn => ?_⟩
    · rw [flag_disconnect]
      split_ifs
      · simp
      · exact h.flagged i conn' hi
    · rw [flag_disconnect] at hconn
      split_ifs at hconn
      · exact absurd rfl hconn
      · exact h.numbered conn' hconn
  | @spawn c peer hpeer hidle =>
    refine h.mono (fun {j conn} hj => ?_) (fun _ => rfl) rfl
    rw [running_spawn] at hj
    split_ifs at hj
    · exact absurd (hidle.symm.trans hj.1) Bool.false_ne_true
    · exact hj
  | @start i c peer peer' job hi hidle hpeer hguard hset hrunning hsound =>
    refine h.start (i := i) hpeer (hguard.resolve_right id) hset (fun j conn hj => ?_) rfl rfl
    have hi' : (pm.setPeer c.conn peer').coroutines[i]? = some c := hi
    rw [running_setJob hi'] at hj
    split_ifs at hj with hij
    · exact .inl ⟨hij.symm, hj.2⟩
    · exact .inr hj
  | @startNew c peer peer' hpeer hflag hset hrunning hsound =>
    refine h.start (i := pm.coroutines.length) hpeer hflag hset (fun j conn hj => ?_) rfl rfl
    rw [running_spawn] at hj
    split_ifs at hj with hij
    · exact .inl ⟨hij, hj.2⟩
    · exact .inr hj
  | goOn hi hrunning _ _ => exact h.setJob hi fun _ => hrunning
  | @release i c peer hi hrunning hpeer =>
    have hended : Exclusive (pm.setJob i c .returned) := h.setJob hi (by simp [Job.running])
    have hpeer' : (pm.setJob i c .returned).peers[c.conn]? = some peer := hpeer
    refine hended.setPeer hpeer' (.inr fun j hj => ?_)
    rw [running_setJob hi] at hj
    split_ifs at hj with hij
    · exact absurd hj.1 (by simp [Job.running])
    · exact hij (h.single i j c.conn ⟨c, hi, hrunning, rfl⟩ hj)
  | leave hi _ => exact h.setJob hi (by simp [Job.running])
  | wreck hi _ hjob => exact h.setJob hi (by simp [hjob])
  | timer _ _ => exact h.mono id (fun _ => rfl) rfl
  | stop => exact h.mono id (fun _ => rfl) rfl
  | write => exact h.mono id (fun _ => rfl) rfl

end Exclusive

/-- The coroutine is in a session on the connection. -/
def InSession (pm : PeerManager) (i : Nat) (conn : ConnId) : Prop :=
  ∃ c, pm.coroutines[i]? = some c ∧ c.job.isSession = true ∧ c.conn = conn

/-- No two coroutines are in a session on the same connection. -/
def OneSession (pm : PeerManager) : Prop :=
  ∀ i j conn, pm.InSession i conn → pm.InSession j conn → i = j

/-- A spawned `handle_sync_as_responder` starts on a connection with a session. -/
def Joins (pm : PeerManager) (event : PeerEvent) : Prop :=
  ∃ i env c, event = .start i env ∧ pm.coroutines[i]? = some c ∧
    c.job = .spawned .handleSyncAsResponder ∧ pm.flag c.conn ≠ none ∧ ∃ j, pm.InSession j c.conn

section OneSession

variable {P : Primitives} {pm : PeerManager} {i j : Nat} {conn : ConnId} {c : Coroutine} {job : Job}

theorem InSession.running (h : pm.InSession i conn) : pm.Running i conn := by
  obtain ⟨c, hi, hsession, hconn⟩ := h
  refine ⟨c, hi, ?_, hconn⟩
  cases hjob : c.job <;> rw [hjob]
    at hsession <;> first | rfl | exact absurd hsession Bool.false_ne_true

theorem Exclusive.oneSession (h : Exclusive pm) : OneSession pm :=
  fun i j conn hi hj => h.single i j conn hi.running hj.running

theorem inSession_setJob (hi : pm.coroutines[i]? = some c) : (pm.setJob i c job).InSession j conn ↔
    if i = j then job.isSession = true ∧ c.conn = conn else pm.InSession j conn := by
  unfold InSession
  rw [getElem?_setJob hi]
  split_ifs
  · simp
  · rfl

/-- The start of a responder makes one more session. -/
theorem oneSession_setJob (h : OneSession pm) (hi : pm.coroutines[i]? = some c)
    (hidle : c.job.isSession = false) (hsession : job.isSession = true) :
    OneSession (pm.setJob i c job) ↔ ∀ j, ¬ pm.InSession j c.conn := by
  constructor
  · intro hone j hj
    have hne : i ≠ j := by
      rintro rfl
      obtain ⟨c', hi', hsession', -⟩ := hj
      rw [hi] at hi'
      obtain rfl := Option.some.inj hi'
      exact Bool.false_ne_true (hidle.symm.trans hsession')
    refine hne (hone i j c.conn ?_ ?_)
    · rw [inSession_setJob hi, if_pos rfl]
      exact ⟨hsession, rfl⟩
    · rw [inSession_setJob hi, if_neg hne]
      exact hj
  · intro hfree j k conn hj hk
    rw [inSession_setJob hi] at hj hk
    split_ifs at hj hk with hij hik hik
    · exact hij.symm.trans hik
    · exact absurd (hj.2 ▸ hk) (hfree k)
    · exact absurd (hk.2 ▸ hj) (hfree j)
    · exact h j k conn hj hk

theorem Exclusive.step (h : Exclusive pm) {event : PeerEvent} (hguarded : Guarded pm event) :
    Exclusive (pm.step P event) := by
  have hmoves : Moves False True pm (pm.step P event) :=
    step_moves event (.inl hguarded) (.inr trivial)
  exact Moves.rule (fun _ _ hmove h => h.move hmove) hmoves h

/-- **One session per connection.** As long as no spawned `handle_sync_as_responder` starts while
the flag of its connection is set, there is at most one session per connection; and the next event
makes a second one exactly if it starts a `handle_sync_as_responder` beside a session. -/
theorem one_session_iff (P : Primitives) (events : List PeerEvent) (event : PeerEvent)
    (hguarded : AllSteps (PeerManager.step P) Guarded {} events) :
    let pm := run (PeerManager.step P) {} events
    OneSession pm ∧ (OneSession (pm.step P event) ↔ ¬ Joins pm event) := by
  intro pm
  have hexclusive : Exclusive pm :=
    run_invariant (fun _ _ h hC => h.step hC) exclusive_empty hguarded
  refine ⟨hexclusive.oneSession, ?_⟩
  by_cases hnext : Guarded pm event
  · refine iff_of_true (hexclusive.step hnext).oneSession ?_
    rintro ⟨i, env, c, rfl, hi, hjob, hthere, j, hsession⟩
    have hset := hexclusive.flagged j c.conn hsession.running
    have hclear := hnext i env c rfl hi hjob
    cases hflag : pm.flag c.conn with
    | none => exact hthere hflag
    | some flag => cases flag <;> simp [hflag] at hset hclear
  · unfold Guarded at hnext
    push Not at hnext
    obtain ⟨i, env, c, rfl, hi, hjob, hflag⟩ := hnext
    obtain ⟨peer, hpeer, -⟩ := Option.map_eq_some_iff.mp hflag
    have hstep : pm.step P (.start i env) =
      (pm.setPeer c.conn { peer with syncing := true }).setJob i c
        (.sending (handleSyncAsResponder env pm.tables peer.peerHash).2
          (handleSyncAsResponder env pm.tables peer.peerHash).1) := by
      simp only [PeerManager.step, hi, hjob, startCoroutine, hpeer]
    have hi' : (pm.setPeer c.conn { peer with syncing := true }).coroutines[i]? = some c := hi
    have hone : OneSession (pm.setPeer c.conn { peer with syncing := true }) :=
      hexclusive.oneSession
    rw [hstep, oneSession_setJob hone hi' (by rw [hjob]; rfl) rfl]
    constructor
    · rintro hfree ⟨i', env', c', heq, hi'', -, -, j, hsession⟩
      obtain ⟨rfl, rfl⟩ := PeerEvent.start.inj heq
      rw [hi] at hi''
      obtain rfl := Option.some.inj hi''
      exact hfree j hsession
    · intro hjoins j hsession
      exact hjoins ⟨i, env, c, rfl, hi, hjob, by simp [hflag], j, hsession⟩

end OneSession

/-! ## No flag stays behind -/

/-- Every set flag has a running coroutine, every session is intact, and the timer loop has not been
left by an exception. -/
structure Released (pm : PeerManager) : Prop where
  held : ∀ conn, pm.flag conn = some true → ∃ i, pm.Running i conn
  sound : Sound pm
  timer : pm.timer ≠ .thrown
  stopped : pm.timer = .stopped → pm.stopping = true

theorem released_empty : Released {} where
  held conn h := by simp [flag] at h
  sound c hc := absurd hc List.not_mem_nil
  timer := by simp
  stopped h := by simp at h

section Released

variable {joins : Prop} {P : Primitives} {pm pm' : PeerManager} {i : Nat}
  {c : Coroutine} {job : Job}

theorem sound_setJob (h : Sound pm) (hjob : PeerManager.sound job = true) :
    Sound (pm.setJob i c job) := by
  intro c' hc'
  rcases List.mem_or_eq_of_mem_set hc' with hold | rfl
  · exact h c' hold
  · exact hjob

theorem sound_spawn (h : Sound pm) (hjob : PeerManager.sound c.job = true) :
    Sound (pm.spawn c) := by
  intro c' hc'
  rcases List.mem_append.mp hc' with hold | hnew
  · exact h c' hold
  · rw [List.mem_singleton.mp hnew]
    exact hjob

/-- What runs on another connection goes on running. -/
theorem running_setJob_of_ne (hi : pm.coroutines[i]? = some c) {conn : ConnId} (hne : c.conn ≠ conn)
    (h : ∃ j, pm.Running j conn) : ∃ j, (pm.setJob i c job).Running j conn := by
  obtain ⟨j, hj⟩ := h
  refine ⟨j, ?_⟩
  rw [running_setJob hi, if_neg ?_]
  · exact hj
  · rintro rfl
    obtain ⟨c', hi', -, hconn⟩ := hj
    rw [hi] at hi'
    obtain rfl := Option.some.inj hi'
    exact hne hconn

theorem running_spawn_of_running {conn : ConnId} (h : ∃ j, pm.Running j conn) :
    ∃ j, (pm.spawn c).Running j conn := by
  obtain ⟨j, hj⟩ := h
  refine ⟨j, ?_⟩
  rw [running_spawn, if_neg (Nat.ne_of_lt (running_lt hj))]
  exact hj

/-- A move that does not throw. -/
theorem Released.move (h : Released pm) (hmove : Move joins False pm pm') : Released pm' := by
  cases hmove with
  | @keepFlag conn peer peer' hpeer hflag =>
    refine ⟨fun conn' hset => ?_, h.sound, h.timer, h.stopped⟩
    rw [flag_keepFlag hpeer hflag] at hset
    exact h.held conn' hset
  | @connect peer hflag =>
    refine ⟨fun conn hset => ?_, h.sound, h.timer, h.stopped⟩
    change (pm.setPeer pm.connections peer).flag conn = some true at hset
    rw [flag_setPeer, hflag] at hset
    split_ifs at hset
    · simp at hset
    · exact h.held conn hset
  | @disconnect conn =>
    refine ⟨fun conn' hset => ?_, h.sound, h.timer, h.stopped⟩
    rw [flag_disconnect] at hset
    split_ifs at hset
    exact h.held conn' hset
  | @spawn c peer hpeer hidle =>
    refine ⟨fun conn hset => ?_, sound_spawn h.sound ?_, h.timer, h.stopped⟩
    · exact running_spawn_of_running (h.held conn hset)
    · cases hjob : c.job <;> rw [hjob]
        at hidle <;> first | rfl | exact absurd hidle (by simp [Job.running])
  | @start i c peer peer' job hi hidle hpeer hguard hset hrunning hsound =>
    have hi' : (pm.setPeer c.conn peer').coroutines[i]? = some c := hi
    have hsound' : Sound (pm.setPeer c.conn peer') := h.sound
    refine ⟨fun conn hflag => ?_, sound_setJob hsound' hsound, h.timer, h.stopped⟩
    by_cases hconn : c.conn = conn
    · exact ⟨i, by rw [running_setJob hi', if_pos rfl]; exact ⟨hrunning, hconn⟩⟩
    · change (pm.setPeer c.conn peer').flag conn = some true at hflag
      rw [flag_setPeer, if_neg hconn] at hflag
      exact running_setJob_of_ne hi' hconn (h.held conn hflag)
  | @startNew c peer peer' hpeer hfree hset hrunning hsound =>
    have hsound' : Sound (pm.setPeer c.conn peer') := h.sound
    refine ⟨fun conn hflag => ?_, sound_spawn hsound' hsound, h.timer, h.stopped⟩
    by_cases hconn : c.conn = conn
    · exact ⟨_, running_spawn.mpr (by rw [if_pos rfl]; exact ⟨hrunning, hconn⟩)⟩
    · change (pm.setPeer c.conn peer').flag conn = some true at hflag
      rw [flag_setPeer, if_neg hconn] at hflag
      have hheld : ∃ j, (pm.setPeer c.conn peer').Running j conn := h.held conn hflag
      exact running_spawn_of_running hheld
  | @goOn i c job hi _ hrunning hsound =>
    refine ⟨fun conn hflag =>
      ?_, sound_setJob h.sound (Bool.eq_true_of_not_eq_false hsound), h.timer, h.stopped⟩
    by_cases hconn : c.conn = conn
    · exact ⟨i, by rw [running_setJob hi, if_pos rfl]; exact ⟨hrunning, hconn⟩⟩
    · exact running_setJob_of_ne hi hconn (h.held conn hflag)
  | @release i c peer hi _ hpeer =>
    have hi' : (pm.setPeer c.conn { peer with syncing := false }).coroutines[i]? = some c := hi
    have hsound' : Sound (pm.setPeer c.conn { peer with syncing := false }) := h.sound
    refine ⟨fun conn hflag => ?_, sound_setJob hsound' rfl, h.timer, h.stopped⟩
    change (pm.setPeer c.conn { peer with syncing := false }).flag conn = some true at hflag
    rw [flag_setPeer] at hflag
    split_ifs at hflag with hconn
    · simp at hflag
    · exact running_setJob_of_ne hi' hconn (h.held conn hflag)
  | @leave i c hi hidle =>
    refine ⟨fun conn hflag => ?_, sound_setJob h.sound rfl, h.timer, h.stopped⟩
    obtain ⟨j, hj⟩ := h.held conn hflag
    refine ⟨j, ?_⟩
    rw [running_setJob hi, if_neg ?_]
    · exact hj
    · rintro rfl
      obtain ⟨c', hi', hrunning, rfl⟩ := hj
      rw [hi] at hi'
      obtain rfl := Option.some.inj hi'
      rcases hidle with hidle | hgone
      · exact Bool.false_ne_true (hidle.symm.trans hrunning)
      · change pm.flag c.conn = some true at hflag
        rw [flag, hgone] at hflag
        simp at hflag
  | wreck _ hthrows _ => exact hthrows.elim
  | timer hthrown hstopped => exact ⟨h.held, h.sound, fun heq => hthrown heq, hstopped⟩
  | stop => exact ⟨h.held, h.sound, h.timer, fun _ => rfl⟩
  | write => exact ⟨h.held, h.sound, h.timer, h.stopped⟩

theorem Released.step (h : Released pm) {event : PeerEvent}
    (hharmless : harmless P pm event = true) :
    Released (pm.step P event) := by
  have hmoves : Moves True False pm (pm.step P event) :=
    step_moves event (.inr trivial) (.inl ⟨hharmless, h.sound⟩)
  exact Moves.rule (fun _ _ hmove h => h.move hmove) hmoves h

end Released

/-- **The flag is released.** In every run in which the messages that sessions take from their
inboxes can be decoded, the flag of a connection is only set while a coroutine is running on it, and
the timer loop goes on until the node is stopping or its timer is cancelled. -/
theorem flags_released (P : Primitives) (events : List PeerEvent)
    (hharmless : AllSteps (PeerManager.step P) (fun pm event =>
      harmless P pm event = true) {} events) :
    let pm := run (PeerManager.step P) {} events
    (∀ conn peer, pm.peers[conn]? = some peer → peer.syncing = true →
      ∃ c ∈ pm.coroutines, c.conn = conn ∧ c.job.running = true) ∧
    (pm.timer = .waiting ∨ (∃ rest, pm.timer = .round rest) ∨ pm.stopping = true ∨
      pm.timer = .cancelled) := by
  intro pm
  have hreleased : Released pm := run_invariant (fun _ _ h hC => h.step hC) released_empty hharmless
  constructor
  · intro conn peer hpeer hset
    have hflag : pm.flag conn = some true := by rw [flag_of_peer hpeer, hset]
    obtain ⟨i, c, hi, hrunning, hconn⟩ := hreleased.held conn hflag
    exact ⟨c, List.mem_of_getElem? hi, hconn, hrunning⟩
  · cases htimer : pm.timer with
    | waiting => exact .inl rfl
    | round rest => exact .inr (.inl ⟨rest, rfl⟩)
    | stopped => exact .inr (.inr (.inl (hreleased.stopped htimer)))
    | cancelled => exact .inr (.inr (.inr rfl))
    | thrown => exact absurd htimer hreleased.timer

section Sample

open Wire.Sample

def nodeEnv : SyncEnv := { engine := { now := 3000000 } }

/-- A peer has connected and asks for a sync, which is not answered yet. -/
def asked : List PeerEvent :=
  [.connect (owned 2) false, .message { nowMs := 1 } 0 ⟨.syncRequest, []⟩]

/-- The sync timer of the node expires while the answer is under way. -/
theorem one_session_answered :
    let pm := run (PeerManager.step primitives) {} (asked ++ [.start 0 nodeEnv])
    OneSession pm ∧ (OneSession (pm.step primitives .tick) ↔ ¬ Joins pm .tick) := by
  refine one_session_iff primitives _ _ ⟨?_, ?_, ?_, trivial⟩
  · intro i env c h
    exact absurd h (by simp)
  · intro i env c h
    exact absurd h (by simp)
  · intro i env c h hi _
    obtain ⟨rfl, -⟩ := PeerEvent.start.inj h
    have hconn : (run (PeerManager.step primitives) {} asked).coroutines[0]?.map Coroutine.conn =
        some 0 := by
      decide
    have hclear : (run (PeerManager.step primitives) {} asked).flag 0 = some false := by
      decide
    have hc : c.conn = 0 := by
      change (run (PeerManager.step primitives) {} asked).coroutines[0]? = some c at hi
      rw [hi] at hconn
      exact Option.some.inj hconn
    change (run (PeerManager.step primitives) {} asked).flag c.conn ≠ some true
    rw [hc, hclear]
    simp

/-- The timer expires before the answer starts: both coroutines are in a session with the peer. -/
theorem one_session_joined :
    let pm := run (PeerManager.step primitives) {} (asked ++ [.tick, .start 0 nodeEnv])
    pm.coroutines.map (fun c => (c.conn, c.job.isSession)) = [(0, true), (0, true)] ∧
    ¬ OneSession pm := by
  intro pm
  have hboth : pm.coroutines.map (fun c => (c.conn, c.job.isSession)) = [(0, true), (0, true)] := by
    decide
  refine ⟨hboth, fun hone => ?_⟩
  have hin {i : Nat}
    (hi : (pm.coroutines.map fun c => (c.conn, c.job.isSession))[i]? = some (0, true)) :
      pm.InSession i 0 := by
    rw [List.getElem?_map] at hi
    obtain ⟨c, hc, heq⟩ := Option.map_eq_some_iff.mp hi
    obtain ⟨hconn, hsession⟩ := Prod.mk.inj heq
    exact ⟨c, hc, hsession, hconn⟩
  have hsame := hone 0 1 0 (hin (by rw [hboth]; rfl)) (hin (by rw [hboth]; rfl))
  exact absurd hsame (by decide)

/-- The session of the sync timer with a peer that announces one blob and sends a `BlobTransfer`
when it is asked for the blob. -/
def announced (transfer : Bytes) : List PeerEvent :=
  let enough : Nat → Bool := fun _ => true
  let info : NamespaceInfo := { namespaceId := owned 1, latestSeqNum := 1 }
  [.connect (owned 2) false, .tick, .sent 0 true nodeEnv,
    .message { nowMs := 1 } 0 ⟨.syncAccept, []⟩, .received 0 nodeEnv enough, .sent 0 true nodeEnv,
    .message { nowMs := 2 } 0 ⟨.namespaceList, Sync.encodeNamespaceList [info]⟩,
    .received 0 nodeEnv enough, .sent 0 true nodeEnv,
    .message { nowMs := 3 } 0 ⟨.reconcileItems, encodeReconcileItems (owned 1) [owned 7]⟩,
    .received 0 nodeEnv enough, .sent 0 true nodeEnv, .sent 0 true nodeEnv,
    .message { nowMs := 4 } 0 ⟨.blobTransfer, transfer⟩, .received 0 nodeEnv enough]

/-- The peer sends a transfer without blobs and then nothing more. -/
theorem flags_released_timer :
    let pm := run (PeerManager.step primitives) {} (announced (writeU32Be 0) ++
      [.timedOut 0 nodeEnv, .sent 0 true nodeEnv, .timedOut 0 nodeEnv])
    (∀ conn peer, pm.peers[conn]? = some peer → peer.syncing = true →
      ∃ c ∈ pm.coroutines, c.conn = conn ∧ c.job.running = true) ∧
    (pm.timer = .waiting ∨ (∃ rest, pm.timer = .round rest) ∨ pm.stopping = true ∨
      pm.timer = .cancelled) :=
  flags_released primitives _ (by decide)

/-- The peer sends one byte for the blob. -/
theorem flag_stuck :
    let pm := run (PeerManager.step primitives) {}
      (announced (writeU32Be 1 ++ ((owned 1).toList ++ (writeU32Be 1 ++ [0]))))
    pm.flag 0 = some true ∧ (∀ c ∈ pm.coroutines, c.job.running = false) ∧
      pm.timer = .thrown ∧ pm.stopping = false := by
  decide

end Sample

end PeerManager

end Peer
