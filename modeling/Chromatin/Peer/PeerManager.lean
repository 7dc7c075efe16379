import Chromatin.Peer.SyncOrchestrator

/-!
# The sync coroutines of a node (`peer/peer_manager.cpp`, `peer/message_dispatcher.cpp`)

A node has one `PeerInfo` per connection, whose `syncing` flag is set by whoever exchanges messages
through the inbox of the connection: a sync session, or an exchange of peer lists. Four parties
start such coroutines:

* the dispatcher spawns `handle_sync_as_responder` for a `SyncRequest` and `handle_pex_as_responder`
  for a `PeerListRequest`,
* `announce_and_sync` runs `run_sync_with_peer` on a new connection that this node has opened,
* `sync_timer_loop` awaits `run_sync_with_peer` for one connection after the other,
* `pex_timer_loop` runs `run_pex_with_peer`.

A spawned coroutine starts at some later event, a coroutine that sends or receives is suspended
until its own event, and in between any other coroutine may run. What a session does with a message
is `Session.recv`. The tables may change at any time by the writes of others.

Connections are numbered in the order in which they are added; each of them has passed the
handshake. An exchange of peer lists is one wait for a message of the peer; `pex_timer_loop` may ask
any peer at any time. Metrics, logs, strikes and what is done with a peer list are left out. -/

namespace Peer

open Infra Util Wire Storage Engine Sync

abbrev ConnId := Nat

structure PeerInfo where
  /-- hash of the peer's key -/
  peerHash : Hash32
  syncing : Bool := false
  syncInbox : List SyncMessage := []
  /-- steady clock, milliseconds; 0 for never -/
  lastSyncInitiated : UInt64 := 0

/-- What a spawned coroutine will call. -/
inductive Spawned
  | runSyncWithPeer
  | handleSyncAsResponder
  | handlePexAsResponder

inductive Job
  /-- handed to `co_spawn`, not started yet -/
  | spawned (entry : Spawned)
  /-- suspended in `send_message`, with the messages that are to be sent before it goes on -/
  | sending (out : List SyncMessage) (s : Session)
  /-- suspended in `recv_sync_msg` -/
  | receiving (s : Session)
  /-- suspended in the `recv_sync_msg` of an exchange of peer lists, at the end of a session or on
  its own -/
  | peerLists (afterSync : Bool)
  | returned
  /-- an exception has left the coroutine -/
  | thrown
  /-- an access outside a local list; nothing is known from there on -/
  | undefined

/-- The coroutine has set the flag and has not ended. -/
def Job.running : Job → Bool
  | .sending .. | .receiving _ | .peerLists _ => true
  | .spawned _ | .returned | .thrown | .undefined => false

/-- The coroutine is in `run_sync_with_peer` or `handle_sync_as_responder`, behind the statement
that sets the flag. -/
def Job.isSession : Job → Bool
  | .sending .. | .receiving _ => true
  | .peerLists afterSync => afterSync
  | .spawned _ | .returned | .thrown | .undefined => false

structure Coroutine where
  conn : ConnId
  job : Job
  /-- awaited by `sync_all_peers` -/
  byTimer : Bool := false

/-- `sync_timer_loop`. -/
inductive TimerLoop
  /-- suspended in the wait of the timer -/
  | waiting
  /-- in `sync_all_peers`, awaiting the session with a peer; the connections to come -/
  | round (rest : List ConnId)
  /-- it returned because the node is stopping -/
  | stopped
  /-- it returned because its timer was cancelled -/
  | cancelled
  /-- an exception has left the loop -/
  | thrown
  deriving DecidableEq

structure PeerManager where
  tables : Tables := {}
  peers : Table ConnId PeerInfo := ∅
  /-- the connections so far -/
  connections : Nat := 0
  coroutines : List Coroutine := []
  timer : TimerLoop := .waiting
  stopping : Bool := false

/-- What the dispatcher reads when a message arrives. -/
structure DispatchEnv where
  /-- there is a rate limit, and the message exceeds the peer's bucket -/
  overBudget : Bool := false
  /-- steady clock, milliseconds -/
  nowMs : UInt64
  syncCooldownSeconds : UInt32 := 30

inductive PeerEvent
  /-- a connection is added; `initiator` when this node has opened it -/
  | connect (peerHash : Hash32) (initiator : Bool)
  /-- a connection is removed -/
  | disconnect (conn : ConnId)
  /-- the dispatcher gets a message -/
  | message (env : DispatchEnv) (conn : ConnId) (msg : SyncMessage)
  /-- a spawned coroutine starts -/
  | start (i : Nat) (env : SyncEnv)
  /-- the send of a coroutine has ended -/
  | sent (i : Nat) (ok : Bool) (env : SyncEnv)
  /-- a waiting coroutine takes a message from the inbox; `allocates` tells for how many elements
  `reserve` can get memory -/
  | received (i : Nat) (env : SyncEnv) (allocates : Nat → Bool)
  /-- the wait of a coroutine times out -/
  | timedOut (i : Nat) (env : SyncEnv)
  /-- `pex_timer_loop` turns to a connection -/
  | requestPeers (conn : ConnId)
  /-- the sync timer expires -/
  | tick
  | cancelTimer
  | stop
  /-- other coroutines write to the store -/
  | write (tables : Tables)

namespace PeerManager

/-! ## Starting and ending -/

def setJob (pm : PeerManager) (i : Nat) (c : Coroutine) (job : Job) : PeerManager :=
  { pm with coroutines := pm.coroutines.set i { c with job } }

def spawn (pm : PeerManager) (c : Coroutine) : PeerManager :=
  { pm with coroutines := pm.coroutines ++ [c] }

def setPeer (pm : PeerManager) (conn : ConnId) (peer : PeerInfo) : PeerManager :=
  { pm with peers := pm.peers.insert conn peer }

/-- `sync_all_peers` from a connection on: the next one whose flag is not set gets a session. Behind
the last the loop looks at `stopping_` and waits again. -/
def syncNext (pm : PeerManager) : List ConnId → PeerManager
  | [] => { pm with timer := if pm.stopping then .stopped else .waiting }
  | conn :: rest =>
    match pm.peers[conn]? with
    | none => pm.syncNext rest
    | some peer =>
      if peer.syncing then pm.syncNext rest
      else
        let (s, out) := runSyncWithPeer pm.tables peer.peerHash
        { pm.setPeer conn { peer with syncing := true, syncInbox := [] } with
          coroutines := pm.coroutines ++ [{ conn, job := .sending out s, byTimer := true }]
          timer := .round rest }

/-- A coroutine returns; the flag is reset if there still is a `PeerInfo`. -/
def finish (pm : PeerManager) (i : Nat) (c : Coroutine) : PeerManager :=
  let pm :=
    match pm.peers[c.conn]? with
    | none => pm.setJob i c .returned
    | some peer => (pm.setPeer c.conn { peer with syncing := false }).setJob i c .returned
  match c.byTimer, pm.timer with
  | true, .round rest => pm.syncNext rest
  | _, _ => pm

/-- An exception leaves a coroutine, and the timer loop with it if it awaits the coroutine. -/
def raise (pm : PeerManager) (i : Nat) (c : Coroutine) : PeerManager :=
  let pm := pm.setJob i c .thrown
  if c.byTimer then { pm with timer := .thrown } else pm

/-! ## A session between its suspensions -/

/-- Everything is sent. The responder answers a request for its peers at the end of a session. -/
def proceed (pm : PeerManager) (env : SyncEnv) (i : Nat) (c : Coroutine) (s : Session) :
    PeerManager :=
  match s.stage with
  | .aborted => pm.finish i c
  | .thrown => pm.raise i c
  | .undefined => pm.setJob i c .undefined
  | .finished =>
    if s.side = .responder ∧ env.pexEnabled then pm.setJob i c (.peerLists true) else pm.finish i c
  | _ => pm.setJob i c (.receiving s)

/-- The session goes on to its sends. -/
def goOn (pm : PeerManager) (env : SyncEnv) (i : Nat) (c : Coroutine) (s : Session) :
    List SyncMessage → PeerManager
  | [] => pm.proceed env i c s
  | msg :: out => pm.setJob i c (.sending (msg :: out) s)

/-- A message was sent, or could not be sent. A notice at the end of a session is best effort. -/
def afterSend (pm : PeerManager) (env : SyncEnv) (i : Nat) (c : Coroutine) (s : Session)
    (msg : SyncMessage) (out : List SyncMessage) (ok : Bool) : PeerManager :=
  if !pm.peers.contains c.conn then pm.finish i c
  else if ok then
    if msg.type = .peerListRequest then pm.setJob i c (.peerLists true) else pm.goOn env i c s out
  else if s.stage = .finished ∧ msg.type ≠ .peerListRequest then pm.goOn env i c s out
  else pm.finish i c

/-- The number of elements for which a decoder calls `reserve` before it has looked at the size of
the payload. -/
def reserved (s : Session) (msg : SyncMessage) : Option UInt32 :=
  match s.stage, msg.type with
  | .transfer .., .blobTransfer => readU32Be msg.payload 0
  | .initiatorLoop .., .reconcileRanges | .responderLoop .., .reconcileRanges =>
    readU32Be msg.payload 32
  | _, _ => none

def reserveFails (allocates : Nat → Bool) (s : Session) (msg : SyncMessage) : Bool :=
  match reserved s msg with
  | none => false
  | some count => !allocates count.toNat

/-- The coroutine has a message. -/
def receive (P : Primitives) (pm : PeerManager) (env : SyncEnv) (allocates : Nat → Bool) (i : Nat)
    (c : Coroutine) (s : Session) (msg : SyncMessage) : PeerManager :=
  if reserveFails allocates s msg then pm.raise i c
  else
    let (s, out) := { s with tables := pm.tables }.recv P env (some msg)
    { pm with tables := s.tables }.goOn env i c s out

/-- The wait of the coroutine has timed out. -/
def timeOut (P : Primitives) (pm : PeerManager) (env : SyncEnv) (i : Nat) (c : Coroutine)
    (s : Session) :
    PeerManager :=
  let (s, out) := { s with tables := pm.tables }.recv P env none
  { pm with tables := s.tables }.goOn env i c s out

/-! ## Starts -/

/-- The first statements of a spawned coroutine. `handle_sync_as_responder` does not look at the
flag. -/
def startCoroutine (pm : PeerManager) (env : SyncEnv) (i : Nat) (c : Coroutine) (entry : Spawned) :
    PeerManager :=
  match pm.peers[c.conn]? with
  | none => pm.setJob i c .returned
  | some peer =>
    match entry with
    | .runSyncWithPeer =>
      if peer.syncing then pm.setJob i c .returned
      else
        let (s, out) := runSyncWithPeer pm.tables peer.peerHash
        (pm.setPeer c.conn { peer with syncing := true, syncInbox := [] }).setJob i c
          (.sending out s)
    | .handleSyncAsResponder =>
      let (s, out) := handleSyncAsResponder env pm.tables peer.peerHash
      (pm.setPeer c.conn { peer with syncing := true }).setJob i c (.sending out s)
    | .handlePexAsResponder =>
      if peer.syncing || !env.pexEnabled then pm.setJob i c .returned
      else (pm.setPeer c.conn { peer with syncing := true }).setJob i c (.peerLists false)

/-- `run_pex_with_peer`. -/
def runPexWithPeer (pm : PeerManager) (conn : ConnId) : PeerManager :=
  match pm.peers[conn]? with
  | none => pm
  | some peer =>
    if peer.syncing then pm
    else (pm.setPeer conn { peer with syncing := true, syncInbox := [] }).spawn
      { conn, job := .peerLists false }

/-! ## The dispatcher -/

/-- The last sync that the peer has asked for is not long ago. -/
def cooling (env : DispatchEnv) (peer : PeerInfo) : Bool :=
  env.syncCooldownSeconds > 0 && peer.lastSyncInitiated > 0 &&
    env.nowMs - peer.lastSyncInitiated < env.syncCooldownSeconds.toUInt64 * 1000

/-- `on_peer_message`, for the messages of syncs and peer lists. -/
def onPeerMessage (pm : PeerManager) (env : DispatchEnv) (conn : ConnId) (msg : SyncMessage) :
    PeerManager :=
  match pm.peers[conn]? with
  | none => pm
  | some peer =>
    let routed := pm.setPeer conn { peer with syncInbox := peer.syncInbox ++ [msg] }
    match msg.type with
    | .syncRequest =>
      if env.overBudget || peer.syncing || cooling env peer then pm
      else (pm.setPeer conn { peer with lastSyncInitiated := env.nowMs, syncInbox := [] }).spawn
        { conn, job := .spawned .handleSyncAsResponder }
    | .peerListRequest =>
      if peer.syncing then routed else routed.spawn { conn, job := .spawned .handlePexAsResponder }
    | type => if routedToSession type then routed else pm

/-! ## One event -/

/-- A suspended coroutine takes the oldest message of the inbox, if there is one. A coroutine whose
connection is gone returns. -/
def takeMessage (P : Primitives) (pm : PeerManager) (env : SyncEnv)
    (allocates : Nat → Bool) (i : Nat) (c : Coroutine) : PeerManager :=
  match pm.peers[c.conn]? with
  | none => pm.finish i c
  | some peer =>
    match peer.syncInbox with
    | [] => pm
    | msg :: rest =>
      let pm := pm.setPeer c.conn { peer with syncInbox := rest }
      match c.job with
      | .receiving s => receive P pm env allocates i c s msg
      | _ => pm.finish i c

/-- A wait only times out while the inbox is empty. -/
def expireWait (P : Primitives) (pm : PeerManager) (env : SyncEnv) (i : Nat) (c : Coroutine) :
    PeerManager :=
  match pm.peers[c.conn]? with
  | none => pm.finish i c
  | some peer =>
    if !peer.syncInbox.isEmpty then pm
    else
      match c.job with
      | .receiving s => timeOut P pm env i c s
      | _ => pm.finish i c

/-- The coroutine is suspended in `recv_sync_msg`. -/
def waits (c : Coroutine) : Bool :=
  match c.job with
  | .receiving _ | .peerLists _ => true
  | _ => false

def step (P : Primitives) (pm : PeerManager) : PeerEvent → PeerManager
  | .connect peerHash initiator =>
    let added := { pm.setPeer pm.connections { peerHash } with connections := pm.connections + 1 }
    if initiator then added.spawn { conn := pm.connections, job := .spawned .runSyncWithPeer }
      else added
  | .disconnect conn => { pm with peers := pm.peers.erase conn }
  | .message env conn msg => pm.onPeerMessage env conn msg
  | .start i env =>
    match pm.coroutines[i]? with
    | some c =>
      match c.job with
      | .spawned entry => pm.startCoroutine env i c entry
      | _ => pm
    | none => pm
  | .sent i ok env =>
    match pm.coroutines[i]? with
    | some c =>
      match c.job with
      | .sending (msg :: out) s => pm.afterSend env i c s msg out ok
      | _ => pm
    | none => pm
  | .received i env allocates =>
    match pm.coroutines[i]? with
    | some c => if waits c then takeMessage P pm env allocates i c else pm
    | none => pm
  | .timedOut i env =>
    match pm.coroutines[i]? with
    | some c => if waits c then expireWait P pm env i c else pm
    | none => pm
  | .requestPeers conn => pm.runPexWithPeer conn
  | .tick =>
    match pm.timer with
    | .waiting => if pm.stopping then { pm with timer := .stopped } else pm.syncNext pm.peers.keys
    | _ => pm
  | .cancelTimer =>
    match pm.timer with
    | .waiting => { pm with timer := .cancelled }
    | _ => pm
  | .stop => { pm with stopping := true }
  | .write tables => { pm with tables }

end PeerManager

end Peer
