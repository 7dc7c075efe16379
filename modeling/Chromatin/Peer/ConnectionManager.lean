import Chromatin.Net.Handshake
import Chromatin.Peer.PeerManager
import Chromatin.Storage.Cursors

/-!
# The connected peers (`peer/connection_manager.cpp`)

`peers_` holds one entry per registered connection. `on_peer_connected` runs when a handshake has
succeeded: the remote key must be on the access list for the role it has declared, and of two
connections to the same node one is closed. `on_peer_disconnected` is the close callback of a
connection. It may run long after the connection was closed, and notes the time for the grace
period of the sync cursors.

Two loops of `peer/sync_orchestrator.cpp` delete cursors: the safety net of `sync_timer_loop` those
of peers that have been away for longer than the grace period, `cursor_compaction_loop` those of all
peers that are neither connected nor within it.

What a call does outside the manager is returned as a list of `Action`s, in the order of the calls.
Metrics and logs are left out, and so are the fields of an entry that are not set here.
-/

namespace Peer

open Infra Util Wire Storage

/-! ## The access lists (`acl/access_control.cpp`) -/

/-- Empty lists allow everybody; a list that is not empty always allows the node itself. -/
structure AccessControl where
  allowedClientKeys : List Hash32 := []
  allowedPeerKeys : List Hash32 := []
  ownNamespace : Hash32

namespace AccessControl

def isClientAllowed (acl : AccessControl) (ns : Hash32) : Bool :=
  acl.allowedClientKeys.isEmpty || ns ∈ acl.allowedClientKeys || ns = acl.ownNamespace

def isPeerAllowed (acl : AccessControl) (ns : Hash32) : Bool :=
  acl.allowedPeerKeys.isEmpty || ns ∈ acl.allowedPeerKeys || ns = acl.ownNamespace

def isAllowed (acl : AccessControl) (role : Net.Role) (ns : Hash32) : Bool :=
  if role = .client then acl.isClientAllowed ns else acl.isPeerAllowed ns

end AccessControl

/-! ## Connections and their entries -/

/-- What the manager reads of a connection that has passed the handshake. -/
structure Connection where
  id : ConnId
  peerPubkey : PubKey
  /-- declared by the remote end -/
  peerRole : Net.Role
  isUds : Bool := false
  isInitiator : Bool
  remoteAddress : String := ""
  /-- the address this node has connected to, `none` for an inbound connection -/
  connectAddress : Option String := none

namespace Connection

/-- A local socket is only used by clients. -/
def role (conn : Connection) : Net.Role := if conn.isUds then .client else conn.peerRole

def peerHash (P : Primitives) (conn : Connection) : Hash32 := P.sha3_256 conn.peerPubkey.toList

end Connection

namespace ConnectionManager

structure PeerInfo where
  connection : Connection
  address : String
  isBootstrap : Bool := false
  role : Net.Role
  bucketTokens : UInt64
  /-- steady clock, milliseconds -/
  bucketLastRefill : UInt64
  lastMessageTime : UInt64

def PeerInfo.peerHash (P : Primitives) (p : PeerInfo) : Hash32 := p.connection.peerHash P

end ConnectionManager

structure ConnectionManager where
  peers : List ConnectionManager.PeerInfo := []
  /-- steady clock at the disconnect, milliseconds -/
  disconnectedPeers : Table Hash32 UInt64 := ∅

/-- What `on_peer_connected` reads besides the connection. -/
structure ConnectEnv where
  acl : AccessControl
  nowMs : UInt64 := 0
  rateLimitBurst : UInt64 := 0
  bootstrapAddresses : List String := []

/-- The node's own identity. -/
def ConnectEnv.ownNs (env : ConnectEnv) : Hash32 := env.acl.ownNamespace

inductive Action
  /-- `Server::notify_acl_rejected` -/
  | notifyAclRejected (address : String)
  /-- `Server::delay_reconnect` -/
  | delayReconnect (address : String)
  | close (conn : Connection)
  | onConnect (conn : ConnId) (address : String)
  /-- the coroutine is spawned -/
  | announceAndSync (conn : ConnId)
  | onDisconnect (conn : ConnId)

namespace ConnectionManager

def CURSOR_GRACE_PERIOD_MS : UInt64 := 5 * 60 * 1000

/-! ## Connecting -/

/-- The new connection is kept if the node with the smaller identity has opened it; nothing is asked
about the existing one. -/
def keepNew (ownNs peerNs : Hash32) (isInitiator : Bool) : Bool :=
  if ownNs < peerNs then isInitiator else !isInitiator

section

variable (P : Primitives)

def infoOf (env : ConnectEnv) (conn : Connection) : PeerInfo where
  connection := conn
  address := conn.remoteAddress
  isBootstrap := conn.remoteAddress ∈ env.bootstrapAddresses
  role := conn.role
  bucketTokens := env.rateLimitBurst
  bucketLastRefill := env.nowMs
  lastMessageTime := env.nowMs

/-- Where the scan over `peers_` stops: at the first entry with the identity, whatever its role. -/
def duplicateOf (m : ConnectionManager) (peerNs : Hash32) : Option PeerInfo :=
  m.peers.find? fun p => p.peerHash P = peerNs

/-- The entry is added, and the identity is no longer a disconnected one. -/
def register (env : ConnectEnv) (m : ConnectionManager) (conn : Connection) :
    ConnectionManager × List Action :=
  ({ peers := m.peers ++ [infoOf env conn]
     disconnectedPeers := m.disconnectedPeers.erase (conn.peerHash P) },
    if conn.role = .peer then [.onConnect conn.id conn.remoteAddress, .announceAndSync conn.id]
    else [])

/-- A connection that this node has opened is not opened again at once. -/
def closeDuplicate (conn : Connection) : List Action :=
  (conn.connectAddress.toList.map .delayReconnect) ++ [.close conn]

def onPeerConnected (env : ConnectEnv) (m : ConnectionManager) (conn : Connection) :
    ConnectionManager × List Action :=
  let peerNs := conn.peerHash P
  if !env.acl.isAllowed conn.role peerNs then
    (m, (conn.connectAddress.toList.map .notifyAclRejected) ++ [.close conn])
  else
    match if conn.role = .peer then m.duplicateOf P peerNs else none with
    | none => m.register P env conn
    | some existing =>
      if keepNew env.ownNs peerNs conn.isInitiator then
        let erased := { m with peers := m.peers.eraseP fun p => p.peerHash P = peerNs }
        let (m', actions) := erased.register P env conn
        (m', closeDuplicate existing.connection ++ actions)
      else (m, closeDuplicate conn)

/-! ## Disconnecting -/

/-- The connection has an entry, and it is a client's. A connection that has lost its entry to
another one counts as a peer. -/
def wasClient (m : ConnectionManager) (conn : Connection) : Bool :=
  (m.peers.find? fun p => p.connection.id = conn.id).any fun p => p.role = .client

def onPeerDisconnected (nowMs : UInt64) (m : ConnectionManager) (conn : Connection) :
    ConnectionManager × List Action :=
  ({ peers := m.peers.filter fun p => p.connection.id ≠ conn.id
     disconnectedPeers :=
       if m.wasClient conn then m.disconnectedPeers
       else m.disconnectedPeers.insert (conn.peerHash P) nowMs },
    [.onDisconnect conn.id])

end

/-! ## The sweeps over the cursors -/

/-- `now_ms - disconnect_time`, a difference of `uint64_t`, is within the grace period. -/
def withinGrace (nowMs disconnectTime : UInt64) : Bool :=
  nowMs - disconnectTime ≤ CURSOR_GRACE_PERIOD_MS

/-- One entry of the sweep: who has been away for too long is forgotten. -/
def sweepEntry (nowMs : UInt64) (state : ConnectionManager × Tables) (entry : Hash32 × UInt64) :
    ConnectionManager × Tables :=
  if withinGrace nowMs entry.2 then state
  else
    ({ state.1 with disconnectedPeers := state.1.disconnectedPeers.erase entry.1 },
      (state.2.deletePeerCursors entry.1).1)

/-- The end of a round of `sync_timer_loop`. -/
def safetyNet (nowMs : UInt64) (m : ConnectionManager) (t : Tables) : ConnectionManager × Tables :=
  m.disconnectedPeers.toList.foldl (sweepEntry nowMs) (m, t)

/-- The peers whose cursors a compaction leaves alone. -/
def knownPeers (P : Primitives) (nowMs : UInt64) (m : ConnectionManager) : List Hash32 :=
  m.peers.map (fun p => p.peerHash P) ++
    (m.disconnectedPeers.toList.filter fun e => withinGrace nowMs e.2).map Prod.fst

/-- A round of `cursor_compaction_loop`. -/
def cursorCompaction (P : Primitives) (nowMs : UInt64) (m : ConnectionManager) (t : Tables) :
    Tables :=
  (t.cleanupStaleCursors (m.knownPeers P nowMs)).1

end ConnectionManager

/-! ## Calls and rounds in any order -/

inductive ManagerEvent
  | connected (env : ConnectEnv) (conn : Connection)
  | disconnected (nowMs : UInt64) (conn : Connection)

def ConnectionManager.step (P : Primitives) (m : ConnectionManager) :
    ManagerEvent → ConnectionManager
  | .connected env conn => (m.onPeerConnected P env conn).1
  | .disconnected nowMs conn => (m.onPeerDisconnected P nowMs conn).1

/-- The manager and the store whose cursors are swept. -/
structure Roster where
  manager : ConnectionManager := {}
  tables : Tables := {}

inductive RosterEvent
  | manager (e : ManagerEvent)
  | safetyNet (nowMs : UInt64)
  | cursorCompaction (nowMs : UInt64)
  /-- sessions and others write to the store -/
  | write (tables : Tables)

def Roster.step (P : Primitives) (r : Roster) : RosterEvent → Roster
  | .manager e => { r with manager := r.manager.step P e }
  | .safetyNet nowMs =>
    let (manager, tables) := r.manager.safetyNet nowMs r.tables
    { manager, tables }
  | .cursorCompaction nowMs => { r with tables := r.manager.cursorCompaction P nowMs r.tables }
  | .write tables => { r with tables }

end Peer
