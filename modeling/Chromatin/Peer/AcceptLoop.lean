import Chromatin.Peer.ConnectionManager

/-!
# The ways in (`net/server.cpp`, `net/uds_acceptor.cpp`)

The two accept loops ask `should_accept_connection` when a connection comes in. The handshake then
runs in a coroutine of its own, and only when it has succeeded does `on_peer_connected` add the
entry. `connect_to_peer` and `reconnect_loop` ask nobody. -/

namespace Peer

open Infra Util Wire

/-- `max_peers_` and `max_clients_`. -/
structure ConnectionLimits where
  maxPeers : Nat
  maxClients : Nat

namespace ConnectionManager

/-- Entries of clients. -/
def clientCount (m : ConnectionManager) : Nat := m.peers.countP fun p => p.role = .client

/-- Every other entry is a peer's for the limits. -/
def peerCount (m : ConnectionManager) : Nat := m.peers.countP fun p => p.role ≠ .client

def shouldAcceptConnection (limits : ConnectionLimits) (m : ConnectionManager) : Bool :=
  m.peerCount < limits.maxPeers && m.clientCount < limits.maxClients

end ConnectionManager

/-- A connection whose handshake has not ended. -/
structure Opening where
  id : ConnId
  isInitiator : Bool
  isUds : Bool
deriving DecidableEq

def Connection.opening (conn : Connection) : Opening where
  id := conn.id
  isInitiator := conn.isInitiator
  isUds := conn.isUds

structure Front where
  manager : ConnectionManager := {}
  opening : List Opening := []

inductive FrontEvent
  /-- a round of an accept loop -/
  | accepted (id : ConnId) (isUds : Bool)
  /-- `connect_to_peer` or `reconnect_loop` has reached a peer -/
  | dialed (id : ConnId)
  /-- the handshake has succeeded: `on_ready` -/
  | ready (env : ConnectEnv) (conn : Connection)
  /-- the handshake has failed -/
  | failed (opening : Opening)
  /-- the close callback -/
  | closed (nowMs : UInt64) (conn : Connection)

def Front.step (P : Primitives) (limits : ConnectionLimits) (s : Front) : FrontEvent → Front
  | .accepted id isUds =>
    if s.manager.shouldAcceptConnection limits then
      { s with opening := s.opening ++ [{ id, isInitiator := false, isUds }] }
    else s
  | .dialed id => { s with opening := s.opening ++ [{ id, isInitiator := true, isUds := false }] }
  | .ready env conn =>
    if conn.opening ∈ s.opening then
      { manager := (s.manager.onPeerConnected P env conn).1,
        opening := s.opening.erase conn.opening }
    else s
  | .failed opening => { s with opening := s.opening.erase opening }
  | .closed nowMs conn => { s with manager := (s.manager.onPeerDisconnected P nowMs conn).1 }

end Peer
