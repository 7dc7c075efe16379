import Mathlib.Logic.Function.Basic

/-!
# Outbound connections and reconnecting (`net/server.cpp`)

For each address a coroutine connects, runs the connection and connects again when it has ended.
Bootstrap peers start in `connect_to_peer`, which goes over to `reconnect_loop` after the first
attempt; all others start in `reconnect_loop` by `connect_once`.

`reconnect_state_` holds the delay and the number of rejections for an address, and its entries also
say for which addresses a loop is running. `reconnect_timers_` points to the timer of a loop that
waits. `notify_acl_rejected`, `delay_reconnect`, `stop_reconnect`, `clear_reconnect_state` and
`stop` change them at any time between the suspensions of the coroutines.

A coroutine is suspended until its own event: its start, the result of a resolve or a connect, the
end of a connection, the handler of its timer. The wait of a timer that has expired can no longer be
cancelled. Both maps are functions of the address. The list of connections, the callbacks on the
connection and the accept loop are left out, logs too.
-/

namespace Net

structure ReconnectState where
  delaySec : Nat := 1
  aclRejectionCount : Nat := 0
deriving DecidableEq

def ACL_REJECTION_THRESHOLD : Nat := 3

def EXTENDED_BACKOFF_SEC : Nat := 600

def MAX_BACKOFF_SEC : Nat := 60

namespace ReconnectState

/-- The delay before the next attempt; `draw` is the random number for the jitter. -/
def effectiveDelay (cur : ReconnectState) (draw : Nat) : Nat :=
  if ACL_REJECTION_THRESHOLD ≤ cur.aclRejectionCount then EXTENDED_BACKOFF_SEC
  else if 1 < cur.delaySec then
    let jitter := draw % (cur.delaySec / 2 + 1)
    min (cur.delaySec + jitter) MAX_BACKOFF_SEC
  else cur.delaySec

/-- An attempt has failed. -/
def backOff (cur : ReconnectState) : ReconnectState :=
  { cur with delaySec := min (cur.delaySec * 2) MAX_BACKOFF_SEC }

/-- An attempt was rejected by the access list. -/
def reject (cur : ReconnectState) : ReconnectState where
  delaySec :=
    if ACL_REJECTION_THRESHOLD ≤ cur.aclRejectionCount + 1 then EXTENDED_BACKOFF_SEC
      else cur.delaySec
  aclRejectionCount := cur.aclRejectionCount + 1

end ReconnectState

/-! ## Coroutines -/

inductive Routine
  | connectToPeer
  | reconnectLoop
deriving DecidableEq

/-- The wait of a timer: its handler is queued with success once it has expired, with an error once
it is cancelled. -/
inductive Wait
  | armed
  | expired
  | aborted
deriving DecidableEq

/-- Where a coroutine is suspended. -/
inductive Point
  /-- handed to `co_spawn`, not started yet -/
  | spawned (routine : Routine)
  /-- `reconnect_loop` waits for its timer -/
  | sleeping (wait : Wait) (deadline : Nat)
  | resolving (routine : Routine)
  | connecting (routine : Routine)
  /-- in `run()` of a connection, with the count of rejections before it -/
  | running (routine : Routine) (conn : Nat) (prevAclCount : Nat) (handshakeOk : Bool)
  | returned
deriving DecidableEq

/-- The callback of a connection sets the local variable of the coroutine that runs it. -/
def Point.markReady (conn : Nat) : Point → Point
  | .running routine conn' prevAclCount handshakeOk =>
    .running routine conn' prevAclCount (handshakeOk || conn' = conn)
  | p => p

structure Coroutine where
  address : String
  point : Point
deriving DecidableEq

structure Server where
  reconnectState : String → Option ReconnectState := fun _ => none
  /-- the coroutine whose timer is pointed to -/
  reconnectTimers : String → Option Nat := fun _ => none
  draining : Bool := false
  coroutines : List Coroutine := []
  /-- steady clock, seconds -/
  now : Nat := 0

/-- What a coroutine is resumed with; `draw` is the next random number. -/
inductive Resumption
  | started (draw : Nat)
  /-- the deadline has passed; the coroutine itself goes on with `woken` -/
  | expired
  /-- the handler of the timer runs -/
  | woken
  | resolved (ok : Bool) (draw : Nat)
  /-- with the connection that is made for the socket -/
  | connected (ok : Bool) (conn : Nat) (draw : Nat)
  /-- `run()` returns -/
  | ran (ok : Bool) (draw : Nat)
deriving DecidableEq

inductive ServerEvent
  /-- `connect_to_peer` is spawned -/
  | connectToPeer (address : String)
  | connectOnce (address : String)
  | resume (i : Nat) (r : Resumption)
  /-- the handshake of a connection has succeeded -/
  | ready (conn : Nat)
  | notifyAclRejected (address : String)
  | delayReconnect (address : String)
  | stopReconnect (address : String)
  | clearReconnectState
  | stop
  | elapse (seconds : Nat)
deriving DecidableEq

namespace Server

/-- `reconnect_state_[address]`, as it is read. -/
def stateOf (s : Server) (address : String) : ReconnectState := (s.reconnectState address).getD {}

/-- `reconnect_state_[address]`, as it is written: the entry exists afterwards. -/
def modifyState (s : Server) (address : String) (f : ReconnectState → ReconnectState) : Server :=
  { s with
    reconnectState := Function.update s.reconnectState address (some (f (s.stateOf address))) }

def setTimer (s : Server) (address : String) (timer : Option Nat) : Server :=
  { s with reconnectTimers := Function.update s.reconnectTimers address timer }

/-! ## The loop

Each function goes on to the next suspension of coroutine `i` and returns its point. -/

/-- An iteration of `reconnect_loop` up to its first suspension. Only a first attempt without a
delay is made at once. -/
def iterate (s : Server) (i : Nat) (address : String) (firstAttempt : Bool) (draw : Nat) :
    Server × Point :=
  if s.draining then (s, .returned)
  else
    match s.reconnectState address with
    | none => (s, .returned)
    | some cur =>
      if !firstAttempt ∨ 1 < cur.delaySec ∨ ACL_REJECTION_THRESHOLD ≤ cur.aclRejectionCount then
        (s.setTimer address (some i), .sleeping .armed (s.now + cur.effectiveDelay draw))
      else (s, .resolving .reconnectLoop)

def reconnectLoop (s : Server) (i : Nat) (address : String) (draw : Nat) : Server × Point :=
  (s.modifyState address id).iterate i address true draw

/-- The timer's wait has ended. -/
def awake (s : Server) (address : String) (wait : Wait) : Server × Point :=
  (s.setTimer address none, if wait = .aborted ∨ s.draining then .returned
    else .resolving .reconnectLoop)

/-- A resolve or a connect has failed. -/
def attemptFailed (s : Server) (i : Nat) (address : String) (draw : Nat) : Routine → Server × Point
  | .connectToPeer => s.reconnectLoop i address draw
  | .reconnectLoop => (s.modifyState address .backOff).iterate i address false draw

/-- The connection is run. -/
def runConnection (s : Server) (address : String) (routine : Routine) (conn : Nat) :
    Server × Point :=
  (s.modifyState address id, .running routine conn (s.stateOf address).aclRejectionCount false)

/-- `connect_to_peer` after `run()`. Its four cases end in the loop, unless the server is draining.
-/
def connectRan (s : Server) (i : Nat) (address : String) (draw : Nat) : Server × Point :=
  if s.draining then (s.modifyState address id, .returned)
  else (s.modifyState address id).reconnectLoop i address draw

/-- `reconnect_loop` after `run()`. -/
def loopRan (s : Server) (i : Nat) (address : String) (prevAclCount : Nat) (handshakeOk ok : Bool)
    (draw : Nat) : Server × Point :=
  if s.draining then (s, .returned)
  else
    let wasAclRejected := prevAclCount < (s.stateOf address).aclRejectionCount
    if (ok ∨ handshakeOk) ∧ ¬ wasAclRejected then
      (s.modifyState address fun _ => {}).iterate i address false draw
    else
      (s.modifyState address fun cur =>
        if cur.aclRejectionCount < ACL_REJECTION_THRESHOLD then cur.backOff
        else cur).iterate i address false draw

/-- A coroutine is resumed; if it waits for something else, nothing happens. -/
def resume (s : Server) (i : Nat) (address : String) : Point → Resumption → Server × Point
  | .spawned .connectToPeer, .started _ => (s, .resolving .connectToPeer)
  | .spawned .reconnectLoop, .started draw => s.reconnectLoop i address draw
  | .sleeping .armed deadline, .expired =>
    (s, .sleeping (if deadline ≤ s.now then .expired else .armed) deadline)
  | .sleeping .expired _, .woken => s.awake address .expired
  | .sleeping .aborted _, .woken => s.awake address .aborted
  | .resolving routine, .resolved ok draw =>
    if routine = .reconnectLoop ∧ s.draining then (s, .returned)
    else if ok then (s, .connecting routine)
    else s.attemptFailed i address draw routine
  | .connecting routine, .connected ok conn draw =>
    if routine = .reconnectLoop ∧ s.draining then (s, .returned)
    else if ok then s.runConnection address routine conn
    else s.attemptFailed i address draw routine
  | .running .connectToPeer _ _ _, .ran _ draw => s.connectRan i address draw
  | .running .reconnectLoop _ prevAclCount handshakeOk, .ran ok draw =>
    s.loopRan i address prevAclCount handshakeOk ok draw
  | point, _ => (s, point)

/-! ## Steps -/

def spawn (s : Server) (address : String) (routine : Routine) : Server :=
  { s with coroutines := s.coroutines ++ [{ address, point := .spawned routine }] }

def setPoint (s : Server) (i : Nat) (point : Point) : Server :=
  { s with coroutines := s.coroutines.modify i fun c => { c with point } }

/-- `connect_once`: an entry for the address means that a loop is running. -/
def connectOnce (s : Server) (address : String) : Server :=
  if s.draining then s
  else if (s.reconnectState address).isSome then s
  else (s.modifyState address id).spawn address .reconnectLoop

/-- `timer->cancel()`, if the coroutine waits at the timer that is registered for its address. A
wait that has expired is not affected. -/
def cancelWait (s : Server) (i : Nat) (c : Coroutine) : Point :=
  match c.point with
  | .sleeping .armed deadline =>
    .sleeping (if s.reconnectTimers c.address = some i then .aborted else .armed) deadline
  | p => p

def cancelTimers (s : Server) (which : String → Bool) : Server :=
  { s with
    coroutines := s.coroutines.mapIdx fun i c =>
      if which c.address then { c with point := s.cancelWait i c } else c }

def step (s : Server) : ServerEvent → Server
  | .connectToPeer address => s.spawn address .connectToPeer
  | .connectOnce address => s.connectOnce address
  | .resume i r =>
    match s.coroutines[i]? with
    | none => s
    | some c =>
      let (s', point) := s.resume i c.address c.point r
      s'.setPoint i point
  | .ready conn =>
    { s with coroutines := s.coroutines.map fun c => { c with point := c.point.markReady conn } }
  | .notifyAclRejected address => s.modifyState address .reject
  | .delayReconnect address =>
    match s.reconnectState address with
    | none => s
    | some _ => s.modifyState address fun cur => { cur with delaySec := MAX_BACKOFF_SEC }
  | .stopReconnect address =>
    { s with reconnectState := Function.update s.reconnectState address none }.cancelTimers
      (· = address)
  | .clearReconnectState => { s with reconnectState := fun _ => none }.cancelTimers fun _ => true
  | .stop => if s.draining then s else { s with draining := true }.cancelTimers fun _ => true
  | .elapse seconds => { s with now := s.now + seconds }

end Server

end Net
