import Chromatin.Engine.Ingest

/-!
# The expiry timer (`peer/sync_orchestrator.cpp`, `peer/blob_push_manager.cpp`)

`expiry_scan_loop` waits for the time in `next_expiry_target_`, scans, and takes over the earliest
time that is left. `rearm_expiry_timer` brings the target forward and wakes the loop or spawns one.
It is called when the node starts, and by `on_blob_ingested` for a blob that was stored, unless the
blob has expired by then.

The callers of the engine (`BlobWrite`, `Delete`, `BlobFetchResponse` and `ingest_blobs`) go on some
time after the call has stored its blob. A loop is a coroutine: it exists from the time it is
spawned, and as the flag is only set when it starts there can be several. `expiry_timer_` points to
the timer of the one that waited last. How long a wait lasts is left open. -/

namespace Peer

open Infra Util Wire Storage Engine

/-- Where a coroutine of `expiry_scan_loop` is. -/
inductive LoopPoint
  | spawned
  | waiting
  /-- the wait is over -/
  | woken (cancelled : Bool)
  | ended
deriving DecidableEq

structure ExpiryTimer where
  node : Node := {}
  nextExpiryTarget : Nat := 0
  expiryLoopRunning : Bool := false
  /-- the loop whose timer is `expiry_timer_` -/
  expiryTimer : Option Nat := none
  loops : List LoopPoint := []
  stopping : Bool := false
  /-- the calls whose callers have gone on -/
  completed : List Nat := []

inductive TimerEvent
  | call (entry : Entry) (ns : Hash32) (blob : BlobData)
  /-- a call runs up to its next suspension -/
  | turn (i : Nat) (env : Env)
  /-- the caller of a call that has stored its blob goes on -/
  | ingested (i : Nat) (now : UInt64)
  /-- a loop starts -/
  | started (loop : Nat)
  /-- its timer has run out -/
  | expired (loop : Nat)
  /-- it goes on after the wait -/
  | resumed (loop : Nat) (now : UInt64)
  | stop

namespace ExpiryTimer

/-- A wait that is not over ends with an error. -/
def cancel (s : ExpiryTimer) : ExpiryTimer :=
  match s.expiryTimer with
  | none => s
  | some i => { s with loops := s.loops.modify i fun p => if p = .waiting then .woken true else p }

def rearmExpiryTimer (s : ExpiryTimer) (expiryTime : Nat) : ExpiryTimer :=
  if s.nextExpiryTarget = 0 ∨ expiryTime < s.nextExpiryTarget then
    let s := { s with nextExpiryTarget := expiryTime }
    if s.expiryLoopRunning then s.cancel else { s with loops := s.loops ++ [.spawned] }
  else s

/-- `on_blob_ingested`, as far as it concerns the timer. -/
def onBlobIngested (s : ExpiryTimer) (now expiryTime : UInt64) : ExpiryTimer :=
  if 0 < expiryTime ∧ expiryTime ≤ now then s
  else if 0 < expiryTime then s.rearmExpiryTimer expiryTime.toNat
  else s

/-! ## The loop -/

def endLoop (s : ExpiryTimer) (i : Nat) : ExpiryTimer :=
  { s with expiryLoopRunning := false, loops := s.loops.set i .ended }

/-- From the head of the loop to the wait. -/
def loopHead (s : ExpiryTimer) (i : Nat) : ExpiryTimer :=
  if s.stopping ∨ s.nextExpiryTarget = 0 then s.endLoop i
  else { s with expiryTimer := some i, loops := s.loops.set i .waiting }

section

variable (P : Primitives)

/-- What follows a wait. -/
def wake (s : ExpiryTimer) (i : Nat) (cancelled : Bool) (now : UInt64) : ExpiryTimer :=
  let s := { s with expiryTimer := none }
  if s.stopping then s.endLoop i
  else if cancelled then s.loopHead i
  else
    let tables := (runExpiryScan P s.node.tables now).1
    let s := { s with node := { s.node with tables } }
    match tables.getEarliestExpiry with
    | some next => { s with nextExpiryTarget := next }.loopHead i
    | none => { s with nextExpiryTarget := 0 }.endLoop i

/-! ## Steps -/

/-- The call has stored its blob. -/
def hasStored (task : Task) : Bool :=
  match task.pc with
  | .done (.success ack) => ack.status = .stored
  | _ => false

/-- `PeerManager::start` on a store. -/
def start (t : Tables) : ExpiryTimer :=
  match t.getEarliestExpiry with
  | some earliest => rearmExpiryTimer { node := { tables := t } } earliest
  | none => { node := { tables := t } }

def step (s : ExpiryTimer) : TimerEvent → ExpiryTimer
  | .call entry ns blob => { s with node := s.node.step P (.call entry ns blob) }
  | .turn i env => { s with node := s.node.step P (.resume i env) }
  | .ingested i now =>
    match s.node.tasks[i]? with
    | none => s
    | some task =>
      if hasStored task ∧ i ∉ s.completed then
        { s with completed := s.completed ++ [i] }.onBlobIngested now
          (saturatingExpiry task.blob.timestamp task.blob.ttl)
      else s
  | .started i =>
    if s.loops[i]? = some .spawned then { s with expiryLoopRunning := true }.loopHead i else s
  | .expired i => if s.loops[i]? = some .waiting
      then { s with loops := s.loops.set i (.woken false) } else s
  | .resumed i now =>
    match s.loops[i]? with
    | some (.woken cancelled) => s.wake P i cancelled now
    | _ => s
  | .stop => { s with stopping := true }.cancel

end

end ExpiryTimer

end Peer
