import Chromatin.Sync.ReconcileCodec

/-!
# The per-namespace reconciliation loops (`peer/sync_orchestrator.cpp`)

Phase B of a sync session reconciles one namespace after the other. `run_sync_with_peer` sends
`ReconcileInit` and then loops over the messages it receives; `handle_sync_as_responder` answers
the init message and enters a loop of its own. The two loops handle a message in the same way but
for one case: the initiator ends the session on an undecodable `ReconcileRanges`, the responder
only leaves the namespace.

A loop suspends in `recv_sync_msg` only, so one received message is handled in one step.
-/

namespace Peer

open Infra Util Sync

/-- The message types the dispatcher routes to a sync session, and the notices a session sends. -/
inductive TransportMsgType
  | syncRequest
  | syncAccept
  | syncRejected
  | syncComplete
  | namespaceList
  | blobRequest
  | blobTransfer
  | reconcileInit
  | reconcileRanges
  | reconcileItems
  | peerListRequest
  | peerListResponse
  | storageFull
  | quotaExceeded
  deriving DecidableEq, Repr

structure SyncMessage where
  type : TransportMsgType
  payload : Bytes

/-! ## The state of a loop -/

inductive LoopPhase
  /-- suspended in `recv_sync_msg` -/
  | waiting
  /-- left by `break` -/
  | left
  /-- `MAX_RECONCILE_ROUNDS` messages were handled -/
  | exhausted
  /-- the session coroutine returned -/
  | aborted
  /-- an access outside the local list -/
  | undefined
  deriving DecidableEq, Repr

structure ReconcileLoop where
  phase : LoopPhase
  /-- messages handled so far -/
  round : Nat
  peerItems : List Hash32
  deriving DecidableEq

/-- Leave the loop, with further items of the peer. -/
def ReconcileLoop.leave (loop : ReconcileLoop) (phase : LoopPhase) (items : List Hash32) :
    ReconcileLoop :=
  { phase, round := loop.round + 1, peerItems := loop.peerItems ++ items }

/-- The end of an iteration that did not leave the loop. -/
def ReconcileLoop.next (loop : ReconcileLoop) (items : List Hash32) : ReconcileLoop :=
  { phase := if loop.round + 1 < MAX_RECONCILE_ROUNDS then .waiting else .exhausted
    round := loop.round + 1
    peerItems := loop.peerItems ++ items }

/-! ## One message -/

def hasFingerprint (ranges : List RangeEntry) : Bool :=
  ranges.any fun r => r.mode = .fingerprint

/-- Our items in the `ItemList` ranges of a message. -/
def ourRangeItems (ourHashes : List Hash32) (ranges : List RangeEntry) : List Hash32 :=
  (withLower RangeEntry.upperBound minHash ranges).flatMap fun p =>
    if p.2.mode = .itemList then
      let (b, e) := rangeIndices ourHashes p.1 p.2.upperBound
      slice ourHashes b e
    else []

/-- The body of both loops; `invalid` is where an undecodable `ReconcileRanges` leads. -/
def reconcileRound (invalid : LoopPhase) (ns : Hash32) (ourHashes : List Hash32)
    (loop : ReconcileLoop) (msg : SyncMessage) : ReconcileLoop × List SyncMessage :=
  match msg.type with
  | .reconcileRanges =>
    match decodeReconcileRanges msg.payload with
    | none => (loop.leave invalid [], [])
    | some decoded =>
      if decoded.ranges = [] then
        (loop.leave .left [], [])
      else if hasFingerprint decoded.ranges then
        match processRanges ourHashes decoded.ranges with
        | none => (loop.leave .undefined [], [])
        | some result =>
          (loop.next result.haveItems,
            [⟨.reconcileRanges, encodeReconcileRanges ns result.responseRanges⟩])
      else
        -- final exchange: collect the peer's items and send ours for the same ranges
        (loop.leave .left (itemListItems decoded.ranges),
          [⟨.reconcileItems, encodeReconcileItems ns (ourRangeItems ourHashes decoded.ranges)⟩])
  | .reconcileItems =>
    match decodeReconcileItems msg.payload with
    | none => (loop.leave .left [], [])
    | some decoded => (loop.leave .left decoded.items, [])
  | _ => (loop.leave .left [], [])

/-- One iteration of the loop in `run_sync_with_peer`. -/
def initiatorRound (ns : Hash32) (ourHashes : List Hash32) (loop : ReconcileLoop)
    (msg : SyncMessage) : ReconcileLoop × List SyncMessage :=
  reconcileRound .aborted ns ourHashes loop msg

/-- One iteration of the inner loop in `handle_sync_as_responder`. -/
def responderRound (ns : Hash32) (ourHashes : List Hash32) (loop : ReconcileLoop)
    (msg : SyncMessage) : ReconcileLoop × List SyncMessage :=
  reconcileRound .left ns ourHashes loop msg

/-! ## Entering the loops -/

def initOf (ns : Hash32) (ourHashes : List Hash32) : ReconcileInit :=
  { version := RECONCILE_VERSION
    namespaceId := ns
    count := UInt32.ofNat ourHashes.length
    fingerprint := xorFingerprint ourHashes 0 ourHashes.length }

/-- The initiator opens a namespace. -/
def initiatorStart (ns : Hash32) (ourHashes : List Hash32) : ReconcileLoop × List SyncMessage :=
  (⟨.waiting, 0, []⟩, [⟨.reconcileInit, encodeReconcileInit (initOf ns ourHashes)⟩])

/-- The full range an init message stands for. -/
def initRangeOf (init : ReconcileInit) : RangeEntry :=
  { upperBound := maxHash, mode := .fingerprint, count := init.count,
    fingerprint := init.fingerprint }

/-- The responder answers a decoded `ReconcileInit`. -/
def responderStart (ourHashes : List Hash32) (init : ReconcileInit) :
    ReconcileLoop × List SyncMessage :=
  match processRanges ourHashes [initRangeOf init] with
  | none => (⟨.undefined, 0, []⟩, [])
  | some result =>
    if result.complete then
      (⟨.left, 0, result.haveItems⟩,
        [⟨.reconcileRanges, encodeReconcileRanges init.namespaceId []⟩])
    else
      (⟨.waiting, 0, result.haveItems⟩,
        [⟨.reconcileRanges, encodeReconcileRanges init.namespaceId result.responseRanges⟩])

/-- The peer's items we do not have. -/
def missingHashes (ourHashes peerItems : List Hash32) : List Hash32 :=
  peerItems.filter (· ∉ ourHashes)

/-! ## Both loops over two FIFO channels -/

inductive Side
  | initiator
  | responder
  deriving DecidableEq, Repr

/-- The two loops of one namespace and the messages in flight. The responder has no loop before
it has read the init message. -/
structure Exchange where
  initiator : ReconcileLoop
  responder : Option ReconcileLoop
  toInitiator : List SyncMessage
  toResponder : List SyncMessage

/-- The initiator has sent its init message. -/
def Exchange.start (ns : Hash32) (ourHashes : List Hash32) : Exchange :=
  { initiator := (initiatorStart ns ourHashes).1
    responder := none
    toInitiator := []
    toResponder := (initiatorStart ns ourHashes).2 }

/-- One side receives the oldest message sent to it; `none` when there is none, or when that side
does not wait for a message of this namespace. -/
def Exchange.deliver (ns : Hash32) (initiatorHashes responderHashes : List Hash32)
    (side : Side) (ex : Exchange) : Option Exchange :=
  match side with
  | .initiator =>
    match ex.toInitiator with
    | [] => none
    | msg :: rest =>
      if ex.initiator.phase = .waiting then
        let (loop, out) := initiatorRound ns initiatorHashes ex.initiator msg
        some { ex with initiator := loop, toInitiator := rest,
                       toResponder := ex.toResponder ++ out }
      else none
  | .responder =>
    match ex.toResponder with
    | [] => none
    | msg :: rest =>
      match ex.responder with
      | none =>
        if msg.type = .reconcileInit then do
          let init ← decodeReconcileInit msg.payload
          let (loop, out) := responderStart responderHashes init
          some { ex with responder := some loop, toResponder := rest,
                         toInitiator := ex.toInitiator ++ out }
        else none
      | some loop =>
        if loop.phase = .waiting then
          let (loop, out) := responderRound ns responderHashes loop msg
          some { ex with responder := some loop, toResponder := rest,
                         toInitiator := ex.toInitiator ++ out }
        else none

/-- The state after the deliveries of a schedule, in its order. -/
def Exchange.run (ns : Hash32) (initiatorHashes responderHashes : List Hash32) :
    List Side → Exchange → Option Exchange
  | [], ex => some ex
  | side :: rest, ex => do
    let ex' ← ex.deliver ns initiatorHashes responderHashes side
    Exchange.run ns initiatorHashes responderHashes rest ex'

end Peer
