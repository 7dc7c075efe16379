import Chromatin.Peer.ReconcileLoop
import Chromatin.Sync.Protocol
import Mathlib.Data.List.Dedup
import Mathlib.Data.List.Sort

/-!
# A sync session (`peer/sync_orchestrator.cpp`)

`run_sync_with_peer` on one node against `handle_sync_as_responder` on the other. Both coroutines
exchange their namespace lists (phase A), reconcile one namespace after the other as the initiator
drives them (phase B), request what they miss while they serve what the other side misses
(phase C), and set a cursor for every namespace the peer has announced.

A coroutine is its `Stage`, which says in which `recv_sync_msg` it is suspended, and its local
variables. `Session.recv` runs it from there to the next `recv_sync_msg`, with the message it gets
or without one when the wait times out; the messages it sends on the way are returned.

Sending suspends the coroutine too. What other coroutines of the node do meanwhile is not part of
a session, and neither are the metrics, the log and the exchange of peer lists behind the request
for it. A connection that is lost ends the coroutine at its next `recv_sync_msg`.
-/

namespace Peer

open Infra Util Wire Storage Engine Sync

/-- What a coroutine reads besides the tables when it is resumed: the surroundings of `ingest`, the
settings of the orchestrator, and what the node knows of the peer. -/
structure SyncEnv where
  engine : Env
  /-- empty for all namespaces -/
  syncNamespaces : List Hash32 := []
  /-- the peer's own filter, empty for all namespaces -/
  announcedNamespaces : List Hash32 := []
  /-- 0 when unknown -/
  advertisedBlobCap : UInt64 := 0
  peerIsFull : Bool := false
  /-- there is a rate limit and the peer's bucket is empty -/
  budgetExhausted : Bool := false
  fullResyncInterval : UInt32 := 10
  cursorStaleSeconds : UInt64 := 3600
  pexEnabled : Bool := true

def SyncEnv.syncs (env : SyncEnv) (ns : Hash32) : Bool :=
  env.syncNamespaces.isEmpty || env.syncNamespaces.contains ns

def SyncEnv.peerSyncs (env : SyncEnv) (ns : Hash32) : Bool :=
  env.announcedNamespaces.isEmpty || env.announcedNamespaces.contains ns

/-! ## Phase A: namespaces and cursors -/

/-- The namespaces a node announces. -/
def ourNamespaces (env : SyncEnv) (t : Tables) : List NamespaceInfo :=
  t.listNamespaces.filter fun info => env.syncs info.namespaceId && env.peerSyncs info.namespaceId

inductive FullResyncReason
  | none
  | periodic
  | timeGap
  deriving DecidableEq, Repr

/-- The difference of the times is a `uint64_t`. -/
def checkFullResync (env : SyncEnv) (cursor : SyncCursor) (now : UInt64) : FullResyncReason :=
  if env.fullResyncInterval > 0 ∧ cursor.roundCount % env.fullResyncInterval = 0 then .periodic
  else if env.cursorStaleSeconds > 0 ∧ cursor.lastSyncTimestamp > 0 ∧
      now - cursor.lastSyncTimestamp > env.cursorStaleSeconds then .timeGap
  else .none

/-- One cursor asks for a full resync. -/
def syncIsFullResync (env : SyncEnv) (t : Tables) (peerHash : Hash32)
    (peerNamespaces : List NamespaceInfo) : Bool :=
  peerNamespaces.any fun pns =>
    match t.getSyncCursor peerHash pns.namespaceId with
    | none => false
    | some cursor => checkFullResync env cursor env.engine.now != .none

/-- The decision for one announced namespace: skip it when the cursor is where the peer is, forget
a cursor that is ahead of the peer. -/
def cursorDecision (peerHash : Hash32) (state : Tables × List Hash32) (pns : NamespaceInfo) :
    Tables × List Hash32 :=
  match state.1.getSyncCursor peerHash pns.namespaceId with
  | none => state
  | some cursor =>
    if cursor.seqNum.toNat = pns.latestSeqNum then (state.1, pns.namespaceId :: state.2)
    else if pns.latestSeqNum < cursor.seqNum.toNat then
      (state.1.deleteSyncCursor peerHash pns.namespaceId, state.2)
    else state

/-- The tables and the namespaces to skip. -/
def cursorDecisions (env : SyncEnv) (t : Tables) (peerHash : Hash32)
    (peerNamespaces : List NamespaceInfo) : Tables × List Hash32 :=
  if syncIsFullResync env t peerHash peerNamespaces then (t, [])
  else peerNamespaces.foldl (cursorDecision peerHash) (t, [])

/-- The namespaces of both sides, ascending. -/
def allNamespaces (ours peers : List NamespaceInfo) : List Hash32 :=
  ((ours ++ peers).map NamespaceInfo.namespaceId).dedup.insertionSort (· ≤ ·)

/-! ## Phase B: snapshots -/

def shouldSkipForPeerCap (blobSize : Nat) (advertisedBlobCap : UInt64) : Bool :=
  advertisedBlobCap > 0 && blobSize > advertisedBlobCap.toNat

/-- The sorted hashes of a namespace without the blobs that are too large for the peer. -/
def snapshotHashes (env : SyncEnv) (t : Tables) (ns : Hash32) : List Hash32 :=
  ((collectNamespaceHashes t env.engine.now ns).insertionSort (· ≤ ·)).filter fun hash =>
    match t.getBlob ns hash with
    | none => true
    | some blob => !shouldSkipForPeerCap blob.data.length env.advertisedBlobCap

/-! ## The coroutines -/

inductive Stage
  /-- the initiator has sent `SyncRequest` -/
  | awaitAccept
  /-- waiting for the peer's `NamespaceList` -/
  | awaitNamespaces
  /-- the initiator in the loop of one namespace, with those to come -/
  | initiatorLoop (ns : Hash32) (ourHashes : List Hash32) (cursorHit : Bool) (loop : ReconcileLoop)
      (rest : List Hash32)
  /-- the responder in its outer loop -/
  | responderIdle
  /-- the responder in the loop of one namespace -/
  | responderLoop (ns : Hash32) (ourHashes : List Hash32) (cursorHit : Bool) (loop : ReconcileLoop)
  /-- a batch was requested; the batches to come -/
  | transfer (expected received : Nat) (rest : List (Hash32 × List Hash32))
  /-- serving what the peer still requests -/
  | remaining
  /-- the cursors are set -/
  | finished
  /-- the coroutine returned before that -/
  | aborted
  /-- an exception left the coroutine -/
  | thrown
  /-- an access outside the local list -/
  | undefined
  deriving DecidableEq

structure Session where
  side : Side
  /-- hash of the peer's key -/
  peerHash : Hash32
  tables : Tables
  stage : Stage
  ourNamespaces : List NamespaceInfo := []
  peerNamespaces : List NamespaceInfo := []
  nowTs : UInt64 := 0
  cursorSkipNamespaces : List Hash32 := []
  missingPerNs : Table Hash32 (List Hash32) := ∅
  nsHashCache : Table Hash32 (List Hash32) := ∅
  stats : SyncStats := {}

namespace Session

/-! ### Phase C -/

def MAX_HASHES_PER_REQUEST : Nat := 64

/-- The batches in which the missing hashes of a namespace are requested. -/
def batchesOf (missing : List Hash32) : List (List Hash32) :=
  (List.range ((missing.length + (MAX_HASHES_PER_REQUEST - 1)) / MAX_HASHES_PER_REQUEST)).map
    fun i => (missing.drop (i * MAX_HASHES_PER_REQUEST)).take MAX_HASHES_PER_REQUEST

/-- All batches, in the order of the namespaces. -/
def requests (missingPerNs : Table Hash32 (List Hash32)) : List (Hash32 × List Hash32) :=
  missingPerNs.toList.flatMap fun (ns, missing) => (batchesOf missing).map fun batch => (ns, batch)

/-- Request the next batch, or go on to serve what the peer still requests. -/
def nextBatch (s : Session) : List (Hash32 × List Hash32) → Session × List SyncMessage
  | [] => ({ s with stage := .remaining }, [])
  | (ns, batch) :: rest =>
    ({ s with stage := .transfer batch.length 0 rest },
      [⟨.blobRequest, encodeBlobRequest ns batch⟩])

/-- The answers to a `BlobRequest`: one transfer for each blob that is stored and not expired. -/
def serve (P : Primitives) (env : SyncEnv) (t : Tables) (payload : Bytes) : List SyncMessage :=
  let (ns, hashes) := decodeBlobRequest payload
  hashes.filterMap fun hash =>
    match t.getBlob ns hash with
    | none => none
    | some blob =>
      if isBlobExpired blob env.engine.now then none
      else some ⟨.blobTransfer, encodeSingleBlobTransfer P ns blob⟩

/-- A `BlobRequest` of the peer, which is not answered when the peer is full. -/
def answer (P : Primitives) (env : SyncEnv) (s : Session) (payload : Bytes) :
    Session × List SyncMessage :=
  if env.peerIsFull then (s, [])
  else
    let out := serve P env s.tables payload
    ({ s with stats := { s.stats with blobsSent := s.stats.blobsSent + out.length } }, out)

/-! ### The end -/

/-- A cursor at what the peer has announced, for every namespace it has announced. -/
def updateCursors (s : Session) : Tables :=
  s.peerNamespaces.foldl (fun t pns =>
    t.setSyncCursor s.peerHash pns.namespaceId
      { seqNum := UInt64.ofNat pns.latestSeqNum
        roundCount := ((t.getSyncCursor s.peerHash pns.namespaceId).elim 0 (·.roundCount)) + 1
        lastSyncTimestamp := s.nowTs }) s.tables

/-- The cursors, then the notices to the peer. -/
def finish (env : SyncEnv) (s : Session) : Session × List SyncMessage :=
  ({ s with tables := s.updateCursors, stage := .finished },
    (if s.stats.storageFullCount > 0 then [⟨.storageFull, []⟩] else []) ++
    (if s.stats.quotaExceededCount > 0 then [⟨.quotaExceeded, []⟩] else []) ++
    (if s.side = .initiator ∧ env.pexEnabled then [⟨.peerListRequest, []⟩] else []))

/-! ### Phase B -/

/-- The end of phase B on the initiator. -/
def completePhaseB (s : Session) : Session × List SyncMessage :=
  let (s', out) := s.nextBatch (requests s.missingPerNs)
  (s', ⟨.syncComplete, []⟩ :: out)

/-- The initiator opens the next namespace that is not filtered out. -/
def nextNamespace (env : SyncEnv) (s : Session) : List Hash32 → Session × List SyncMessage
  | [] => s.completePhaseB
  | ns :: rest =>
    if env.budgetExhausted then s.completePhaseB
    else if !env.syncs ns || !env.peerSyncs ns then nextNamespace env s rest
    else
      let ourHashes := snapshotHashes env s.tables ns
      let (loop, out) := initiatorStart ns ourHashes
      let cursorHit := s.cursorSkipNamespaces.contains ns
      ({ s with stage := .initiatorLoop ns ourHashes cursorHit loop rest }, out)

/-- The peer's items we do not have are requested in phase C, unless the cursor says that there
are none. -/
def closeNamespace (s : Session) (ns : Hash32) (ourHashes : List Hash32) (cursorHit : Bool)
    (peerItems : List Hash32) : Session :=
  let missing := missingHashes ourHashes peerItems
  if cursorHit || missing.isEmpty then s
  else { s with missingPerNs := s.missingPerNs.insert ns missing }

/-- The top of the responder's outer loop. -/
def respond (env : SyncEnv) (s : Session) : Session :=
  { s with stage := if env.budgetExhausted then .aborted else .responderIdle }

/-- The responder's snapshot of a namespace, taken when the cached one is empty. -/
def cachedHashes (env : SyncEnv) (s : Session) (ns : Hash32) : List Hash32 :=
  let cached := (s.nsHashCache[ns]?).getD []
  if cached.isEmpty then snapshotHashes env s.tables ns else cached

/-- The responder after a round of the loop of a namespace. -/
def responderNext (env : SyncEnv) (s : Session) (ns : Hash32) (ourHashes : List Hash32)
    (cursorHit : Bool) (loop : ReconcileLoop) : Session :=
  match loop.phase with
  | .waiting => { s with stage := .responderLoop ns ourHashes cursorHit loop }
  | .left | .exhausted => (s.closeNamespace ns ourHashes cursorHit loop.peerItems).respond env
  | .aborted => { s with stage := .aborted }
  | .undefined => { s with stage := .undefined }

/-- The responder in its outer loop. -/
def respondTo (env : SyncEnv) (s : Session) (msg : SyncMessage) : Session × List SyncMessage :=
  match msg.type with
  | .syncComplete => s.nextBatch (requests s.missingPerNs)
  | .reconcileInit =>
    match decodeReconcileInit msg.payload with
    | none => (s.respond env, [])
    | some init =>
      let ns := init.namespaceId
      if !env.peerSyncs ns then (s.respond env, [])
      else
        let ourHashes := s.cachedHashes env ns
        let (loop, out) := responderStart ourHashes init
        let cursorHit := s.cursorSkipNamespaces.contains ns
        ({ s with nsHashCache := s.nsHashCache.insert ns ourHashes }.responderNext env ns ourHashes
          cursorHit loop, out)
  | _ => (s.respond env, [])

/-! ### One turn -/

/-- The decisions on the cursors of the namespaces that the peer has announced. -/
def listed (env : SyncEnv) (s : Session) (peerNamespaces : List NamespaceInfo) : Session :=
  let (tables, cursorSkipNamespaces) := cursorDecisions env s.tables s.peerHash peerNamespaces
  { s with tables, peerNamespaces, cursorSkipNamespaces, nowTs := env.engine.now }

/-- The coroutine has the peer's namespace list. -/
def reconcile (env : SyncEnv) (s : Session) (payload : Bytes) : Session × List SyncMessage :=
  let s := s.listed env (decodeNamespaceList payload)
  match s.side with
  | .initiator => s.nextNamespace env (allNamespaces s.ourNamespaces s.peerNamespaces)
  | .responder => (s.respond env, [])

/-- The initiator has the answer to its `SyncRequest`. -/
def accepted (env : SyncEnv) (s : Session) : Session × List SyncMessage :=
  let ourNamespaces := Peer.ourNamespaces env s.tables
  ({ s with stage := .awaitNamespaces, ourNamespaces },
    [⟨.namespaceList, encodeNamespaceList ourNamespaces⟩])

/-- The initiator after a round of the loop of a namespace. -/
def initiatorNext (env : SyncEnv) (s : Session) (ns : Hash32) (ourHashes : List Hash32)
    (cursorHit : Bool) (loop : ReconcileLoop) (rest : List Hash32) : Session × List SyncMessage :=
  match loop.phase with
  | .waiting => ({ s with stage := .initiatorLoop ns ourHashes cursorHit loop rest }, [])
  | .left | .exhausted =>
    (s.closeNamespace ns ourHashes cursorHit loop.peerItems).nextNamespace env rest
  | .aborted => ({ s with stage := .aborted }, [])
  | .undefined => ({ s with stage := .undefined }, [])

/-- A message while a batch is expected. -/
def transferring (P : Primitives) (env : SyncEnv) (s : Session) (expected received : Nat)
    (rest : List (Hash32 × List Hash32)) (msg : SyncMessage) : Session × List SyncMessage :=
  match msg.type with
  | .blobTransfer =>
    match decodeBlobTransfer P msg.payload with
    | none => ({ s with stage := .thrown }, [])
    | some nsBlobs =>
      let (tables, stats) := ingestBlobs P env.engine s.tables s.stats nsBlobs
      let s := { s with tables, stats }
      if received + 1 < expected then
        ({ s with stage := .transfer expected (received + 1) rest }, [])
      else s.nextBatch rest
  | .blobRequest => s.answer P env msg.payload
  | _ => (s, [])

/-- From one `recv_sync_msg` to the next; without a message when the wait has timed out. -/
def recv (P : Primitives) (env : SyncEnv) (s : Session) (msg : Option SyncMessage) :
    Session × List SyncMessage :=
  match s.stage, msg with
  | .awaitAccept, some msg =>
    if msg.type = .syncAccept then s.accepted env else ({ s with stage := .aborted }, [])
  | .awaitNamespaces, some msg =>
    if msg.type = .namespaceList then s.reconcile env msg.payload
    else ({ s with stage := .aborted }, [])
  | .initiatorLoop ns ourHashes cursorHit loop rest, some msg =>
    let (loop, out) := initiatorRound ns ourHashes loop msg
    let (s, more) := s.initiatorNext env ns ourHashes cursorHit loop rest
    (s, out ++ more)
  | .responderIdle, some msg => s.respondTo env msg
  | .responderLoop ns ourHashes cursorHit loop, some msg =>
    let (loop, out) := responderRound ns ourHashes loop msg
    (s.responderNext env ns ourHashes cursorHit loop, out)
  | .transfer expected received rest, some msg => s.transferring P env expected received rest msg
  | .transfer _ _ rest, none => s.nextBatch rest
  | .remaining, some msg =>
    if msg.type = .blobRequest then s.answer P env msg.payload else s.finish env
  | .remaining, none => s.finish env
  | .awaitAccept, none | .awaitNamespaces, none | .initiatorLoop .., none | .responderIdle, none
  | .responderLoop .., none => ({ s with stage := .aborted }, [])
  | .finished, _ | .aborted, _ | .thrown, _ | .undefined, _ => (s, [])

end Session

/-- `run_sync_with_peer` up to its first `recv_sync_msg`. -/
def runSyncWithPeer (t : Tables) (peerHash : Hash32) : Session × List SyncMessage :=
  ({ side := .initiator, peerHash, tables := t, stage := .awaitAccept }, [⟨.syncRequest, []⟩])

/-- `handle_sync_as_responder` up to its first `recv_sync_msg`. -/
def handleSyncAsResponder (env : SyncEnv) (t : Tables) (peerHash : Hash32) :
    Session × List SyncMessage :=
  let namespaces := ourNamespaces env t
  ({ side := .responder, peerHash, tables := t, stage := .awaitNamespaces,
     ourNamespaces := namespaces },
    [⟨.syncAccept, []⟩, ⟨.namespaceList, encodeNamespaceList namespaces⟩])

/-! ## Two coroutines over two FIFO channels -/

/-- The types the dispatcher puts into the inbox of a session. -/
def routedToSession : TransportMsgType → Bool
  | .syncAccept | .syncRejected | .namespaceList | .reconcileInit | .reconcileRanges
  | .reconcileItems | .blobRequest | .blobTransfer | .syncComplete | .peerListRequest
  | .peerListResponse => true
  | .syncRequest | .storageFull | .quotaExceeded => false

def Side.other : Side → Side
  | .initiator => .responder
  | .responder => .initiator

/-- Both ends of a session and the messages on their way to each of them. -/
structure Link where
  session : Side → Session
  inbox : Side → List SyncMessage

inductive LinkEvent
  /-- the oldest message on its way to a side is received there -/
  | deliver (side : Side) (env : SyncEnv)
  /-- the wait of a side times out -/
  | timeout (side : Side) (env : SyncEnv)
  /-- a side loses the connection -/
  | lost (side : Side)

/-- A side has moved on and sent messages. -/
def Link.update (link : Link) (side : Side) (session : Session) (inbox out : List SyncMessage) :
    Link where
  session := Function.update link.session side session
  inbox := Function.update (Function.update link.inbox side inbox) side.other
    (link.inbox side.other ++ out.filter fun msg => routedToSession msg.type)

def Link.step (P : Primitives) (link : Link) : LinkEvent → Link
  | .deliver side env =>
    match link.inbox side with
    | [] => link
    | msg :: rest =>
      let (s, out) := (link.session side).recv P env (some msg)
      link.update side s rest out
  | .timeout side env =>
    let (s, out) := (link.session side).recv P env none
    link.update side s (link.inbox side) out
  | .lost side =>
    match (link.session side).stage with
    | .finished | .thrown | .undefined => link
    | _ => link.update side { link.session side with stage := .aborted } (link.inbox side) []

/-- The dispatcher of the responder has answered the `SyncRequest` by starting the coroutine. -/
def Link.start (env : SyncEnv) (initiator responder : Tables)
    (initiatorHash responderHash : Hash32) : Link where
  session
    | .initiator => (runSyncWithPeer initiator responderHash).1
    | .responder => (handleSyncAsResponder env responder initiatorHash).1
  inbox
    | .initiator => (handleSyncAsResponder env responder initiatorHash).2
    | .responder => []

end Peer
