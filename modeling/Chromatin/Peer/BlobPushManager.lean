import Chromatin.Engine.Ingest
import Chromatin.Net.Handshake
import Chromatin.Peer.PeerManager

/-!
# Pushed blobs (`peer/blob_push_manager.cpp`)

A node that stores a blob notifies its peers. A peer that does not have the blob fetches it from the
first one that has notified it, and remembers in `pending_fetches_` that it does: later notices of
the same blob are ignored as long as the entry is there.

The answer to a fetch is one byte if the blob is not found. If it is found, the namespace and the
encoded blob follow; the coroutine that handles it calls the engine, goes back to the I/O thread and
erases the entry of the blob it got. Coroutines are suspended between their events, and everything
else may run in between: notices, other answers, the calls of the engine.

Connections are numbers. What a coroutine sends is added to `sent` when it is handed to
`send_message`. The timer for the next expiry, metrics, logs and the hook of the tests are left out.
-/

namespace Peer

open Infra Util Wire Storage Engine

/-- What is read of an entry of `peers_`. -/
structure PushPeer where
  conn : ConnId
  role : Net.Role := .peer
  syncing : Bool := false
  /-- empty for all namespaces -/
  announcedNamespaces : List Hash32 := []
  subscribedNamespaces : List Hash32 := []
  /-- 0 for unknown -/
  advertisedBlobCap : UInt64 := 0

inductive PushMessage
  | blobNotify (payload : Bytes)
  | notification (payload : Bytes)
  | blobFetch (payload : Bytes)
  | blobFetchResponse (payload : Bytes)
deriving DecidableEq

/-! ## Payloads -/

/-- `[namespace:32][hash:32][seq_num:8BE][size:4BE][tombstone:1]`. -/
def encodeBlobRef (ns hash : Hash32) (seqNum : UInt64) (blobSize : UInt32) (tombstone : Bool) :
    Bytes :=
  ns.toList ++ hash.toList ++ writeU64Be seqNum ++ writeU32Be blobSize ++
    [if tombstone then 1 else 0]

def encodeNamespaceHash (ns hash : Hash32) : Bytes := ns.toList ++ hash.toList

/-- `none` for the exception. -/
def extractNamespaceHash (payload : Bytes) : Option (Hash32 × Hash32) := do
  let ns ← readFixed 32 payload 0
  let hash ← readFixed 32 payload 32
  some (ns, hash)

/-- The answer is `[status:1][target_ns:32][blob]` if the blob is found. -/
def foundResponse (P : Primitives) (ns : Hash32) (blob : BlobData) : Bytes :=
  0x00 :: (ns.toList ++ encodeBlob P blob)

def notFoundResponse : Bytes := [0x01]

/-! ## The coroutines of the answers -/

inductive ResponsePoint
  /-- handed to `co_spawn`, not started yet -/
  | spawned
  /-- in `engine_.ingest`, with the number of the call -/
  | ingesting (ns : Hash32) (blob : BlobData) (call : Nat)
  /-- on its way back to the I/O thread -/
  | posting (ns : Hash32) (blob : BlobData) (result : IngestResult)
  | finished
deriving DecidableEq

/-- An answer and how far it is handled. -/
structure ResponseHandler where
  conn : ConnId
  payload : Bytes
  /-- the key of the fetch that the peer answers; the node is not told -/
  answers : FixedBytes 64
  point : ResponsePoint
deriving DecidableEq

structure BlobPushManager where
  node : Node := {}
  peers : List PushPeer := []
  pendingFetches : Table (FixedBytes 64) ConnId := ∅
  responses : List ResponseHandler := []
  sent : List (ConnId × PushMessage) := []

inductive PushEvent
  | blobNotify (now : UInt64) (conn : ConnId) (payload : Bytes)
  /-- the coroutine of `handle_blob_fetch` runs -/
  | blobFetch (now : UInt64) (conn : ConnId) (payload : Bytes)
  | blobFetchResponse (conn : ConnId) (payload : Bytes) (answers : FixedBytes 64)
  /-- the coroutine of an answer goes on -/
  | resume (i : Nat) (now : UInt64)
  /-- an exception is thrown in the coroutine of an answer, or in what it awaits -/
  | thrown (i : Nat)
  /-- other coroutines ingest a blob -/
  | blobIngested (now : UInt64) (ns hash : Hash32) (seqNum : UInt64) (blobSize : UInt32)
      (tombstone : Bool)
    (expiryTime : UInt64) (source : ConnId)
  /-- the disconnect callback -/
  | cleanPendingFetches (conn : ConnId)
  /-- the table of peers is changed by others -/
  | peers (peers : List PushPeer)
  /-- the engine goes on with its calls, or gets another one -/
  | engine (e : Engine.Event)

namespace BlobPushManager

def findPeer (m : BlobPushManager) (conn : ConnId) : Option PushPeer :=
  m.peers.find? fun p => p.conn = conn

/-! ## Notices -/

/-- A peer is notified unless it is the source, or has announced other namespaces, or could not hold
the blob. -/
def notifies (ns : Hash32) (blobSize : UInt32) (source : ConnId) (peer : PushPeer) : Bool :=
  peer.conn ≠ source && peer.role = .peer &&
    (peer.announcedNamespaces.isEmpty || ns ∈ peer.announcedNamespaces) &&
    !shouldSkipForPeerCap blobSize.toNat peer.advertisedBlobCap

def onBlobIngested (m : BlobPushManager) (now : UInt64) (ns hash : Hash32) (seqNum : UInt64)
    (blobSize : UInt32) (tombstone : Bool) (expiryTime : UInt64) (source : ConnId) :
    BlobPushManager :=
  if 0 < expiryTime ∧ expiryTime ≤ now then m
  else
    let payload := encodeBlobRef ns hash seqNum blobSize tombstone
    let notified := m.peers.filter (notifies ns blobSize source)
    let subscribed := m.peers.filter fun peer =>
      peer.conn ≠ source && ns ∈ peer.subscribedNamespaces
    { m with
      sent := m.sent ++ notified.map (fun peer => (peer.conn, .blobNotify payload)) ++
        subscribed.map (fun peer => (peer.conn, .notification payload)) }

/-- The store has the blob, and it has not expired. -/
def hasFresh (m : BlobPushManager) (now : UInt64) (ns hash : Hash32) : Bool :=
  (m.node.tables.getBlob ns hash).any fun blob => !isBlobExpired blob now

def onBlobNotify (m : BlobPushManager) (now : UInt64) (conn : ConnId) (payload : Bytes) :
    BlobPushManager :=
  if payload.length ≠ 77 then m
  else
    match m.findPeer conn, extractNamespaceHash payload with
    | some peer, some (ns, hash) =>
      if peer.syncing then m
      else if m.hasFresh now ns hash then m
      else if m.pendingFetches.contains (makeBlobKey ns hash) then m
      else
        { m with
          pendingFetches := m.pendingFetches.insert (makeBlobKey ns hash) conn
          sent := m.sent ++ [(conn, .blobFetch (encodeNamespaceHash ns hash))] }
    | _, _ => m

/-! ## Fetches -/

section

variable (P : Primitives)

/-- The answer to a fetch. -/
def fetchResponse (m : BlobPushManager) (now : UInt64) (conn : ConnId) (ns hash : Hash32) : Bytes :=
  match m.node.tables.getBlob ns hash with
  | none => notFoundResponse
  | some blob =>
    if isBlobExpired blob now then notFoundResponse
    else if (m.findPeer conn).any fun peer =>
      shouldSkipForPeerCap blob.data.length peer.advertisedBlobCap then
      notFoundResponse
    else foundResponse P ns blob

def handleBlobFetch (m : BlobPushManager) (now : UInt64) (conn : ConnId) (payload : Bytes) :
    BlobPushManager :=
  if payload.length ≠ 64 then m
  else
    match extractNamespaceHash payload with
    | none => m
    | some (ns, hash) =>
      { m with sent := m.sent ++ [(conn, .blobFetchResponse (m.fetchResponse P now conn ns hash))] }

/-! ## Answers -/

/-- The answer says that the blob is found, and is long enough for it. -/
def isFound (payload : Bytes) : Bool := payload.head? = some 0x00 && 34 ≤ payload.length

/-- A coroutine is only spawned for a blob. -/
def handleBlobFetchResponse (m : BlobPushManager) (conn : ConnId) (payload : Bytes)
    (answers : FixedBytes 64) :
    BlobPushManager :=
  { m with
    responses := m.responses ++
      [{ conn, payload, answers, point := if isFound payload then .spawned else .finished }] }

def setPoint (m : BlobPushManager) (i : Nat) (point : ResponsePoint) : BlobPushManager :=
  { m with responses := m.responses.modify i fun h => { h with point } }

/-- Namespace and blob of an answer; `none` if decoding throws. -/
def openResponse (payload : Bytes) : Option (Hash32 × BlobData) := do
  let ns ← readFixed 32 payload 1
  let blob ← decodeBlob P (payload.drop 33)
  some (ns, blob)

/-- The answer is handled: its entry is erased, and a stored blob is announced. -/
def finishResponse (m : BlobPushManager) (now : UInt64) (conn : ConnId) (ns : Hash32)
    (blob : BlobData)
    (result : IngestResult) : BlobPushManager :=
  let m := { m with pendingFetches := m.pendingFetches.erase (makeBlobKey ns (contentHash P blob)) }
  match result with
  | .success ack =>
    if ack.status = .stored then
      m.onBlobIngested now ns ack.blobHash (UInt64.ofNat ack.seqNum) (UInt32.ofNat blob.data.length)
        (isTombstone blob.data) (saturatingExpiry blob.timestamp blob.ttl) conn
    else m
  | .rejection .. => m

/-- The coroutine of an answer up to its next suspension. -/
def resumeResponse (m : BlobPushManager) (i : Nat) (now : UInt64) (h : ResponseHandler) :
    BlobPushManager :=
  match h.point with
  | .spawned =>
    match openResponse P h.payload with
    | none => m.setPoint i .finished
    | some (ns, blob) =>
      { m with node := m.node.step P (.call .ingest ns blob) }.setPoint i
        (.ingesting ns blob m.node.tasks.length)
  | .ingesting ns blob call =>
    match m.node.tasks[call]?.map Task.pc with
    | some (.done result) => m.setPoint i (.posting ns blob result)
    | _ => m
  | .posting ns blob result => (m.finishResponse P now h.conn ns blob result).setPoint i .finished
  | .finished => m

/-! ## Steps -/

def step (m : BlobPushManager) : PushEvent → BlobPushManager
  | .blobNotify now conn payload => m.onBlobNotify now conn payload
  | .blobFetch now conn payload => m.handleBlobFetch P now conn payload
  | .blobFetchResponse conn payload answers => m.handleBlobFetchResponse conn payload answers
  | .resume i now =>
    match m.responses[i]? with
    | none => m
    | some h => m.resumeResponse P i now h
  | .thrown i => m.setPoint i .finished
  | .blobIngested now ns hash seqNum blobSize tombstone expiryTime source =>
    m.onBlobIngested now ns hash seqNum blobSize tombstone expiryTime source
  | .cleanPendingFetches conn =>
    { m with pendingFetches := m.pendingFetches.filter fun _ c => c ≠ conn }
  | .peers peers => { m with peers }
  | .engine e => { m with node := m.node.step P e }

end

end BlobPushManager

end Peer
