import Chromatin.Storage.SequenceScan
import Mathlib.Data.List.Sort

/-!
# Query requests (`peer/message_dispatcher.cpp`)

Requests of clients that only read the store: the list of the namespaces, many blobs at once, and
the blobs of a time range. A handler answers with an error code or with the payload of the response.

Strikes against the client are not modelled. The checks for an overflow of the size of a response
cannot fail: a response has at most 1000 entries of fixed size, and the cumulative size of a batch
stops below its cap plus one blob.
-/

namespace Peer

open Infra Util Wire Storage

def ERROR_VALIDATION_FAILED : UInt8 := 0x04

/-! ## `NamespaceListRequest` -/

structure NamespaceListQuery where
  afterNs : Hash32
  limit : UInt32

/-- `[after_ns:32][limit:4BE]`. -/
def parseNamespaceListRequest (payload : Bytes) : Option NamespaceListQuery := do
  let afterNs ← readFixed 32 payload 0
  let limit ← readU32Be payload 32
  some { afterNs, limit }

/-- A limit above 1000 is not cut to 1000, but replaced by the default. -/
def namespaceLimit (limit : UInt32) : Nat :=
  if limit.toNat = 0 ∨ limit.toNat > 1000 then 100 else limit.toNat

structure NamespaceEntry where
  namespaceId : Hash32
  blobCount : UInt64

/-- The namespaces behind the cursor (`upper_bound`); the zero cursor stands for the beginning. -/
def namespacesBehind (afterNs : Hash32) (allNs : List NamespaceInfo) : List NamespaceInfo :=
  if afterNs = zeroHash then allNs else allNs.dropWhile fun info => info.namespaceId ≤ afterNs

/-- `ns:32 | blob_count:8BE`. -/
def encodeNamespaceEntry (entry : NamespaceEntry) : Bytes :=
  entry.namespaceId.toList ++ writeU64Be entry.blobCount

/-- `[count:4BE][has_more:1][entries]`. -/
def encodeNamespaceListResponse (entries : List NamespaceEntry) (hasMore : Bool) : Bytes :=
  writeU32Be (UInt32.ofNat entries.length) ++
    ((if hasMore then 1 else 0) :: entries.flatMap encodeNamespaceEntry)

def namespaceRow (s : SeqStore) (info : NamespaceInfo) : NamespaceEntry :=
  { namespaceId := info.namespaceId, blobCount := (s.quota[info.namespaceId]?.getD {}).blobCount }

def handleNamespaceListRequest (s : SeqStore) (payload : Bytes) : Except UInt8 Bytes :=
  match parseNamespaceListRequest payload with
  | none => .error ERROR_MALFORMED_PAYLOAD
  | some q =>
    let limit := namespaceLimit q.limit
    let allNs := s.listNamespaces.insertionSort fun a b => a.namespaceId ≤ b.namespaceId
    let rest := namespacesBehind q.afterNs allNs
    .ok (encodeNamespaceListResponse ((rest.take limit).map (namespaceRow s))
      !(rest.drop limit).isEmpty)

/-! ## `BatchReadRequest` -/

structure BatchReadQuery where
  ns : Hash32
  capBytes : UInt32
  hashes : List Hash32

def MAX_CAP : Nat := 4194304

def MAX_BATCH_READ : Nat := 256

def effectiveCap (capBytes : UInt32) : Nat :=
  if capBytes.toNat = 0 ∨ capBytes.toNat > MAX_CAP then MAX_CAP else capBytes.toNat

/-- `[ns:32][cap_bytes:4BE][count:4BE][hashes]`; bytes behind the hashes are ignored. -/
def parseBatchReadRequest (payload : Bytes) : Except UInt8 BatchReadQuery :=
  match readFixed 32 payload 0, readU32Be payload 32, readU32Be payload 36 with
  | some ns, some capBytes, some count =>
    if count.toNat = 0 ∨ count.toNat > MAX_BATCH_READ then .error ERROR_VALIDATION_FAILED
    else
      match decodeHashes payload count.toNat 40 with
      | none => .error ERROR_MALFORMED_PAYLOAD
      | some hashes => .ok { ns, capBytes, hashes }
  | _, _, _ => .error ERROR_MALFORMED_PAYLOAD

/-- The status of an entry is 1 if it has the bytes of a blob, else 0. -/
structure BatchReadEntry where
  hash : Hash32
  encoded : Option Bytes

/-- A blob that has expired counts as missing. -/
def batchReadEntry (P : Primitives) (t : Tables) (now : UInt64) (ns hash : Hash32) :
    BatchReadEntry :=
  match t.getBlob ns hash with
  | none => ⟨hash, none⟩
  | some blob => if isBlobExpired blob now then ⟨hash, none⟩ else ⟨hash, some (encodeBlob P blob)⟩

/-- The loop over the hashes, with the cumulative size so far: the entries, and whether hashes were
left over when the size reached the cap. -/
def batchReadFrom (read : Hash32 → BatchReadEntry) (cap : Nat) :
    List Hash32 → Nat → List BatchReadEntry × Bool
  | [], _ => ([], false)
  | hash :: rest, cumulativeSize =>
    let entry := read hash
    match entry.encoded with
    | none =>
      let (entries, truncated) := batchReadFrom read cap rest cumulativeSize
      (entry :: entries, truncated)
    | some encoded =>
      if cumulativeSize + encoded.length ≥ cap then ([entry], !rest.isEmpty)
      else
        let (entries, truncated) := batchReadFrom read cap rest (cumulativeSize + encoded.length)
        (entry :: entries, truncated)

/-- `status:1 | hash:32`, and for a blob `size:8BE | data`. -/
def encodeBatchReadEntry (entry : BatchReadEntry) : Bytes :=
  match entry.encoded with
  | none => 0 :: entry.hash.toList
  | some encoded =>
    1 :: (entry.hash.toList ++ (writeU64Be (UInt64.ofNat encoded.length) ++ encoded))

/-- `[truncated:1][count:4BE][entries]`. -/
def encodeBatchReadResponse (entries : List BatchReadEntry) (truncated : Bool) : Bytes :=
  (if truncated then 1 else 0) ::
    (writeU32Be (UInt32.ofNat entries.length) ++ entries.flatMap encodeBatchReadEntry)

def handleBatchReadRequest (P : Primitives) (t : Tables) (now : UInt64) (payload : Bytes) :
    Except UInt8 Bytes := do
  let q ← parseBatchReadRequest payload
  let (entries, truncated) :=
    batchReadFrom (batchReadEntry P t now q.ns) (effectiveCap q.capBytes) q.hashes 0
  .ok (encodeBatchReadResponse entries truncated)

/-! ## `TimeRangeRequest` -/

structure TimeRangeQuery where
  ns : Hash32
  startTs : UInt64
  endTs : UInt64
  limit : UInt32

def SCAN_LIMIT : Nat := 10000

/-- `[ns:32][start:8BE][end:8BE][limit:4BE]`. -/
def parseTimeRangeRequest (payload : Bytes) : Except UInt8 TimeRangeQuery :=
  match readFixed 32 payload 0, readU64Be payload 32, readU64Be payload 40,
    readU32Be payload 48 with
  | some ns, some startTs, some endTs, some limit =>
    if startTs > endTs then .error ERROR_VALIDATION_FAILED
    else .ok { ns, startTs, endTs, limit }
  | _, _, _, _ => .error ERROR_MALFORMED_PAYLOAD

structure TimeRangeEntry where
  blobHash : Hash32
  seqNum : UInt64
  timestamp : UInt64

/-- The result for a sequence entry, unless it is skipped. -/
def timeRangeRow (t : Tables) (now : UInt64) (q : TimeRangeQuery) (ref : BlobRef) :
    Option TimeRangeEntry :=
  if ref.blobType.toList = TOMBSTONE_MAGIC ∨ ref.blobType.toList = DELEGATION_MAGIC then none
  else
    match t.getBlob q.ns ref.blobHash with
    | none => none
    | some blob =>
      if isBlobExpired blob now then none
      else if q.startTs ≤ blob.timestamp ∧ blob.timestamp ≤ q.endTs then
        some { blobHash := ref.blobHash, seqNum := UInt64.ofNat ref.seqNum
               timestamp := blob.timestamp }
      else none

/-- The loop over the sequence entries, with the results so far; it is left when the limit is
reached. -/
def timeRangeFrom (row : BlobRef → Option TimeRangeEntry) (limit : Nat) :
    List BlobRef → List TimeRangeEntry → List TimeRangeEntry × Bool
  | [], results => (results, false)
  | ref :: rest, results =>
    match row ref with
    | none => timeRangeFrom row limit rest results
    | some result =>
      if (results ++ [result]).length ≥ limit then (results ++ [result], true)
      else timeRangeFrom row limit rest (results ++ [result])

/-- `hash:32 | seq:8BE | timestamp:8BE`. -/
def encodeTimeRangeEntry (entry : TimeRangeEntry) : Bytes :=
  entry.blobHash.toList ++ (writeU64Be entry.seqNum ++ writeU64Be entry.timestamp)

/-- `[truncated:1][count:4BE][entries]`. -/
def encodeTimeRangeResponse (results : List TimeRangeEntry) (truncated : Bool) : Bytes :=
  (if truncated then 1 else 0) ::
    (writeU32Be (UInt32.ofNat results.length) ++ results.flatMap encodeTimeRangeEntry)

/-- The results of a time range, and whether there may be more of them. -/
def timeRange (t : Tables) (now : UInt64) (q : TimeRangeQuery) : List TimeRangeEntry × Bool :=
  let limit := effectiveLimit q.limit
  let refs := getBlobRefsSince t q.ns 0 SCAN_LIMIT
  let (results, full) := timeRangeFrom (timeRangeRow t now q) limit refs []
  (results, full || (decide (refs.length ≥ SCAN_LIMIT) && decide (results.length < limit)))

def handleTimeRangeRequest (t : Tables) (now : UInt64) (payload : Bytes) : Except UInt8 Bytes := do
  let q ← parseTimeRangeRequest payload
  let (results, truncated) := timeRange t now q
  .ok (encodeTimeRangeResponse results truncated)

end Peer
