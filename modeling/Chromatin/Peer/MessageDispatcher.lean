import Chromatin.Storage.Tables

/-!
# The list request (`peer/message_dispatcher.cpp`, `Storage::get_blob_refs_since`)

A client asks for the entries of a namespace behind a sequence number. The node takes a page of
sequence entries and then leaves out those that the flags hide, whose type does not match, whose
blob is gone, or whose blob has expired.

Sequence numbers are eight bytes on the wire and in the keys. The size of a response cannot
overflow, and strikes against the client are not modelled.
-/

namespace Peer

open Infra Util Wire Storage

structure BlobRef where
  blobHash : Hash32
  seqNum : Nat
  blobType : FixedBytes 4

/-- The sequence entries of a namespace that are not sentinels. -/
def blobRefs (t : Tables) (ns : Hash32) : List BlobRef :=
  ((t.seqEntries ns).filter fun entry => entry.2.hash != zeroHash).map fun entry =>
    { blobHash := entry.2.hash, seqNum := entry.1, blobType := entry.2.blobType }

/-- `since_seq + 1` is a `uint64_t`; no limit if `maxCount` is 0. -/
def getBlobRefsSince (t : Tables) (ns : Hash32) (sinceSeq : UInt64) (maxCount : Nat) :
    List BlobRef :=
  let refs := (blobRefs t ns).filter fun ref => (sinceSeq + 1).toNat ≤ ref.seqNum
  if maxCount > 0 then refs.take maxCount else refs

/-! ## Request and response -/

structure ListQuery where
  ns : Hash32
  sinceSeq : UInt64
  limit : UInt32
  /-- bit 0 of the flags -/
  includeAll : Bool
  /-- bit 1 of the flags, and four more bytes -/
  typeFilter : Option (FixedBytes 4)

/-- `[ns:32][since_seq:8BE][limit:4BE]`, then flags and type filter if the payload is long
enough. -/
def parseListRequest (payload : Bytes) : Option ListQuery := do
  let ns ← readFixed 32 payload 0
  let sinceSeq ← readU64Be payload 32
  let limit ← readU32Be payload 40
  let flags : UInt8 := payload[44]?.getD 0
  some
    { ns, sinceSeq, limit
      includeAll := flags &&& 0x01 != 0
      typeFilter := if flags &&& 0x02 != 0 then readFixed 4 payload 45 else none }

/-- One entry of a response. -/
structure ListEntry where
  blobHash : Hash32
  seqNum : UInt64
  blobType : FixedBytes 4
  dataSize : UInt64
  timestamp : UInt64

def LIST_ENTRY_SIZE : Nat := 60

/-- `hash:32 | seq:8BE | type:4 | size:8BE | timestamp:8BE`. -/
def encodeListEntry (entry : ListEntry) : Bytes :=
  entry.blobHash.toList ++ (writeU64Be entry.seqNum ++ (entry.blobType.toList ++
    (writeU64Be entry.dataSize ++ writeU64Be entry.timestamp)))

/-- `[count:4BE][entries][has_more:1]`. -/
def encodeListResponse (entries : List ListEntry) (hasMore : Bool) : Bytes :=
  writeU32Be (UInt32.ofNat entries.length) ++
    (entries.flatMap encodeListEntry ++ [if hasMore then 1 else 0])

/-! ## The handler -/

def ERROR_MALFORMED_PAYLOAD : UInt8 := 0x01

def MAX_LIST_LIMIT : Nat := 100

def effectiveLimit (limit : UInt32) : Nat :=
  if limit.toNat = 0 ∨ limit.toNat > MAX_LIST_LIMIT then MAX_LIST_LIMIT else limit.toNat

/-- The filters that look at the type alone. -/
def typeAdmitted (includeAll : Bool) (typeFilter : Option (FixedBytes 4))
    (blobType : FixedBytes 4) :
    Bool :=
  (includeAll ||
    (blobType.toList != TOMBSTONE_MAGIC && blobType.toList != DELEGATION_MAGIC)) &&
  (match typeFilter with
    | none => true
    | some filter => blobType == filter)

/-- The entry of a response for a sequence entry, unless it is left out. -/
def listRow (t : Tables) (now : UInt64) (q : ListQuery) (ref : BlobRef) : Option ListEntry :=
  if typeAdmitted q.includeAll q.typeFilter ref.blobType then
    match t.getBlob q.ns ref.blobHash with
    | none => none
    | some blob =>
      if !q.includeAll && isBlobExpired blob now then none
      else
        some
          { blobHash := ref.blobHash, seqNum := UInt64.ofNat ref.seqNum, blobType := ref.blobType
            dataSize := UInt64.ofNat blob.data.length, timestamp := blob.timestamp }
  else none

/-- The answer to a `ListRequest`: an error code or the payload of a `ListResponse`. -/
def handleListRequest (t : Tables) (now : UInt64) (payload : Bytes) : Except UInt8 Bytes :=
  match parseListRequest payload with
  | none => .error ERROR_MALFORMED_PAYLOAD
  | some q =>
    let limit := effectiveLimit q.limit
    let refs := getBlobRefsSince t q.ns q.sinceSeq (limit + 1)
    let hasMore := decide (refs.length > limit)
    let page := if hasMore then refs.take limit else refs
    .ok (encodeListResponse (page.filterMap (listRow t now q)) hasMore)

end Peer
