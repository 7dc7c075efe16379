import Chromatin.Infra.Access
import Chromatin.Sync.Protocol

/-!
# The decoders of the sync messages, read by read (`sync/reconciliation.cpp`,
`sync/sync_protocol.cpp`)

The decoders as the source has them: reads are copies from a pointer, sizes and offsets are of type
`size_t`, and only the checks that are written out keep a read inside the payload. A decoder that
returns an empty list for a payload it does not accept does so here; `Stop.refused` is a result
without a value, or the exception of `decode_blob`.

Each of them is the decoder of `Sync.ReconcileCodec` or `Sync.Protocol` under the same name, on
every payload that memory can hold, so that none reads outside. -/

namespace Infra.Span

open Util

def fetchU32 (payload : Span) (offset : Nat) : Access UInt32 := do
  let b ← payload.fetch 4 offset
  pure (UInt32.ofNat (ofBigEndian b.toList))

def fetchU64 (payload : Span) (offset : Nat) : Access UInt64 := do
  let b ← payload.fetch 8 offset
  pure (UInt64.ofNat (ofBigEndian b.toList))

/-- `subspan`, whose bytes the callee reads. -/
def subspan (payload : Span) (offset count : Nat) : Access Bytes :=
  if offset + count ≤ payload.size then .ok ((payload.bytes.drop offset).take count)
  else .error .outside

end Infra.Span

namespace Sync.Spans

open Infra Util Wire Storage Access

/-- The loop that copies `n` hashes. -/
def decodeHashes (payload : Span) : Nat → Nat → Access (List Hash32)
  | 0, _ => pure []
  | n + 1, offset => do
    let item ← payload.fetch 32 offset
    let rest ← decodeHashes payload n (addSize offset 32)
    pure (item :: rest)

/-! ## Reconciliation -/

def decodeReconcileInit (payload : Span) : Access ReconcileInit := do
  require (1 + 32 + 4 + 32 ≤ payload.size)
  let version ← payload.byte 0
  require (version = RECONCILE_VERSION)
  let namespaceId ← payload.fetch 32 1
  let count ← payload.fetchU32 33
  let fingerprint ← payload.fetch 32 37
  pure { version, namespaceId, count, fingerprint }

/-- The `switch` on the mode, and the offset behind the entry. -/
def decodeRangeBody (payload : Span) (upperBound : Hash32) (mode : RangeMode) (offset : Nat) :
    Access (RangeEntry × Nat) :=
  match mode with
  | .skip => pure ({ upperBound, mode }, offset)
  | .fingerprint => do
    require (addSize (addSize offset 4) 32 ≤ payload.size)
    let count ← payload.fetchU32 offset
    let offset := addSize offset 4
    let fingerprint ← payload.fetch 32 offset
    pure ({ upperBound, mode, count, fingerprint }, addSize offset 32)
  | .itemList => do
    require (addSize offset 4 ≤ payload.size)
    let count ← payload.fetchU32 offset
    let offset := addSize offset 4
    let itemsSize ← lift (checkedMul count.toNat 32)
    let itemsEnd ← lift (checkedAdd offset itemsSize)
    require (itemsEnd ≤ payload.size)
    let items ← decodeHashes payload count.toNat offset
    -- the loop has moved the offset behind the items
    pure ({ upperBound, mode, count, items }, addSize offset (count.toNat * 32))

def decodeRangeEntry (payload : Span) (offset : Nat) : Access (RangeEntry × Nat) := do
  require (addSize offset 33 ≤ payload.size)
  let upperBound ← payload.fetch 32 offset
  let offset := addSize offset 32
  let mode ← payload.byte offset
  let offset := addSize offset 1
  let mode ← lift (RangeMode.ofByte mode)
  decodeRangeBody payload upperBound mode offset

def decodeRangeEntries (payload : Span) : Nat → Nat → Access (List RangeEntry)
  | 0, _ => pure []
  | n + 1, offset => do
    let (entry, offset) ← decodeRangeEntry payload offset
    let rest ← decodeRangeEntries payload n offset
    pure (entry :: rest)

def decodeReconcileRanges (payload : Span) : Access DecodedRanges := do
  require (32 + 4 ≤ payload.size)
  let namespaceId ← payload.fetch 32 0
  let rangeCount ← payload.fetchU32 32
  let ranges ← decodeRangeEntries payload rangeCount.toNat 36
  pure { namespaceId, ranges }

def decodeReconcileItems (payload : Span) : Access DecodedItems := do
  require (32 + 4 ≤ payload.size)
  let namespaceId ← payload.fetch 32 0
  let count ← payload.fetchU32 32
  let itemsSize ← lift (checkedMul count.toNat 32)
  let total ← lift (checkedAdd 36 itemsSize)
  require (total ≤ payload.size)
  let items ← decodeHashes payload count.toNat 36
  pure { namespaceId, items }

/-! ## Sync messages -/

def decodeNamespaceInfos (payload : Span) : Nat → Nat → Access (List NamespaceInfo)
  | 0, _ => pure []
  | n + 1, offset => do
    let namespaceId ← payload.fetch 32 offset
    let offset := addSize offset 32
    let latestSeqNum ← payload.fetchU64 offset
    let offset := addSize offset 8
    let rest ← decodeNamespaceInfos payload n offset
    pure ({ namespaceId, latestSeqNum := latestSeqNum.toNat } :: rest)

/-- `expected`: the size of a header and `count` entries. -/
def expectedSize (header count entry : Nat) : Option Nat := do
  let product ← checkedMul count entry
  checkedAdd header product

def decodeNamespaceList (payload : Span) : Access (List NamespaceInfo) :=
  if payload.size < 4 then pure []
  else do
    let count ← payload.fetchU32 0
    match expectedSize 4 count.toNat 40 with
    | none => pure []
    | some expected =>
      if payload.size < expected then pure [] else decodeNamespaceInfos payload count.toNat 4

def decodeBlobRequest (payload : Span) : Access (Hash32 × List Hash32) :=
  if payload.size < 36 then pure (zeroHash, [])
  else do
    let ns ← payload.fetch 32 0
    let count ← payload.fetchU32 32
    match expectedSize 36 count.toNat 32 with
    | none => pure (ns, [])
    | some expected =>
      if payload.size < expected then pure (ns, [])
      else do
        let hashes ← decodeHashes payload count.toNat 36
        pure (ns, hashes)

section

variable (P : Primitives)

/-- The end of a field that begins at `offset`; `none` when it does not end in the payload. -/
def fieldEnd (payload : Span) (offset size : Nat) : Option Nat := do
  let stop ← checkedAdd offset size
  if payload.size < stop then none else some stop

def decodeTransferEntries (payload : Span) : Nat → Nat → Access (List NamespacedBlob)
  | 0, _ => pure []
  | n + 1, offset =>
    match fieldEnd payload offset 32 with
    | none => pure []
    | some nsEnd => do
      let ns ← payload.fetch 32 offset
      match fieldEnd payload nsEnd 4 with
      | none => pure []
      | some lenEnd => do
        let len ← payload.fetchU32 nsEnd
        match fieldEnd payload lenEnd len.toNat with
        | none => pure []
        | some blobEnd => do
          let buffer ← payload.subspan lenEnd len.toNat
          let blob ← lift (decodeBlob P buffer)
          let rest ← decodeTransferEntries payload n blobEnd
          pure ({ targetNamespace := ns, blob } :: rest)

def decodeBlobTransfer (payload : Span) : Access (List NamespacedBlob) :=
  if payload.size < 4 then pure []
  else do
    let count ← payload.fetchU32 0
    decodeTransferEntries P payload count.toNat 4

end

end Sync.Spans
