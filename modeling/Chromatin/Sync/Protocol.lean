import Chromatin.Engine.Ingest
import Chromatin.Sync.ReconcileCodec

/-!
# The sync protocol functions (`sync/sync_protocol.cpp`)

Hash collection, ingestion of received blobs, and the payloads of `NamespaceList`, `BlobRequest`
and `BlobTransfer`. A decoder returns what it has read when the payload ends early, as the source
does; `decode_blob_transfer` lets the exception of `decode_blob` pass, which is `none` here.

* `decodeNamespaceList_encode`, `decodeBlobRequest_encode`, `decodeBlobTransfer_encode` —
  what one side encodes the other side decodes
-/

namespace Sync

open Infra Util Wire Storage Engine

structure NamespacedBlob where
  targetNamespace : Hash32
  blob : BlobData
  deriving DecidableEq

/-- The counters of a session that its end depends on. -/
structure SyncStats where
  blobsReceived : Nat := 0
  blobsSent : Nat := 0
  storageFullCount : Nat := 0
  quotaExceededCount : Nat := 0

/-! ## Hashes and blobs -/

/-- The hashes of a namespace in sequence order, without blobs that are gone or expired. -/
def collectNamespaceHashes (t : Tables) (now : UInt64) (ns : Hash32) : List Hash32 :=
  (t.getHashesByNamespace ns).filter fun hash =>
    match t.getBlob ns hash with
    | none => false
    | some blob => !isBlobExpired blob now

/-- One received blob: skipped when expired, else ingested. -/
def ingestOne (P : Primitives) (env : Env) (state : Tables × SyncStats) (nb : NamespacedBlob) :
    Tables × SyncStats :=
  if isBlobExpired nb.blob env.now then state
  else
    match ingest P env state.1 nb.targetNamespace nb.blob with
    | (t, .done (.success _)) =>
      (t, { state.2 with blobsReceived := state.2.blobsReceived + 1 })
    | (t, .done (.rejection .storageFull _)) =>
      (t, { state.2 with storageFullCount := state.2.storageFullCount + 1 })
    | (t, .done (.rejection .quotaExceeded _)) =>
      (t, { state.2 with quotaExceededCount := state.2.quotaExceededCount + 1 })
    | (t, _) => (t, state.2)

/-- `ingest_blobs`; the counters are added to those of the session. -/
def ingestBlobs (P : Primitives) (env : Env) (t : Tables) (stats : SyncStats)
    (nsBlobs : List NamespacedBlob) : Tables × SyncStats :=
  nsBlobs.foldl (ingestOne P env) (t, stats)

/-! ## `NamespaceList` -/

def encodeNamespaceInfo (info : NamespaceInfo) : Bytes :=
  info.namespaceId.toList ++ writeU64Be (UInt64.ofNat info.latestSeqNum)

def encodeNamespaceList (namespaces : List NamespaceInfo) : Bytes :=
  writeU32Be (UInt32.ofNat namespaces.length) ++ namespaces.flatMap encodeNamespaceInfo

def decodeNamespaceInfos (payload : Bytes) : Nat → Nat → Option (List NamespaceInfo)
  | 0, _ => some []
  | n + 1, offset => do
    let namespaceId ← readFixed 32 payload offset
    let latestSeqNum ← readU64Be payload (offset + 32)
    let rest ← decodeNamespaceInfos payload n (offset + 40)
    some ({ namespaceId, latestSeqNum := latestSeqNum.toNat } :: rest)

def decodeNamespaceList (payload : Bytes) : List NamespaceInfo :=
  match readU32Be payload 0 with
  | none => []
  | some count =>
    if payload.length < 4 + count.toNat * 40 then []
    else (decodeNamespaceInfos payload count.toNat 4).getD []

/-! ## `BlobRequest` -/

def encodeBlobRequest (ns : Hash32) (hashes : List Hash32) : Bytes :=
  ns.toList ++ (writeU32Be (UInt32.ofNat hashes.length) ++ encodeHashes hashes)

/-- A short payload is a request for nothing. -/
def decodeBlobRequest (payload : Bytes) : Hash32 × List Hash32 :=
  if payload.length < 36 then (zeroHash, [])
  else
    match readFixed 32 payload 0, readU32Be payload 32 with
    | some ns, some count =>
      if payload.length < 36 + count.toNat * 32 then (ns, [])
      else (ns, (decodeHashes payload count.toNat 36).getD [])
    | _, _ => (zeroHash, [])

/-! ## `BlobTransfer` -/

section

variable (P : Primitives)

def encodeTransferEntry (nb : NamespacedBlob) : Bytes :=
  nb.targetNamespace.toList ++
    (writeU32Be (UInt32.ofNat (encodeBlob P nb.blob).length) ++ encodeBlob P nb.blob)

def encodeBlobTransfer (nsBlobs : List NamespacedBlob) : Bytes :=
  writeU32Be (UInt32.ofNat nsBlobs.length) ++ nsBlobs.flatMap (encodeTransferEntry P)

def encodeSingleBlobTransfer (targetNamespace : Hash32) (blob : BlobData) : Bytes :=
  writeU32Be 1 ++ (targetNamespace.toList ++
    (writeU32Be (UInt32.ofNat (encodeBlob P blob).length) ++ encodeBlob P blob))

/-- The entries from `offset` on, up to the first one that leaves the payload. -/
def decodeTransferEntries (payload : Bytes) : Nat → Nat → Option (List NamespacedBlob)
  | 0, _ => some []
  | n + 1, offset =>
    match readFixed 32 payload offset, readU32Be payload (offset + 32) with
    | some ns, some len =>
      if payload.length < offset + 36 + len.toNat then some []
      else do
        let blob ← decodeBlob P ((payload.drop (offset + 36)).take len.toNat)
        let rest ← decodeTransferEntries payload n (offset + 36 + len.toNat)
        some ({ targetNamespace := ns, blob } :: rest)
    | _, _ => some []

def decodeBlobTransfer (payload : Bytes) : Option (List NamespacedBlob) :=
  match readU32Be payload 0 with
  | none => some []
  | some count => decodeTransferEntries P payload count.toNat 4

end

/-! ## Round trips -/

theorem decodeNamespaceInfos_append : ∀ (infos : List NamespaceInfo) (pre post : Bytes),
    (∀ info ∈ infos, info.latestSeqNum < 2 ^ 64) →
    decodeNamespaceInfos (pre ++ (infos.flatMap encodeNamespaceInfo ++ post)) infos.length
      pre.length = some infos
  | [], _, _, _ => rfl
  | info :: rest, pre, post, hseq => by
    have ih := decodeNamespaceInfos_append rest (pre ++ encodeNamespaceInfo info) post
      fun i hi => hseq i (List.mem_cons_of_mem _ hi)
    have hvalue : (UInt64.ofNat info.latestSeqNum).toNat = info.latestSeqNum :=
      UInt64.toNat_ofNat_of_lt (hseq info List.mem_cons_self)
    simp [encodeNamespaceInfo] at ih
    simp [decodeNamespaceInfos, encodeNamespaceInfo, -UInt64.toNat_ofNat', hvalue, ih]

theorem decodeNamespaceList_encode {namespaces : List NamespaceInfo}
    (hlen : namespaces.length < 2 ^ 32) (hseq : ∀ info ∈ namespaces, info.latestSeqNum < 2 ^ 64) :
    decodeNamespaceList (encodeNamespaceList namespaces) = namespaces := by
  have hcount : (UInt32.ofNat namespaces.length).toNat = namespaces.length :=
    UInt32.toNat_ofNat_of_lt hlen
  have hinfos := decodeNamespaceInfos_append namespaces
    (writeU32Be (UInt32.ofNat namespaces.length)) [] hseq
  have hsize : (namespaces.flatMap encodeNamespaceInfo).length = namespaces.length * 40 := by
    simp [List.length_flatMap, encodeNamespaceInfo]
  rw [List.append_nil, length_writeU32Be] at hinfos
  rw [decodeNamespaceList, encodeNamespaceList, readU32Be_zero]
  simp only [hcount, List.length_append, length_writeU32Be, hsize, Nat.lt_irrefl, if_false, hinfos,
    Option.getD_some]

theorem decodeBlobRequest_encode (ns : Hash32) {hashes : List Hash32}
    (hlen : hashes.length < 2 ^ 32) :
    decodeBlobRequest (encodeBlobRequest ns hashes) = (ns, hashes) := by
  have hcount : (UInt32.ofNat hashes.length).toNat = hashes.length :=
    UInt32.toNat_ofNat_of_lt hlen
  simp [decodeBlobRequest, encodeBlobRequest, ← Nat.add_assoc, -UInt32.toNat_ofNat', hcount]

section

variable {P : Primitives}

theorem decodeTransferEntries_append (hget : ∀ fb, P.getBlob (P.finishBlob fb) = some fb) :
    ∀ (nsBlobs : List NamespacedBlob) (pre post : Bytes),
      (∀ nb ∈ nsBlobs, (encodeBlob P nb.blob).length < 2 ^ 32) →
      decodeTransferEntries P (pre ++ (nsBlobs.flatMap (encodeTransferEntry P) ++ post))
        nsBlobs.length
        pre.length = some nsBlobs
  | [], _, _, _ => rfl
  | nb :: rest, pre, post, hsizes => by
    have hlen : (UInt32.ofNat (encodeBlob P nb.blob).length).toNat =
      (encodeBlob P nb.blob).length :=
      UInt32.toNat_ofNat_of_lt (hsizes nb List.mem_cons_self)
    have ih := decodeTransferEntries_append hget rest (pre ++ encodeTransferEntry P nb) post
      fun x hx => hsizes x (List.mem_cons_of_mem _ hx)
    rw [List.flatMap_cons, List.append_assoc]
    generalize rest.flatMap (encodeTransferEntry P) ++ post = tail at ih ⊢
    simp [encodeTransferEntry, ← Nat.add_assoc] at ih
    have hdrop :
      (pre ++ (nb.targetNamespace.toList ++
        (writeU32Be (UInt32.ofNat (encodeBlob P nb.blob).length) ++
        (encodeBlob P nb.blob ++ tail)))).drop (pre.length + 36) =
        encodeBlob P nb.blob ++ tail := by
      simp [drop_skip]
    simp [decodeTransferEntries, encodeTransferEntry, ← Nat.add_assoc,
      -UInt32.toNat_ofNat', hlen, hdrop, decodeBlob_encodeBlob P hget, ih]

/-- **A transfer is decoded to the blobs that were encoded.** -/
theorem decodeBlobTransfer_encode (hget : ∀ fb, P.getBlob (P.finishBlob fb) = some fb)
    {nsBlobs : List NamespacedBlob} (hlen : nsBlobs.length < 2 ^ 32)
    (hsizes : ∀ nb ∈ nsBlobs, (encodeBlob P nb.blob).length < 2 ^ 32) :
    decodeBlobTransfer P (encodeBlobTransfer P nsBlobs) = some nsBlobs := by
  have hcount : (UInt32.ofNat nsBlobs.length).toNat = nsBlobs.length :=
    UInt32.toNat_ofNat_of_lt hlen
  have hread :=
    readU32Be_append [] (UInt32.ofNat nsBlobs.length) (nsBlobs.flatMap (encodeTransferEntry P))
  have hentries :=
    decodeTransferEntries_append hget nsBlobs (writeU32Be (UInt32.ofNat nsBlobs.length)) [] hsizes
  rw [List.nil_append, List.length_nil] at hread
  rw [List.append_nil, length_writeU32Be] at hentries
  rw [decodeBlobTransfer, encodeBlobTransfer, hread]
  dsimp only
  rw [hcount, hentries]

theorem encodeBlobTransfer_singleton (P : Primitives) (nb : NamespacedBlob) :
    encodeBlobTransfer P [nb] = encodeSingleBlobTransfer P nb.targetNamespace nb.blob := by
  rw [encodeBlobTransfer, List.flatMap_singleton]
  rfl

theorem decodeBlobTransfer_encodeSingle (hget : ∀ fb, P.getBlob (P.finishBlob fb) = some fb)
    (ns : Hash32) {blob : BlobData} (hlen : (encodeBlob P blob).length < 2 ^ 32) :
    decodeBlobTransfer P (encodeSingleBlobTransfer P ns blob) =
      some [{ targetNamespace := ns, blob }] := by
  rw [← encodeBlobTransfer_singleton P ⟨ns, blob⟩]
  exact decodeBlobTransfer_encode hget (by simp) (by simpa using hlen)

end

end Sync
