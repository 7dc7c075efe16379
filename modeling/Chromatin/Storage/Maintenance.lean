import Chromatin.Infra.Run
import Chromatin.Storage.Tables

/-!
# The batch store and the rebuild of the quota aggregates (`storage/storage.cpp`)

`store_blobs_atomic` writes a batch in one transaction and updates each namespace's aggregate once
at the end of it; `rebuild_quota_aggregates`, which the constructor of `Storage` runs, recomputes
the aggregates from the blob table. `StoreOp` collects the operations that write blobs or
aggregates, for statements about every sequence of them.
-/

namespace Storage

open Infra Util Wire

/-- A blob and the namespace it goes to. The hash and the encoding that the source keeps beside
them are those of the blob. -/
structure PrecomputedBlob where
  targetNamespace : Hash32
  blob : BlobData

instance : Add NamespaceQuota where
  add a b := { totalBytes := a.totalBytes + b.totalBytes, blobCount := a.blobCount + b.blobCount }

/-- Add to the sums of one namespace; a namespace without an entry starts at zero. -/
def addTo (sums : Table Hash32 NamespaceQuota) (ns : Hash32) (increment : NamespaceQuota) :
    Table Hash32 NamespaceQuota :=
  sums.insert ns (sums[ns]?.getD {} + increment)

/-- The sums per namespace over the blobs that count, those that are no tombstones. -/
def additions (size : BlobData → UInt64) (batch : List PrecomputedBlob) :
    Table Hash32 NamespaceQuota :=
  (batch.filter fun pb => !isTombstone pb.blob.data).foldl
    (fun sums pb => addTo sums pb.targetNamespace { totalBytes := size pb.blob, blobCount := 1 }) ∅

/-- Add sums to the recorded aggregates, once per namespace. -/
def addIncrements (quota increments : Table Hash32 NamespaceQuota) : Table Hash32 NamespaceQuota :=
  increments.toList.foldl (fun quota (ns, increment) => addTo quota ns increment) quota

/-- The quota check of a batch: some namespace would exceed a limit. Sums are `uint64_t`. -/
def batchOverQuota (t : Tables) (sums : Table Hash32 NamespaceQuota) (limits : StoreLimits) :
    Bool :=
  sums.toList.any fun (ns, sum) =>
    let current := t.getNamespaceQuota ns
    (limits.quotaByteLimit > 0 && current.totalBytes + sum.totalBytes > limits.quotaByteLimit) ||
    (limits.quotaCountLimit > 0 && current.blobCount + sum.blobCount > limits.quotaCountLimit)

section

variable (P : Primitives)

/-- The blob of a batch is in the store before the batch. -/
def PrecomputedBlob.isDup (t : Tables) (pb : PrecomputedBlob) : Bool :=
  t.hasBlob pb.targetNamespace (contentHash P pb.blob)

/-- The writes for one new blob of a batch: those of `store_blob` without the aggregate. -/
def storeRow (t : Tables) (pb : PrecomputedBlob) : Tables :=
  { t.insertBlob P pb.targetNamespace pb.blob with quota := t.quota }

/-- What the first pass records for a duplicate. -/
def duplicateResult (t : Tables) (pb : PrecomputedBlob) : StoreResult :=
  let hash := contentHash P pb.blob
  { status := .duplicate, seqNum := (t.findSeq pb.targetNamespace hash).getD 0, blobHash := hash }

/-- The results after the first pass. -/
def firstPass (t : Tables) (batch : List PrecomputedBlob) : List StoreResult :=
  batch.map fun pb => if pb.isDup P t then duplicateResult P t pb else {}

/-- The second pass. Duplicates are those of the tables `before` the transaction, so that a blob
that occurs twice in the batch is written twice. -/
def secondPass (before : Tables) : Tables → List PrecomputedBlob → Tables × List StoreResult
  | t, [] => (t, [])
  | t, pb :: rest =>
    if pb.isDup P before then
      let (t', results) := secondPass before t rest
      (t', duplicateResult P before pb :: results)
    else
      let (t', results) := secondPass before (storeRow P t pb) rest
      (t', { status := .stored
             seqNum := t.nextSeqNum pb.targetNamespace
             blobHash := contentHash P pb.blob } :: results)

/-- All or nothing: a full store or an exceeded quota refuses the whole batch. -/
def storeBlobsAtomic (usedBytes : UInt64) (writeError : Bool) (t : Tables)
    (batch : List PrecomputedBlob) (limits : StoreLimits) : Tables × List StoreResult :=
  let refuse (status : StoreStatus) := (t, (firstPass P t batch).map ({ · with status := status }))
  let fresh := batch.filter fun pb => !pb.isDup P t
  if batch.isEmpty then (t, [])
  else if writeError then refuse .error
  else if fresh.isEmpty then (t, firstPass P t batch)
  else if limits.maxStorageBytes > 0 && fresh.any (fun pb => !isTombstone pb.blob.data) &&
      usedBytes ≥ limits.maxStorageBytes then
    refuse .capacityExceeded
  else if batchOverQuota t
      (additions (fun blob => UInt64.ofNat (encodeBlob P blob).length) fresh) limits then
    refuse .quotaExceeded
  else
    let (t', results) := secondPass P t t batch
    ({ t' with quota := addIncrements t'.quota (additions (encryptedSize P) fresh) }, results)

/-- The namespace in a key of the blob table. -/
def namespaceOf (key : FixedBytes 64) : Hash32 := ⟨key.toList.take 32, length_take_key key⟩

/-- Every stored blob is counted, tombstones too. -/
def rebuildQuotaAggregates (t : Tables) : Tables :=
  { t with
    quota := t.blobs.toList.foldl (fun sums (key, blob) =>
      addTo sums (namespaceOf key) { totalBytes := encryptedSize P blob, blobCount := 1 }) ∅ }

/-- The operations that change blobs or aggregates. -/
inductive StoreOp
  | storeBlob (usedBytes : UInt64) (writeError : Bool) (ns : Hash32) (blob : BlobData)
      (limits : StoreLimits)
  | storeBlobsAtomic (usedBytes : UInt64) (writeError : Bool) (batch : List PrecomputedBlob)
      (limits : StoreLimits)
  | deleteBlobData (ns hash : Hash32)
  | runExpiryScan (now : UInt64)
  | reopen

def StoreOp.step (t : Tables) : StoreOp → Tables
  | .storeBlob usedBytes writeError ns blob limits =>
    (Storage.storeBlob P usedBytes writeError t ns blob limits).1
  | .storeBlobsAtomic usedBytes writeError batch limits =>
    (Storage.storeBlobsAtomic P usedBytes writeError t batch limits).1
  | .deleteBlobData ns hash => (Storage.deleteBlobData P t ns hash).1
  | .runExpiryScan now => (Storage.runExpiryScan P t now).1
  | .reopen => rebuildQuotaAggregates P t

end

end Storage
