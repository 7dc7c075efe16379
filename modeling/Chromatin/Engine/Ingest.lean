import Chromatin.Storage.Tables

/-!
# The blob engine (`engine/engine.cpp`)

`BlobEngine::ingest` and `BlobEngine::delete_blob` are coroutines: they hand every hash and every
signature check to a thread pool and post back to the event loop before they touch the storage
again. Between two such suspensions a call runs alone, so a call is a `Task` whose program counter
`Pc` names the suspension it waits in, and `segment` is what it does when it is resumed.

`ingest` and `deleteBlob` are the calls without anything else in between.
-/

namespace Engine

open Infra Util Wire Storage

inductive IngestError
  | namespaceMismatch
  | invalidSignature
  | malformedBlob
  | oversizedBlob
  | storageError
  | tombstoned
  | noDelegation
  | storageFull
  | quotaExceeded
  | timestampRejected
  | invalidTtl
  | pubkFirstViolation
  | pubkMismatch
  | bombTtlNonzero
  | bombMalformed
  | bombDelegateNotAllowed
deriving DecidableEq, Repr

inductive IngestStatus
  | stored
  | duplicate
deriving DecidableEq, Repr

structure WriteAck where
  blobHash : Hash32
  seqNum : Nat := 0
  status : IngestStatus := .stored
  replicationCount : Nat := 1
deriving DecidableEq

inductive IngestResult
  | success (ack : WriteAck)
  | rejection (error : IngestError) (detail : String)
deriving DecidableEq

/-! ## Configuration and surroundings -/

/-- The limits of the engine; 0 disables all but `blobMaxBytes`. -/
structure Config where
  blobMaxBytes : UInt64 := 4 * 1024 * 1024
  maxStorageBytes : UInt64 := 0
  namespaceQuotaBytes : UInt64 := 0
  namespaceQuotaCount : UInt64 := 0
  namespaceQuotaOverrides : Table Hash32 (Option UInt64 × Option UInt64) := ∅
  maxTtlSeconds : UInt64 := 0

/-- What a segment sees of its surroundings: the configuration in force (it can be reloaded at
any time), the clock, the size of the database file, and which of its transactions throw. A target
that a BOMB names twice is in `deleteErrors` if both its transactions throw: after one that does
not, nothing is left to delete. -/
structure Env where
  config : Config := {}
  now : UInt64
  usedBytes : UInt64 := 0
  /-- `store_blob` -/
  writeError : Bool := false
  /-- `register_owner_pubkey` -/
  registerError : Bool := false
  /-- `delete_blob_data`, by target -/
  deleteErrors : List Hash32 := []

/-- Byte and count limit of a namespace: its override where there is one, else the global one. -/
def effectiveQuota (config : Config) (ns : Hash32) : UInt64 × UInt64 :=
  match config.namespaceQuotaOverrides[ns]? with
  | some (bytes, count) =>
    (bytes.getD config.namespaceQuotaBytes, count.getD config.namespaceQuotaCount)
  | none => (config.namespaceQuotaBytes, config.namespaceQuotaCount)

/-! ## The checks before any cryptography -/

def MAX_FUTURE_SECONDS : UInt64 := 3600

def MAX_PAST_SECONDS : UInt64 := 30 * 24 * 3600

/-- Step 0. -/
def checkSize (env : Env) (blob : BlobData) : Option IngestResult :=
  if blob.data.length > env.config.blobMaxBytes.toNat then
    some (.rejection .oversizedBlob
      ("blob data size " ++ toString blob.data.length ++ " exceeds blob_max_bytes cap " ++
        toString env.config.blobMaxBytes))
  else none

/-- Step 0b. -/
def checkCapacity (env : Env) (blob : BlobData) : Option IngestResult :=
  if env.config.maxStorageBytes > 0 ∧ ¬ isTombstone blob.data ∧
      env.usedBytes ≥ env.config.maxStorageBytes then
    some (.rejection .storageFull "storage capacity exceeded")
  else none

/-- Step 0c; the sums are `uint64_t`. -/
def checkTimestamp (env : Env) (blob : BlobData) : Option IngestResult :=
  if blob.timestamp > env.now + MAX_FUTURE_SECONDS then
    some (.rejection .timestampRejected "timestamp too far in future (more than 1 hour ahead)")
  else if blob.timestamp < env.now - MAX_PAST_SECONDS then
    some (.rejection .timestampRejected "timestamp too far in past (more than 30 days ago)")
  else none

/-- Step 0d. -/
def checkExpired (env : Env) (blob : BlobData) : Option IngestResult :=
  if blob.ttl > 0 ∧ saturatingExpiry blob.timestamp blob.ttl ≤ env.now then
    some (.rejection .timestampRejected "blob already expired")
  else none

/-- Step 0e. -/
def checkMaxTtl (env : Env) (blob : BlobData) : Option IngestResult :=
  if env.config.maxTtlSeconds > 0 ∧ ¬ isTombstone blob.data ∧ ¬ isBomb blob.data then
    if blob.ttl = 0 then
      some (.rejection .invalidTtl
        ("permanent blobs not allowed (max_ttl_seconds=" ++ toString env.config.maxTtlSeconds ++
          ")"))
    else if blob.ttl.toUInt64 > env.config.maxTtlSeconds then
      some (.rejection .invalidTtl
        ("TTL " ++ toString blob.ttl ++ " exceeds max " ++ toString env.config.maxTtlSeconds))
    else none
  else none

/-- Step 1. -/
def checkSignaturePresent (blob : BlobData) : Option IngestResult :=
  if blob.signature.isEmpty then some (.rejection .malformedBlob "empty signature") else none

/-- Step 1.5. -/
def checkPubkFirst (t : Tables) (ns : Hash32) (blob : BlobData) : Option IngestResult :=
  if ¬ t.hasOwnerPubkey ns ∧ ¬ isPubkeyBlob blob.data then
    some (.rejection .pubkFirstViolation "first write to namespace must be PUBK")
  else none

/-- Step 1.7. -/
def checkBomb (blob : BlobData) : Option IngestResult :=
  if hasBombMagic blob.data then
    if blob.ttl ≠ 0 then
      some (.rejection .bombTtlNonzero "BOMB must have ttl=0 (permanent)")
    else if ¬ validateBombStructure blob.data then
      some (.rejection .bombMalformed "BOMB structural check failed (size mismatch or too short)")
    else none
  else none

/-- The first check of `ingest` that fails. -/
def ingestChecks (env : Env) (t : Tables) (ns : Hash32) (blob : BlobData) : Option IngestResult :=
  checkSize env blob <|> checkCapacity env blob <|> checkTimestamp env blob <|>
    checkExpired env blob <|> checkMaxTtl env blob <|> checkSignaturePresent blob <|>
    checkPubkFirst t ns blob <|> checkBomb blob

/-- Step 0d of `delete_blob`. -/
def checkPermanent (blob : BlobData) : Option IngestResult :=
  if blob.ttl ≠ 0 then some (.rejection .invalidTtl "tombstone must have TTL=0 (permanent)")
  else none

def checkTombstoneFormat (blob : BlobData) : Option IngestResult :=
  if ¬ isTombstone blob.data then
    some (.rejection .malformedBlob
      "delete request data must be tombstone format (4-byte magic + 32-byte hash)")
  else none

/-- The first check of `delete_blob` that fails. -/
def deleteChecks (env : Env) (blob : BlobData) : Option IngestResult :=
  checkTimestamp env blob <|> checkPermanent blob <|> checkSignaturePresent blob <|>
    checkTombstoneFormat blob

/-! ## Suspensions -/

/-- `resolved_pubkey` with the flag that is set along with it. -/
inductive Signer
  | owner (pubkey : PubKey)
  | delegate (pubkey : PubKey)
deriving DecidableEq

def Signer.pubkey : Signer → PubKey
  | .owner pubkey => pubkey
  | .delegate pubkey => pubkey

/-- What a call waits for. -/
inductive Pc
  /-- its first turn -/
  | start
  /-- SHA3 of the key registered for the signer hint -/
  | ownerHash (ownerPk : PubKey)
  /-- SHA3 of the signing key embedded in a PUBK -/
  | pubkHash
  /-- the hash of the encoded blob -/
  | blobHash (signer : Signer)
  /-- the signature check -/
  | verify (signer : Signer)
  | done (result : IngestResult)
deriving DecidableEq

inductive Entry
  | ingest
  | deleteBlob
deriving DecidableEq

structure Task where
  entry : Entry
  ns : Hash32
  blob : BlobData
  pc : Pc := .start
deriving DecidableEq

/-! ## Segments -/

section

variable (P : Primitives)

/-- Step 2a, then wait for the blob hash. -/
def checkQuota (env : Env) (t : Tables) (ns : Hash32) (blob : BlobData) (signer : Signer) : Pc :=
  if isTombstone blob.data then .blobHash signer
  else
    let (byteLimit, countLimit) := effectiveQuota env.config ns
    let current := t.getNamespaceQuota ns
    if byteLimit > 0 ∧
        current.totalBytes + UInt64.ofNat (encodeBlob P blob).length > byteLimit then
      .done (.rejection .quotaExceeded "namespace byte quota exceeded")
    else if countLimit > 0 ∧ current.blobCount + 1 > countLimit then
      .done (.rejection .quotaExceeded "namespace count quota exceeded")
    else .blobHash signer

/-- What a delegate may not write. -/
def checkDelegate (blob : BlobData) : Option IngestResult :=
  if isDelegation blob.data then
    some (.rejection .noDelegation "delegates cannot create delegation blobs")
  else if isTombstone blob.data then
    some (.rejection .noDelegation "delegates cannot create tombstone blobs")
  else if isBomb blob.data then
    some (.rejection .bombDelegateNotAllowed "delegates cannot create BOMB blobs")
  else none

/-- The delegation path of step 2. -/
def resolveDelegate (env : Env) (t : Tables) (ns : Hash32) (blob : BlobData) : Pc :=
  match t.getDelegatePubkeyByHint ns blob.signerHint with
  | none =>
    .done (.rejection .noDelegation "signer_hint not found in owner_pubkeys or delegation_map")
  | some pubkey =>
    match checkDelegate blob with
    | some result => .done result
    | none => checkQuota P env t ns blob (.delegate pubkey)

/-- Step 2 once no registered key of the signer owns the namespace. -/
def resolveOther (env : Env) (t : Tables) (ns : Hash32) (blob : BlobData) : Pc :=
  if isPubkeyBlob blob.data then .pubkHash else resolveDelegate P env t ns blob

def resolveSigner (env : Env) (t : Tables) (ns : Hash32) (blob : BlobData) : Pc :=
  match t.getOwnerPubkey blob.signerHint with
  | some ownerPk => .ownerHash ownerPk
  | none => resolveOther P env t ns blob

/-- `delete_blob_data` answers `false` when its transaction throws, which no caller looks at. -/
def deleteTarget (env : Env) (t : Tables) (ns target : Hash32) : Tables :=
  if target ∈ env.deleteErrors then t else (deleteBlobData P t ns target).1

/-- Step 3.5: deletions of a tombstone or a BOMB; `none` when a tombstone blocks the blob. -/
def sideEffects (env : Env) (t : Tables) (ns : Hash32) (blob : BlobData) : Option Tables :=
  if isTombstone blob.data then
    some (deleteTarget P env t ns (extractTombstoneTarget blob.data))
  else if isBomb blob.data then
    some ((extractBombTargets blob.data).foldl (fun t target => deleteTarget P env t ns target) t)
  else if t.hasTombstoneFor ns (contentHash P blob) then none
  else some t

/-- Step 4.5: the key is registered under the blob's signer hint; `none` when
`register_owner_pubkey` throws, on a mismatch or because its transaction does. -/
def registerPubk (env : Env) (t : Tables) (blob : BlobData) : Option Tables :=
  if isPubkeyBlob blob.data then
    if env.registerError then none
    else t.registerOwnerPubkey blob.signerHint (extractPubkSigningPk blob.data)
  else some t

/-- The answer to the caller of `store_blob`. -/
def storeOutcome (errorDetail : String) (r : StoreResult) : IngestResult :=
  match r.status with
  | .stored => .success { blobHash := r.blobHash, seqNum := r.seqNum, status := .stored }
  | .duplicate => .success { blobHash := r.blobHash, seqNum := r.seqNum, status := .duplicate }
  | .capacityExceeded => .rejection .storageFull "storage capacity exceeded (atomic check)"
  | .quotaExceeded => .rejection .quotaExceeded "namespace quota exceeded (atomic check)"
  | .error => .rejection .storageError errorDetail

/-- Step 4. -/
def ingestStore (env : Env) (t : Tables) (ns : Hash32) (blob : BlobData) : Tables × IngestResult :=
  let (byteLimit, countLimit) := effectiveQuota env.config ns
  let (t', r) := storeBlob P env.usedBytes env.writeError t ns blob
    { maxStorageBytes := if isTombstone blob.data then 0 else env.config.maxStorageBytes
      quotaByteLimit := byteLimit, quotaCountLimit := countLimit }
  (t', storeOutcome "storage write failed" r)

/-- The last segment of `ingest`, once the signature has been verified. -/
def ingestCommit (env : Env) (t : Tables) (ns : Hash32) (blob : BlobData) :
    Tables × IngestResult :=
  match sideEffects P env t ns blob with
  | none => (t, .rejection .tombstoned "blocked by tombstone")
  | some t₁ =>
    match registerPubk env t₁ blob with
    | none => (t₁, .rejection .pubkMismatch "PUBK signing pubkey differs from registered owner")
    | some t₂ => ingestStore P env t₂ ns blob

def verifySignature (ns : Hash32) (blob : BlobData) (pubkey : PubKey) : Bool :=
  P.verify (buildSigningInput P ns blob.data blob.ttl blob.timestamp) blob.signature pubkey

def ingestSegment (env : Env) (t : Tables) (ns : Hash32) (blob : BlobData) : Pc → Tables × Pc
  | .start =>
    match ingestChecks env t ns blob with
    | some result => (t, .done result)
    | none => (t, resolveSigner P env t ns blob)
  | .ownerHash ownerPk =>
    if P.sha3_256 ownerPk.toList = ns then (t, checkQuota P env t ns blob (.owner ownerPk))
    else (t, resolveOther P env t ns blob)
  | .pubkHash =>
    let embedded := extractPubkSigningPk blob.data
    if P.sha3_256 embedded.toList ≠ ns then
      (t, .done (.rejection .namespaceMismatch "SHA3(PUBK signing pk) != target_namespace"))
    else (t, checkQuota P env t ns blob (.owner embedded))
  | .blobHash signer =>
    if t.hasBlob ns (contentHash P blob) then
      (t, .done (.success { blobHash := contentHash P blob, status := .duplicate }))
    else (t, .verify signer)
  | .verify signer =>
    if verifySignature P ns blob signer.pubkey then
      let (t', result) := ingestCommit P env t ns blob
      (t', .done result)
    else (t, .done (.rejection .invalidSignature "ML-DSA-87 signature verification failed"))
  | .done result => (t, .done result)

/-- `delete_blob` once no registered key of the signer owns the namespace. -/
def rejectDelete (t : Tables) (ns : Hash32) (blob : BlobData) : Pc :=
  match t.getDelegatePubkeyByHint ns blob.signerHint with
  | some _ => .done (.rejection .noDelegation "delegates cannot create tombstone blobs")
  | none =>
    .done (.rejection .noDelegation "signer_hint not found in owner_pubkeys or delegation_map")

/-- The last segment of `delete_blob`; `store_blob` is called without limits. -/
def deleteCommit (env : Env) (t : Tables) (ns : Hash32) (blob : BlobData) :
    Tables × IngestResult :=
  let t₁ := deleteTarget P env t ns (extractTombstoneTarget blob.data)
  let (t', r) := storeBlob P env.usedBytes env.writeError t₁ ns blob {}
  (t', storeOutcome "storage write failed for tombstone" r)

/-- `delete_blob` never waits for a PUBK's key or for the blob hash. -/
def deleteSegment (env : Env) (t : Tables) (ns : Hash32) (blob : BlobData) : Pc → Tables × Pc
  | .start =>
    match deleteChecks env blob with
    | some result => (t, .done result)
    | none =>
      match t.getOwnerPubkey blob.signerHint with
      | some ownerPk => (t, .ownerHash ownerPk)
      | none => (t, rejectDelete t ns blob)
  | .ownerHash ownerPk =>
    if P.sha3_256 ownerPk.toList = ns then (t, .verify (.owner ownerPk))
    else (t, rejectDelete t ns blob)
  | .verify signer =>
    if verifySignature P ns blob signer.pubkey then
      let (t', result) := deleteCommit P env t ns blob
      (t', .done result)
    else (t, .done (.rejection .invalidSignature "ML-DSA-87 signature verification failed"))
  | pc => (t, pc)

/-- What a call does between two suspensions. -/
def segment (env : Env) (t : Tables) (task : Task) : Tables × Pc :=
  match task.entry with
  | .ingest => ingestSegment P env t task.ns task.blob task.pc
  | .deleteBlob => deleteSegment P env t task.ns task.blob task.pc

/-! ## A node -/

/-- The storage and the calls made so far, in the order they were made. -/
structure Node where
  tables : Tables := {}
  tasks : List Task := []

inductive Event
  /-- a call is made; its first segment has not run -/
  | call (entry : Entry) (ns : Hash32) (blob : BlobData)
  /-- the `i`-th call runs up to its next suspension -/
  | resume (i : Nat) (env : Env)
  /-- `Storage::run_expiry_scan` -/
  | expiryScan (now : UInt64)

def Node.step (node : Node) : Event → Node
  | .call entry ns blob => { node with tasks := node.tasks ++ [{ entry, ns, blob }] }
  | .resume i env =>
    match node.tasks[i]? with
    | none => node
    | some task =>
      let (tables, pc) := segment P env node.tables task
      { tables, tasks := node.tasks.set i { task with pc } }
  | .expiryScan now => { node with tables := (runExpiryScan P node.tables now).1 }

/-! ## Calls without interleaving -/

/-- A call makes at most five turns. -/
def callTurns : Nat := 5

/-- Run a call from its program counter on, alone. -/
def runAlone (env : Env) : Nat → Tables → Task → Tables × Pc
  | 0, t, task => (t, task.pc)
  | n + 1, t, task =>
    let (t', pc) := segment P env t task
    runAlone env n t' { task with pc }

def ingest (env : Env) (t : Tables) (ns : Hash32) (blob : BlobData) : Tables × Pc :=
  runAlone P env callTurns t { entry := .ingest, ns, blob }

end

end Engine
