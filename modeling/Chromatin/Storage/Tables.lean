import Chromatin.Infra.TreeMap
import Chromatin.Wire.Codec

/-!
# The tables of a node (`storage/storage.cpp`)

`Tables` is the content of the eight MDBX sub-databases. A table keyed by
`[namespace:32][hash:32]` is keyed by the same 64 bytes here (`makeBlobKey`); the two tables that
are walked in key order, `[namespace:32][seq:8]` and `[expiry:8][hash:32]`, are tables of tables,
whose order is the byte order of those keys.

The blob table holds the blob itself. The AEAD envelope around its encoding only shows in the
size that the quota counts (`encryptedSize`), and a write transaction that throws only in the
`writeError` of `storeBlob`.
-/

namespace Storage

open Infra Util Wire

/-- `[namespace:32][hash:32]`, the key of most tables. -/
def makeBlobKey (ns hash : Hash32) : FixedBytes 64 :=
  ⟨ns.toList ++ hash.toList, by simp⟩

theorem length_take_key (key : FixedBytes 64) : (key.toList.take 32).length = 32 := by simp

instance transCmp_key :
    Std.TransCmp (compare : FixedBytes 64 → FixedBytes 64 → Ordering) := inferInstance

/-- A value of the sequence table: the blob's hash and the first four bytes of its data. -/
structure SeqEntry where
  hash : Hash32
  blobType : FixedBytes 4
deriving DecidableEq

def zeroHash : Hash32 := FixedBytes.fill 32 0

/-- What `deleteBlobData` leaves in place of a deleted blob's entry. -/
def zeroSentinel : SeqEntry := { hash := zeroHash, blobType := FixedBytes.fill 4 0 }

structure SyncCursor where
  seqNum : UInt64 := 0
  roundCount : UInt32 := 0
  lastSyncTimestamp : UInt64 := 0
deriving DecidableEq

structure NamespaceQuota where
  totalBytes : UInt64 := 0
  blobCount : UInt64 := 0
deriving DecidableEq

structure NamespaceInfo where
  namespaceId : Hash32
  latestSeqNum : Nat
deriving DecidableEq

structure Tables where
  blobs : Table (FixedBytes 64) BlobData := ∅
  /-- namespace, then sequence number -/
  seq : Table Hash32 (Table Nat SeqEntry) := ∅
  /-- expiry time, then blob hash; the value is the namespace -/
  expiry : Table Nat (Table Hash32 Hash32) := ∅
  /-- `[namespace][SHA3(delegate key)]` to the hash of the delegation blob -/
  delegation : Table (FixedBytes 64) Hash32 := ∅
  /-- `[namespace][target hash]` -/
  tombstone : Table (FixedBytes 64) Unit := ∅
  /-- `[peer][namespace]` -/
  cursor : Table (FixedBytes 64) SyncCursor := ∅
  quota : Table Hash32 NamespaceQuota := ∅
  /-- signer hint to signing key -/
  ownerPubkeys : Table Hash32 PubKey := ∅
deriving DecidableEq

/-! ## Look-ups -/

namespace Tables

def getBlob (t : Tables) (ns hash : Hash32) : Option BlobData := t.blobs[makeBlobKey ns hash]?

def hasBlob (t : Tables) (ns hash : Hash32) : Bool := (t.getBlob ns hash).isSome

def hasTombstoneFor (t : Tables) (ns targetBlobHash : Hash32) : Bool :=
  t.tombstone[makeBlobKey ns targetBlobHash]?.isSome

def getOwnerPubkey (t : Tables) (signerHint : Hash32) : Option PubKey := t.ownerPubkeys[signerHint]?

def hasOwnerPubkey (t : Tables) (signerHint : Hash32) : Bool := (t.getOwnerPubkey signerHint).isSome

def getDelegatePubkeyByHint (t : Tables) (ns signerHint : Hash32) : Option PubKey :=
  match t.delegation[makeBlobKey ns signerHint]? with
  | none => none
  | some delegationBlobHash =>
    match t.getBlob ns delegationBlobHash with
    | none => none
    | some blob => if isDelegation blob.data then some (extractDelegatePubkey blob.data) else none

def getNamespaceQuota (t : Tables) (ns : Hash32) : NamespaceQuota := t.quota[ns]?.getD {}

/-- The sequence entries of a namespace, in ascending order of the sequence number. -/
def seqEntries (t : Tables) (ns : Hash32) : List (Nat × SeqEntry) :=
  match t.seq[ns]? with
  | none => []
  | some row => row.toList

/-- The first sequence number whose entry holds the hash. -/
def findSeq (t : Tables) (ns hash : Hash32) : Option Nat :=
  ((t.seqEntries ns).find? fun entry => entry.2.hash == hash).map Prod.fst

/-- One more than the largest sequence number of the namespace. -/
def nextSeqNum (t : Tables) (ns : Hash32) : Nat :=
  match (t.seqEntries ns).getLast? with
  | none => 1
  | some entry => entry.1 + 1

/-- The hashes of a namespace in sequence order, without the zero sentinels. -/
def getHashesByNamespace (t : Tables) (ns : Hash32) : List Hash32 :=
  ((t.seqEntries ns).map fun entry => entry.2.hash).filter (· != zeroHash)

/-- Every namespace with a sequence entry, ascending, with its largest sequence number. -/
def listNamespaces (t : Tables) : List NamespaceInfo :=
  t.seq.toList.map fun (ns, row) =>
    { namespaceId := ns, latestSeqNum := (row.toList.getLast?.map Prod.fst).getD 0 }

def getSyncCursor (t : Tables) (peerHash ns : Hash32) : Option SyncCursor :=
  t.cursor[makeBlobKey peerHash ns]?

def setSyncCursor (t : Tables) (peerHash ns : Hash32) (cursor : SyncCursor) : Tables :=
  { t with cursor := t.cursor.insert (makeBlobKey peerHash ns) cursor }

def deleteSyncCursor (t : Tables) (peerHash ns : Hash32) : Tables :=
  { t with cursor := t.cursor.erase (makeBlobKey peerHash ns) }

/-- `none` is the exception for a hint that is registered with another key. -/
def registerOwnerPubkey (t : Tables) (signerHint : Hash32) (pubkey : PubKey) : Option Tables :=
  match t.ownerPubkeys[signerHint]? with
  | some existing => if existing = pubkey then some t else none
  | none => some { t with ownerPubkeys := t.ownerPubkeys.insert signerHint pubkey }

end Tables

/-! ## Storing -/

section

variable (P : Primitives)

/-- Version byte, nonce and tag around the stored encoding. -/
def ENVELOPE_OVERHEAD : Nat := 29

def encryptedSize (blob : BlobData) : UInt64 :=
  UInt64.ofNat ((encodeBlob P blob).length + ENVELOPE_OVERHEAD)

inductive StoreStatus
  | stored
  | duplicate
  | capacityExceeded
  | quotaExceeded
  | error
deriving DecidableEq, Repr

structure StoreResult where
  status : StoreStatus := .error
  seqNum : Nat := 0
  blobHash : Hash32 := zeroHash

/-- The limits `store_blob` checks inside its transaction; 0 disables a limit. -/
structure StoreLimits where
  maxStorageBytes : UInt64 := 0
  quotaByteLimit : UInt64 := 0
  quotaCountLimit : UInt64 := 0

/-- The writes of `store_blob` for a new blob. -/
def Tables.insertBlob (t : Tables) (ns : Hash32) (blob : BlobData) : Tables :=
  let hash := contentHash P blob
  { t with
    blobs := t.blobs.insert (makeBlobKey ns hash) blob
    seq := insert₂ t.seq ns (t.nextSeqNum ns) { hash, blobType := extractBlobType blob.data }
    expiry :=
      if blob.ttl > 0 then
        insert₂ t.expiry (saturatingExpiry blob.timestamp blob.ttl).toNat hash ns
      else t.expiry
    delegation :=
      if isDelegation blob.data then
        t.delegation.insert
          (makeBlobKey ns (P.sha3_256 (extractDelegatePubkey blob.data).toList)) hash
      else t.delegation
    tombstone :=
      if isTombstone blob.data then
        t.tombstone.insert (makeBlobKey ns (extractTombstoneTarget blob.data)) ()
      else t.tombstone
    quota :=
      if isTombstone blob.data then t.quota
      else
        let current := t.getNamespaceQuota ns
        t.quota.insert ns
          { totalBytes := current.totalBytes + encryptedSize P blob
            blobCount := current.blobCount + 1 } }

/-- Sums are `uint64_t`, so that they wrap. -/
def overQuota (current : NamespaceQuota) (encodedSize : Nat) (limits : StoreLimits) : Bool :=
  (limits.quotaByteLimit > 0 &&
    current.totalBytes + UInt64.ofNat encodedSize > limits.quotaByteLimit) ||
  (limits.quotaCountLimit > 0 && current.blobCount + 1 > limits.quotaCountLimit)

/-- `usedBytes` is what `used_bytes()` returns, `writeError` that the transaction throws. -/
def storeBlob (usedBytes : UInt64) (writeError : Bool) (t : Tables) (ns : Hash32)
    (blob : BlobData) (limits : StoreLimits) : Tables × StoreResult :=
  let hash := contentHash P blob
  if writeError then (t, {})
  else if t.hasBlob ns hash then
    (t, { status := .duplicate, seqNum := (t.findSeq ns hash).getD 0, blobHash := hash })
  else if limits.maxStorageBytes > 0 && !isTombstone blob.data &&
      usedBytes ≥ limits.maxStorageBytes then
    (t, { status := .capacityExceeded, blobHash := hash })
  else if !isTombstone blob.data &&
      overQuota (t.getNamespaceQuota ns) (encodeBlob P blob).length limits then
    (t, { status := .quotaExceeded, blobHash := hash })
  else
    (t.insertBlob P ns blob, { status := .stored, seqNum := t.nextSeqNum ns, blobHash := hash })

/-! ## Deleting and expiring -/

/-- Take one blob off a namespace's aggregate; an aggregate of nothing is removed. -/
def decrementQuota (quota : Table Hash32 NamespaceQuota) (ns : Hash32) (size : UInt64) :
    Table Hash32 NamespaceQuota :=
  match quota[ns]? with
  | none => quota
  | some current =>
    let totalBytes := if current.totalBytes > size then current.totalBytes - size else 0
    let blobCount := if current.blobCount > 0 then current.blobCount - 1 else 0
    if totalBytes = 0 ∧ blobCount = 0 then quota.erase ns
    else quota.insert ns { totalBytes, blobCount }

/-- The writes of `delete_blob_data` for the blob that is stored under the hash. -/
def Tables.removeBlob (t : Tables) (ns hash : Hash32) (blob : BlobData) : Tables :=
  { t with
    blobs := t.blobs.erase (makeBlobKey ns hash)
    -- tombstones are not counted when they are stored, but are taken off here as well
    quota := decrementQuota t.quota ns (encryptedSize P blob)
    seq :=
      match t.findSeq ns hash with
      | none => t.seq
      | some seq => insert₂ t.seq ns seq zeroSentinel
    expiry :=
      if blob.ttl > 0 then erase₂ t.expiry (saturatingExpiry blob.timestamp blob.ttl).toNat hash
      else t.expiry
    delegation :=
      if isDelegation blob.data then
        t.delegation.erase (makeBlobKey ns (P.sha3_256 (extractDelegatePubkey blob.data).toList))
      else t.delegation
    tombstone :=
      if isTombstone blob.data then
        t.tombstone.erase (makeBlobKey ns (extractTombstoneTarget blob.data))
      else t.tombstone }

/-- The flag says whether there was a blob to delete. -/
def deleteBlobData (t : Tables) (ns hash : Hash32) : Tables × Bool :=
  match t.getBlob ns hash with
  | none => (t, false)
  | some blob => (t.removeBlob P ns hash blob, true)

/-- One entry of the expiry table: expiry time, blob hash, namespace. -/
structure ExpiryEntry where
  time : Nat
  hash : Hash32
  ns : Hash32

/-- The entries of the expiry table in key order. -/
def Tables.expiryEntries (t : Tables) : List ExpiryEntry :=
  t.expiry.toList.flatMap fun (time, row) => row.toList.map fun (hash, ns) => { time, hash, ns }

theorem mem_expiryEntries {t : Tables} {entry : ExpiryEntry} :
    entry ∈ t.expiryEntries ↔ get₂ t.expiry entry.time entry.hash = some entry.ns := by
  refine mem_cells.trans ⟨?_, fun h => ⟨_, _, _, h, rfl⟩⟩
  rintro ⟨time, hash, ns, h, rfl⟩
  exact h

/-- One turn of the expiry scan. The sequence and delegation tables keep their entries. -/
def expireEntry (t : Tables) (entry : ExpiryEntry) : Tables :=
  let expiry := erase₂ t.expiry entry.time entry.hash
  match t.getBlob entry.ns entry.hash with
  | none => { t with expiry }
  | some blob =>
    { t with
      expiry
      blobs := t.blobs.erase (makeBlobKey entry.ns entry.hash)
      tombstone :=
        if isTombstone blob.data then
          t.tombstone.erase (makeBlobKey entry.ns (extractTombstoneTarget blob.data))
        else t.tombstone
      quota :=
        if isTombstone blob.data then t.quota
        else decrementQuota t.quota entry.ns (encryptedSize P blob) }

/-- The number is that of the purged entries. -/
def runExpiryScan (t : Tables) (now : UInt64) : Tables × Nat :=
  let due := t.expiryEntries.takeWhile fun entry => entry.time ≤ now.toNat
  (due.foldl (expireEntry P) t, due.length)

/-- The time of the first entry. -/
def Tables.getEarliestExpiry (t : Tables) : Option Nat := t.expiryEntries.head?.map ExpiryEntry.time

/-! ## What the operations do to the look-ups -/

@[simp] theorem makeBlobKey_inj {ns hash ns' hash' : Hash32} :
    makeBlobKey ns hash = makeBlobKey ns' hash' ↔ ns = ns' ∧ hash = hash' := by
  constructor
  · intro h
    have happend : ns.toList ++ hash.toList = ns'.toList ++ hash'.toList := congrArg Subtype.val h
    obtain ⟨hns, hhash⟩ := List.append_inj happend (by simp)
    exact ⟨List.Vector.toList_injective hns, List.Vector.toList_injective hhash⟩
  · rintro ⟨rfl, rfl⟩
    rfl

variable {P} {t : Tables} {ns hash ns' hash' : Hash32} {blob : BlobData}

@[simp] theorem getBlob_empty : ({} : Tables).getBlob ns hash = none := by simp [Tables.getBlob]

@[simp] theorem hasTombstoneFor_empty : ({} : Tables).hasTombstoneFor ns hash = false := by
  simp [Tables.hasTombstoneFor]

@[simp] theorem getOwnerPubkey_empty : ({} : Tables).getOwnerPubkey hash = none := by
  simp [Tables.getOwnerPubkey]

/-- A delegate is known by a delegation blob that is stored and that its index entry points to. -/
theorem getDelegatePubkeyByHint_eq_some {hint : Hash32} {pubkey : PubKey} :
    t.getDelegatePubkeyByHint ns hint = some pubkey ↔
      ∃ delegationHash delegation, t.delegation[makeBlobKey ns hint]? = some delegationHash ∧
        t.getBlob ns delegationHash = some delegation ∧ isDelegation delegation.data = true ∧
        extractDelegatePubkey delegation.data = pubkey := by
  unfold Tables.getDelegatePubkeyByHint
  constructor
  · intro h
    split at h
    · exact absurd h (by simp)
    · rename_i delegationHash hindex
      split at h
      · exact absurd h (by simp)
      · rename_i delegation hblob
        split_ifs at h with hshape
        exact ⟨delegationHash, delegation, hindex, hblob, hshape, Option.some.inj h⟩
  · rintro ⟨delegationHash, delegation, hindex, hblob, hshape, rfl⟩
    simp [hindex, hblob, hshape]

theorem getBlob_insertBlob : (t.insertBlob P ns blob).getBlob ns' hash' =
    if ns = ns' ∧ contentHash P blob = hash' then some blob else t.getBlob ns' hash' := by
  simp [Tables.getBlob, Tables.insertBlob, getElem?_insert_eq]

theorem getBlob_removeBlob : (t.removeBlob P ns hash blob).getBlob ns' hash' =
    if ns = ns' ∧ hash = hash' then none else t.getBlob ns' hash' := by
  simp [Tables.getBlob, Tables.removeBlob, getElem?_erase_eq]

theorem getBlob_deleteBlobData : (deleteBlobData P t ns hash).1.getBlob ns' hash' =
    if ns = ns' ∧ hash = hash' then none else t.getBlob ns' hash' := by
  unfold deleteBlobData
  cases hblob : t.getBlob ns hash with
  | none =>
    by_cases hkey : ns = ns' ∧ hash = hash'
    · obtain ⟨rfl, rfl⟩ := hkey
      simp [hblob]
    · simp [hkey]
  | some blob => exact getBlob_removeBlob

theorem getBlob_expireEntry {entry : ExpiryEntry} : (expireEntry P t entry).getBlob ns' hash' =
    if entry.ns = ns' ∧ entry.hash = hash' then none else t.getBlob ns' hash' := by
  unfold expireEntry
  cases hblob : t.getBlob entry.ns entry.hash with
  | none =>
    by_cases hkey : entry.ns = ns' ∧ entry.hash = hash'
    · obtain ⟨rfl, rfl⟩ := hkey
      simpa [Tables.getBlob] using hblob
    · simp [hkey, Tables.getBlob]
  | some blob => simp [Tables.getBlob, getElem?_erase_eq]

theorem hasTombstoneFor_insertBlob : (t.insertBlob P ns blob).hasTombstoneFor ns' hash' =
    ((isTombstone blob.data && decide (ns = ns' ∧ extractTombstoneTarget blob.data = hash')) ||
      t.hasTombstoneFor ns' hash') := by
  by_cases htomb : isTombstone blob.data = true
  · by_cases hkey : ns = ns' ∧ extractTombstoneTarget blob.data = hash'
    · simp [Tables.hasTombstoneFor, Tables.insertBlob, htomb, hkey]
    · simp [Tables.hasTombstoneFor, Tables.insertBlob, htomb, getElem?_insert_eq, hkey]
  · simp [Tables.hasTombstoneFor, Tables.insertBlob, htomb]

/-- Removing a blob clears a mark exactly when the blob is a tombstone for that hash. -/
theorem hasTombstoneFor_removeBlob : (t.removeBlob P ns hash blob).hasTombstoneFor ns' hash' =
    (!(isTombstone blob.data && decide (ns = ns' ∧ extractTombstoneTarget blob.data = hash')) &&
      t.hasTombstoneFor ns' hash') := by
  by_cases htomb : isTombstone blob.data = true
  · by_cases hkey : ns = ns' ∧ extractTombstoneTarget blob.data = hash'
    · simp [Tables.hasTombstoneFor, Tables.removeBlob, htomb, hkey]
    · simp [Tables.hasTombstoneFor, Tables.removeBlob, htomb, getElem?_erase_eq, hkey]
  · simp [Tables.hasTombstoneFor, Tables.removeBlob, htomb]

@[simp] theorem getOwnerPubkey_insertBlob :
    (t.insertBlob P ns blob).getOwnerPubkey hash = t.getOwnerPubkey hash := rfl

@[simp] theorem getOwnerPubkey_deleteBlobData :
    (deleteBlobData P t ns hash).1.getOwnerPubkey hash' = t.getOwnerPubkey hash' := by
  unfold deleteBlobData
  cases t.getBlob ns hash <;> rfl

theorem ownerPubkeys_expireEntry {entry : ExpiryEntry} :
    (expireEntry P t entry).ownerPubkeys = t.ownerPubkeys := by
  unfold expireEntry
  cases t.getBlob entry.ns entry.hash <;> rfl

/-- What `storeBlob` can do: leave the tables as they are, or insert a blob that was absent. -/
theorem storeBlob_cases (usedBytes : UInt64) (writeError : Bool) (t : Tables) (ns : Hash32)
    (blob : BlobData) (limits : StoreLimits) :
    ((storeBlob P usedBytes writeError t ns blob limits).1 = t ∧
      (storeBlob P usedBytes writeError t ns blob limits).2.status ≠ .stored) ∨
    (t.getBlob ns (contentHash P blob) = none ∧
      storeBlob P usedBytes writeError t ns blob limits =
        (t.insertBlob P ns blob,
          { status := .stored, seqNum := t.nextSeqNum ns, blobHash := contentHash P blob })) := by
  unfold storeBlob
  dsimp only
  split
  · exact .inl ⟨rfl, by simp⟩
  · split
    · exact .inl ⟨rfl, by simp⟩
    · rename_i habsent
      split
      · exact .inl ⟨rfl, by simp⟩
      · split
        · exact .inl ⟨rfl, by simp⟩
        · exact .inr ⟨by simpa [Tables.hasBlob] using habsent, rfl⟩

/-- Whatever every turn of the expiry scan preserves, the scan preserves. -/
theorem runExpiryScan_preserves {motive : Tables → Prop} (now : UInt64)
    (hstep : ∀ t entry, motive t → motive (expireEntry P t entry)) (h : motive t) :
    motive (runExpiryScan P t now).1 :=
  List.foldlRecOn _ _ h fun t ht entry _ => hstep t entry ht

end

end Storage
