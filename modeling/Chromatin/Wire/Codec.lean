import Chromatin.Util.Endian

/-!
# Blobs and their special shapes (`wire/codec.h`, `wire/codec.cpp`)

A blob is a byte string with a signer hint, a TTL, a timestamp and a signature. Tombstones,
delegations, published public keys (PUBK) and batched tombstones (BOMB) are recognised by the
first four bytes of the data and its size.

SHA3-256, ML-DSA-87 and FlatBuffers are third-party code: `Primitives` is what this development
knows about them.
-/

namespace Wire

open Infra Util

/-- An ML-DSA-87 public key. -/
abbrev PubKey := FixedBytes 2592

structure BlobData where
  signerHint : Hash32
  data : Bytes
  ttl : UInt32 := 0
  timestamp : UInt64 := 0
  signature : Bytes
deriving DecidableEq

/-- The `Blob` table of the FlatBuffers schema: every vector may be absent. -/
structure FbBlob where
  signerHint : Option Bytes
  data : Option Bytes
  ttl : UInt32
  timestamp : UInt64
  signature : Option Bytes

/-- The third-party functions the node calls. -/
structure Primitives where
  /-- `crypto::sha3_256` -/
  sha3_256 : Bytes → Hash32
  /-- `crypto::Signer::verify`: message, signature, public key -/
  verify : Hash32 → Bytes → PubKey → Bool
  /-- `CreateBlob` and `Finish` on a builder with `ForceDefaults` -/
  finishBlob : FbBlob → Bytes
  /-- `VerifyBlobBuffer` and `GetBlob`; `none` when the buffer does not verify -/
  getBlob : Bytes → Option FbBlob

variable (P : Primitives)

def encodeBlob (blob : BlobData) : Bytes :=
  P.finishBlob
    { signerHint := some blob.signerHint.toList, data := some blob.data, ttl := blob.ttl,
      timestamp := blob.timestamp, signature := some blob.signature }

/-- `none` is the exception for a signer hint that is not 32 bytes long. -/
def decodeBlobFromFb (fb : FbBlob) : Option BlobData :=
  match fb.signerHint with
  | none => none
  | some hint =>
    if h : hint.length = 32 then
      some { signerHint := ⟨hint, h⟩, data := fb.data.getD [], ttl := fb.ttl,
             timestamp := fb.timestamp, signature := fb.signature.getD [] }
    else none

/-- `none` is the exception for a buffer that is not a blob. -/
def decodeBlob (buffer : Bytes) : Option BlobData := (P.getBlob buffer).bind decodeBlobFromFb

/-- A blob survives the codec when FlatBuffers returns the table that was written. -/
theorem decodeBlob_encodeBlob (hget : ∀ fb, P.getBlob (P.finishBlob fb) = some fb)
    (blob : BlobData) : decodeBlob P (encodeBlob P blob) = some blob := by
  obtain ⟨⟨hint, hlen⟩, data, ttl, timestamp, signature⟩ := blob
  simp [decodeBlob, encodeBlob, hget, decodeBlobFromFb, List.Vector.toList, hlen]

def buildSigningInput (targetNamespace : Hash32) (data : Bytes) (ttl : UInt32)
    (timestamp : UInt64) : Hash32 :=
  P.sha3_256 (targetNamespace.toList ++ data ++ writeU32Be ttl ++ writeU64Be timestamp)

def blobHash (encodedBlob : Bytes) : Hash32 := P.sha3_256 encodedBlob

/-- The key a blob is stored under: the hash of its encoding. -/
def contentHash (blob : BlobData) : Hash32 := blobHash P (encodeBlob P blob)

/-! ## TTL and expiry -/

/-- The time a blob expires, clamped to the largest time; 0 for permanent blobs. -/
def saturatingExpiry (timestamp : UInt64) (ttl : UInt32) : UInt64 :=
  if ttl = 0 then 0
  else if timestamp > 0xFFFFFFFFFFFFFFFF - ttl.toUInt64 then 0xFFFFFFFFFFFFFFFF
  else timestamp + ttl.toUInt64

def isBlobExpired (blob : BlobData) (now : UInt64) : Bool :=
  if blob.ttl = 0 then false else decide (saturatingExpiry blob.timestamp blob.ttl ≤ now)

/-! ## Shapes -/

def TOMBSTONE_MAGIC : Bytes := [0xDE, 0xAD, 0xBE, 0xEF]

def DELEGATION_MAGIC : Bytes := [0xDE, 0x1E, 0x6A, 0x7E]

def PUBKEY_MAGIC : Bytes := [0x50, 0x55, 0x42, 0x4B]

def NAME_MAGIC : Bytes := [0x4E, 0x41, 0x4D, 0x45]

def BOMB_MAGIC : Bytes := [0x42, 0x4F, 0x4D, 0x42]

def TOMBSTONE_DATA_SIZE : Nat := 36

def DELEGATION_PUBKEY_SIZE : Nat := 2592

def DELEGATION_DATA_SIZE : Nat := 4 + DELEGATION_PUBKEY_SIZE

def PUBKEY_DATA_SIZE : Nat := 4 + 2592 + 1568

def NAME_MIN_DATA_SIZE : Nat := 4 + 2 + 0 + 32

def BOMB_MIN_DATA_SIZE : Nat := 4 + 4

/-- The comparison of the first four bytes every shape test makes. -/
def hasMagic (magic data : Bytes) : Bool := data.take 4 == magic

def isTombstone (data : Bytes) : Bool :=
  data.length == TOMBSTONE_DATA_SIZE && hasMagic TOMBSTONE_MAGIC data

/-- The bytes behind the magic; the caller has checked `isTombstone`. -/
def extractTombstoneTarget (data : Bytes) : Hash32 :=
  (readFixed 32 data 4).getD (FixedBytes.fill 32 0)

def makeTombstoneData (targetHash : Hash32) : Bytes := TOMBSTONE_MAGIC ++ targetHash.toList

def isDelegation (data : Bytes) : Bool :=
  data.length == DELEGATION_DATA_SIZE && hasMagic DELEGATION_MAGIC data

/-- The bytes behind the magic; the caller has checked `isDelegation`. -/
def extractDelegatePubkey (data : Bytes) : PubKey :=
  (readFixed 2592 data 4).getD (FixedBytes.fill 2592 0)

def makeDelegationData (delegatePubkey : PubKey) : Bytes :=
  DELEGATION_MAGIC ++ delegatePubkey.toList

def isPubkeyBlob (data : Bytes) : Bool :=
  data.length == PUBKEY_DATA_SIZE && hasMagic PUBKEY_MAGIC data

/-- The signing key of `[magic:4][signing_pk:2592][kem_pk:1568]`; the caller has checked
`isPubkeyBlob`. -/
def extractPubkSigningPk (data : Bytes) : PubKey :=
  (readFixed 2592 data 4).getD (FixedBytes.fill 2592 0)

/-- The announced length of a name. -/
def nameLen (data : Bytes) : Nat := ((readU16Be data 4).getD 0).toNat

def isName (data : Bytes) : Bool :=
  decide (NAME_MIN_DATA_SIZE ≤ data.length) && hasMagic NAME_MAGIC data &&
    data.length == 4 + 2 + nameLen data + 32

/-- The name is opaque. -/
structure NamePayload where
  name : Bytes
  targetHash : Hash32
deriving DecidableEq

def parseNamePayload (data : Bytes) : Option NamePayload :=
  if isName data then
    some
      { name := (data.drop 6).take (nameLen data)
        targetHash := (readFixed 32 data (6 + nameLen data)).getD (FixedBytes.fill 32 0) }
  else none

/-- `none` is the exception for a name of more than 65535 bytes. -/
def makeNameData (name : Bytes) (targetHash : Hash32) : Option Bytes :=
  if name.length > 65535 then none
  else some (NAME_MAGIC ++ (writeU16Be (UInt16.ofNat name.length) ++ (name ++ targetHash.toList)))

def hasBombMagic (data : Bytes) : Bool :=
  decide (BOMB_MIN_DATA_SIZE ≤ data.length) && hasMagic BOMB_MAGIC data

/-- The announced number of targets. -/
def bombCount (data : Bytes) : Nat := ((readU32Be data 4).getD 0).toNat

def isBomb (data : Bytes) : Bool := hasBombMagic data && data.length == 8 + bombCount data * 32

def validateBombStructure (data : Bytes) : Bool := isBomb data

/-- The caller has checked `isBomb`, so that every read is inside the data. -/
def extractBombTargets (data : Bytes) : List Hash32 :=
  (decodeHashes data (bombCount data) 8).getD []

/-- `none` is the exception for more than `UINT32_MAX` targets. -/
def makeBombData (targets : List Hash32) : Option Bytes :=
  if targets.length > 0xFFFFFFFF then none
  else some (BOMB_MAGIC ++ (writeU32Be (UInt32.ofNat targets.length) ++ encodeHashes targets))

/-- The first four bytes of the data, zero when it is shorter. -/
def extractBlobType (data : Bytes) : FixedBytes 4 := (readFixed 4 data 0).getD (FixedBytes.fill 4 0)

/-! ## The shapes exclude each other -/

theorem magic_unique {magic magic' data : Bytes} (h : hasMagic magic data = true)
    (h' : hasMagic magic' data = true) : magic = magic' := by
  simp only [hasMagic, beq_iff_eq] at h h'
  exact h.symm.trans h'

theorem hasMagic_of_isTombstone {data : Bytes} (h : isTombstone data = true) :
    hasMagic TOMBSTONE_MAGIC data = true := by
  simp only [isTombstone, Bool.and_eq_true] at h
  exact h.2

theorem hasMagic_of_isDelegation {data : Bytes} (h : isDelegation data = true) :
    hasMagic DELEGATION_MAGIC data = true := by
  simp only [isDelegation, Bool.and_eq_true] at h
  exact h.2

theorem hasMagic_of_isPubkeyBlob {data : Bytes} (h : isPubkeyBlob data = true) :
    hasMagic PUBKEY_MAGIC data = true := by
  simp only [isPubkeyBlob, Bool.and_eq_true] at h
  exact h.2

theorem hasBombMagic_of_isBomb {data : Bytes} (h : isBomb data = true) :
    hasBombMagic data = true := by
  simp only [isBomb, Bool.and_eq_true] at h
  exact h.1

theorem hasMagic_of_hasBombMagic {data : Bytes} (h : hasBombMagic data = true) :
    hasMagic BOMB_MAGIC data = true := by
  simp only [hasBombMagic, Bool.and_eq_true] at h
  exact h.2

section Exclusive

variable {data : Bytes}

theorem eq_false_of_magic {magic other : Bytes} {p : Bool} (h : hasMagic magic data = true)
    (hp : p = true → hasMagic other data = true) (hne : magic ≠ other) : p = false := by
  by_contra hother
  exact hne (magic_unique h (hp (Bool.eq_true_of_not_eq_false hother)))

theorem hasBombMagic_of_isTombstone (h : isTombstone data = true) : hasBombMagic data = false :=
  eq_false_of_magic (hasMagic_of_isTombstone h) hasMagic_of_hasBombMagic (by decide)

theorem isBomb_of_isTombstone (h : isTombstone data = true) : isBomb data = false := by
  simp [isBomb, hasBombMagic_of_isTombstone h]

theorem isPubkeyBlob_of_isTombstone (h : isTombstone data = true) : isPubkeyBlob data = false :=
  eq_false_of_magic (hasMagic_of_isTombstone h) hasMagic_of_isPubkeyBlob (by decide)

theorem isDelegation_of_isTombstone (h : isTombstone data = true) : isDelegation data = false :=
  eq_false_of_magic (hasMagic_of_isTombstone h) hasMagic_of_isDelegation (by decide)

theorem hasBombMagic_of_isPubkeyBlob (h : isPubkeyBlob data = true) : hasBombMagic data = false :=
  eq_false_of_magic (hasMagic_of_isPubkeyBlob h) hasMagic_of_hasBombMagic (by decide)

theorem isPubkeyBlob_of_isBomb (h : isBomb data = true) : isPubkeyBlob data = false :=
  eq_false_of_magic (hasMagic_of_hasBombMagic (hasBombMagic_of_isBomb h))
    hasMagic_of_isPubkeyBlob (by decide)

theorem isDelegation_of_isBomb (h : isBomb data = true) : isDelegation data = false :=
  eq_false_of_magic (hasMagic_of_hasBombMagic (hasBombMagic_of_isBomb h))
    hasMagic_of_isDelegation (by decide)

end Exclusive

/-! ## What is built is recognised and read back -/

theorem length_of_isName {data : Bytes} (h : isName data = true) :
    data.length = 38 + nameLen data := by
  simp only [isName, Bool.and_eq_true, beq_iff_eq] at h
  omega

theorem parse_makeNameData {name : Bytes} {targetHash : Hash32} {data : Bytes}
    (h : makeNameData name targetHash = some data) :
    nameLen data = name.length ∧ parseNamePayload data = some ⟨name, targetHash⟩ := by
  obtain ⟨hle, rfl⟩ : name.length ≤ 65535 ∧
      NAME_MAGIC ++ (writeU16Be (UInt16.ofNat name.length) ++
          (name ++ targetHash.toList)) = data := by
    rw [makeNameData] at h
    split_ifs at h with hlong
    exact ⟨by omega, Option.some.inj h⟩
  set data :=
    NAME_MAGIC ++ (writeU16Be (UInt16.ofNat name.length) ++ (name ++ targetHash.toList)) with hdata
  have hlen : nameLen data = name.length := by
    have hread : readU16Be data 4 = some (UInt16.ofNat name.length) :=
      readU16Be_append NAME_MAGIC _ _
    rw [nameLen, hread, Option.getD_some,
      UInt16.toNat_ofNat_of_lt' (by simp only [UInt16.size]; omega)]
  have hsize : data.length = 38 + name.length := by
    simp [hdata, NAME_MAGIC]
    omega
  have hname : isName data = true := by
    have hmagic : hasMagic NAME_MAGIC data = true := by simp [hasMagic, hdata, NAME_MAGIC]
    simp only [isName, hmagic, hlen, hsize, NAME_MIN_DATA_SIZE, Bool.and_true, Bool.and_eq_true,
      decide_eq_true_eq, beq_iff_eq]
    omega
  have hdrop : data.drop 6 = name ++ targetHash.toList := by simp [hdata, NAME_MAGIC]
  have htarget : readFixed 32 data (6 + name.length) = some targetHash := by
    have hheader : (NAME_MAGIC ++ writeU16Be (UInt16.ofNat name.length) ++ name).length =
        6 + name.length := by
      simp [NAME_MAGIC]
      omega
    rw [hdata, ← List.append_assoc, ← List.append_assoc, readFixed_skip hheader.le,
      hheader, Nat.sub_self, readFixed_toList]
  refine ⟨hlen, ?_⟩
  rw [parseNamePayload, if_pos hname, hlen, hdrop, htarget, List.take_left]
  rfl

theorem bomb_makeBombData {targets : List Hash32} {data : Bytes}
    (h : makeBombData targets = some data) :
    isBomb data = true ∧ extractBombTargets data = targets := by
  obtain ⟨hle, rfl⟩ : targets.length ≤ 0xFFFFFFFF ∧
      BOMB_MAGIC ++ (writeU32Be (UInt32.ofNat targets.length) ++ encodeHashes targets) = data := by
    rw [makeBombData] at h
    split at h
    · exact absurd h (by simp)
    · exact ⟨by omega, by simpa using h⟩
  have hcount : bombCount (BOMB_MAGIC ++ (writeU32Be (UInt32.ofNat targets.length) ++
      encodeHashes targets)) = targets.length := by
    rw [bombCount, readU32Be_skip (by simp [BOMB_MAGIC])]
    simp [BOMB_MAGIC]
    omega
  constructor
  · rw [isBomb, hcount]
    simp [hasBombMagic, BOMB_MIN_DATA_SIZE, hasMagic, BOMB_MAGIC]
    omega
  · rw [extractBombTargets, hcount, decodeHashes_skip (by simp [BOMB_MAGIC])]
    simp [BOMB_MAGIC]

/-- The data of a PUBK blob. -/
def makePubkData (signingPk : PubKey) (kemPk : FixedBytes 1568) : Bytes :=
  PUBKEY_MAGIC ++ (signingPk.toList ++ kemPk.toList)

@[simp] theorem isPubkeyBlob_makePubkData (signingPk : PubKey) (kemPk : FixedBytes 1568) :
    isPubkeyBlob (makePubkData signingPk kemPk) = true := by
  simp [isPubkeyBlob, makePubkData, PUBKEY_DATA_SIZE, PUBKEY_MAGIC, hasMagic]

@[simp] theorem extractPubkSigningPk_makePubkData (signingPk : PubKey) (kemPk : FixedBytes 1568) :
    extractPubkSigningPk (makePubkData signingPk kemPk) = signingPk := by
  rw [extractPubkSigningPk, makePubkData, show (4 : Nat) = PUBKEY_MAGIC.length from rfl,
    readFixed_append, Option.getD_some]

end Wire
