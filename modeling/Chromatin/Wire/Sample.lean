import Chromatin.Wire.Codec

/-!
# A concrete set of primitives

Small stand-ins for SHA3-256, ML-DSA-87 and FlatBuffers on which the model can be run: the hash
keeps the first 32 bytes, a signature is the first byte of the key before the message, and the
codec marks every byte of a vector. They are enough where no two inputs of a run share their
first 32 bytes.
-/

namespace Wire.Sample

open Infra Util

/-! ## The codec -/

def encodeVector : Bytes → Bytes
  | [] => [0]
  | b :: rest => 1 :: b :: encodeVector rest

def decodeVector : Bytes → Option (Bytes × Bytes)
  | [] => none
  | [mark] => if mark = 0 then some ([], []) else none
  | mark :: b :: rest =>
    if mark = 0 then some ([], b :: rest)
    else (decodeVector rest).map fun (v, tail) => (b :: v, tail)

theorem decodeVector_append : ∀ v tail :
    Bytes, decodeVector (encodeVector v ++ tail) = some (v, tail)
  | [], [] => rfl
  | [], _ :: _ => rfl
  | b :: v, tail => by simp [encodeVector, decodeVector, decodeVector_append v tail]

def encodeOptional : Option Bytes → Bytes
  | none => [0]
  | some v => 1 :: encodeVector v

def decodeOptional : Bytes → Option (Option Bytes × Bytes)
  | [] => none
  | mark :: rest =>
    if mark = 0 then some (none, rest) else (decodeVector rest).map fun (v, tail) => (some v, tail)

theorem decodeOptional_append (v : Option Bytes) (tail : Bytes) :
    decodeOptional (encodeOptional v ++ tail) = some (v, tail) := by
  cases v with
  | none => rfl
  | some v => simp [encodeOptional, decodeOptional, decodeVector_append]

def finishBlob (fb : FbBlob) : Bytes :=
  writeU64Be fb.timestamp ++ (writeU32Be fb.ttl ++ (encodeOptional fb.signerHint ++
    (encodeOptional fb.signature ++ encodeOptional fb.data)))

def getBlob (buffer : Bytes) : Option FbBlob := do
  let timestamp ← readU64Be buffer 0
  let ttl ← readU32Be buffer 8
  let (signerHint, rest) ← decodeOptional (buffer.drop 12)
  let (signature, rest) ← decodeOptional rest
  let (data, _) ← decodeOptional rest
  some { signerHint, data, ttl, timestamp, signature }

theorem getBlob_finishBlob (fb : FbBlob) : getBlob (finishBlob fb) = some fb := by
  have hdata := decodeOptional_append fb.data []
  rw [List.append_nil] at hdata
  simp [getBlob, finishBlob, drop_skip, decodeOptional_append, hdata]

/-! ## Keys and signatures -/

def hash (bytes : Bytes) : Hash32 := ⟨(bytes ++ List.replicate 32 0).take 32, by simp⟩

def sign (message : Hash32) (pubkey : PubKey) : Bytes := pubkey.head :: message.toList

def primitives : Primitives where
  sha3_256 := hash
  verify message signature pubkey := signature == sign message pubkey
  finishBlob := finishBlob
  getBlob := getBlob

/-- The key all of whose bytes are `n`; it owns the namespace all of whose bytes are `n`. -/
def key (n : UInt8) : PubKey := FixedBytes.fill 2592 n

def owned (n : UInt8) : Hash32 := FixedBytes.fill 32 n

theorem hash_key (n : UInt8) : primitives.sha3_256 (key n).toList = owned n := by
  apply List.Vector.toList_injective
  have hlength : 32 ≤ (key n).toList.length := by rw [List.Vector.toList_length]; omega
  have htake : ((key n).toList ++ List.replicate 32 0).take 32 = List.replicate 32 n := by
    rw [List.take_append_of_le_length hlength]
    exact List.take_replicate
  exact htake

/-- The blob with these contents that the key signs for the namespace. -/
def signed (pubkey : PubKey) (ns signerHint : Hash32) (data : Bytes) (ttl : UInt32)
    (timestamp : UInt64) : BlobData where
  signerHint
  data
  ttl
  timestamp
  signature := sign (buildSigningInput primitives ns data ttl timestamp) pubkey

theorem verify_signed (pubkey : PubKey) (ns signerHint : Hash32) (data : Bytes) (ttl : UInt32)
    (timestamp : UInt64) :
    primitives.verify (buildSigningInput primitives ns data ttl timestamp)
      (signed pubkey ns signerHint data ttl timestamp).signature pubkey = true := by
  simp [primitives, signed]

/-- The time can be read off the hash. -/
theorem readU64Be_contentHash (blob : BlobData) :
    readU64Be ((contentHash primitives blob).toList.take 8) 0 = some blob.timestamp := by
  have htake : (contentHash primitives blob).toList.take 8 = writeU64Be blob.timestamp := by
    show ((finishBlob _ ++ List.replicate 32 0).take 32).take 8 = _
    rw [List.take_take, finishBlob, List.append_assoc]
    exact List.take_left' (length_writeU64Be _)
  rw [htake, readU64Be_writeU64Be]

/-- Blobs of different times have different hashes. -/
theorem timestamp_eq_of_contentHash {a b : BlobData}
    (h : contentHash primitives a = contentHash primitives b) : a.timestamp = b.timestamp := by
  have hread := readU64Be_contentHash a
  rw [h, readU64Be_contentHash b] at hread
  exact (Option.some.inj hread).symm

/-- A delegation of the namespace 1 to the key 2. -/
def grant (timestamp : UInt64) : BlobData :=
  signed (key 1) (owned 1) (owned 1) (makeDelegationData (key 2)) 0 timestamp

/-- A PUBK with the key `n`, signed for the namespace it owns. It is irreducible: its data is too
long to be computed with. -/
@[irreducible] def pubk (n : UInt8) (signerHint : Hash32) (timestamp : UInt64) : BlobData :=
  signed (key n) (owned n) signerHint (makePubkData (key n) (FixedBytes.fill 1568 0)) 0 timestamp

section

variable (n : UInt8) (signerHint : Hash32) (timestamp : UInt64)

@[simp] theorem pubk_signerHint : (pubk n signerHint timestamp).signerHint = signerHint := by
  rw [pubk, signed]

@[simp] theorem pubk_ttl : (pubk n signerHint timestamp).ttl = 0 := by rw [pubk, signed]

@[simp] theorem pubk_timestamp : (pubk n signerHint timestamp).timestamp = timestamp := by
  rw [pubk, signed]

@[simp] theorem isPubkeyBlob_pubk : isPubkeyBlob (pubk n signerHint timestamp).data = true := by
  rw [pubk, signed]
  exact isPubkeyBlob_makePubkData _ _

@[simp] theorem extractPubkSigningPk_pubk :
    extractPubkSigningPk (pubk n signerHint timestamp).data = key n := by
  rw [pubk, signed]
  exact extractPubkSigningPk_makePubkData _ _

theorem signature_pubk : (pubk n signerHint timestamp).signature ≠ [] := by
  simp [pubk, signed, sign]

theorem verify_pubk : primitives.verify
    (buildSigningInput primitives (owned n) (pubk n signerHint timestamp).data
      (pubk n signerHint timestamp).ttl (pubk n signerHint timestamp).timestamp)
    (pubk n signerHint timestamp).signature (key n) = true := by
  rw [pubk]
  exact verify_signed _ _ _ _ _ _

end

end Wire.Sample
