import Chromatin.Cli.Envelope
import Chromatin.Wire.Sample

/-!
# A concrete set of the client's functions

Stand-ins on which the commands of the client can be run. A ciphertext is the plaintext with an
empty tag, and the key of a recipient is not used. Manifests and blobs are encoded so that they can
be read back.
-/

namespace Cli.Sample

open Infra Util Wire Wire.Sample

def finishManifest (fb : FbManifest) : Bytes :=
  writeU64Be fb.totalPlaintextBytes ++ (writeU32Be fb.version ++ (writeU32Be fb.chunkSizeBytes ++
    (writeU32Be fb.segmentCount ++ (encodeOptional fb.plaintextSha3 ++
      (encodeOptional fb.chunkHashes ++ encodeOptional fb.filename)))))

def getManifest (buffer : Bytes) : Option FbManifest := do
  let totalPlaintextBytes ← readU64Be buffer 0
  let version ← readU32Be buffer 8
  let chunkSizeBytes ← readU32Be buffer 12
  let segmentCount ← readU32Be buffer 16
  let (plaintextSha3, rest) ← decodeOptional (buffer.drop 20)
  let (chunkHashes, rest) ← decodeOptional rest
  let (filename, _) ← decodeOptional rest
  some { version, chunkSizeBytes, segmentCount, totalPlaintextBytes, plaintextSha3, chunkHashes
         filename }

theorem getManifest_finishManifest (fb : FbManifest) :
    getManifest (finishManifest fb) = some fb := by
  have hname := decodeOptional_append fb.filename []
  rw [List.append_nil] at hname
  simp [getManifest, finishManifest, drop_skip, decodeOptional_append, hname]

/-- A byte of a string of JSON that is no control character. -/
def escape (c : UInt8) : Bytes := if c = 0x22 ∨ c = 0x5C then [0x5C, c] else [c]

/-- `{"name":"…","size":…}`, the text `dump` gives. -/
def dumpMetadata (name : Bytes) (size : Nat) : Bytes :=
  [0x7B, 0x22, 0x6E, 0x61, 0x6D, 0x65, 0x22, 0x3A, 0x22] ++ (name.flatMap escape ++
    ([0x22, 0x2C, 0x22, 0x73, 0x69, 0x7A, 0x65, 0x22, 0x3A] ++
      ((Nat.toDigits 10 size).map fun c => UInt8.ofNat c.toNat) ++ [0x7D]))

def toolkit : Toolkit where
  sha3_256 := hash
  encaps _ _ := (FixedBytes.fill 1568 0, FixedBytes.fill 32 0)
  hkdfDeriveKek secret := secret
  aeadEncrypt plaintext _ _ _ := plaintext ++ List.replicate Envelope.AEAD_TAG_SIZE 0
  finishManifest := finishManifest
  getManifest := getManifest
  getBlob := getBlob
  dumpMetadata := dumpMetadata

theorem length_aeadEncrypt (plaintext ad nonce : Bytes) (key : FixedBytes 32) :
    (toolkit.aeadEncrypt plaintext ad nonce key).length =
        plaintext.length + Envelope.AEAD_TAG_SIZE := by
  simp [toolkit]

theorem aeadEncrypt_injective (ad nonce : Bytes) (key : FixedBytes 32) :
    Function.Injective fun plaintext => toolkit.aeadEncrypt plaintext ad nonce key :=
  fun _ _ h => List.append_cancel_right h

open Envelope in
/-- Every ciphertext opens. -/
def opener : Opener where
  decaps _ _ := some (FixedBytes.fill 32 0)
  aeadDecrypt ct _ _ _ := some (ct.take (ct.length - AEAD_TAG_SIZE))

theorem aeadDecrypt_aeadEncrypt (plaintext ad nonce : Bytes) (key : FixedBytes 32) :
    opener.aeadDecrypt (toolkit.aeadEncrypt plaintext ad nonce key) ad nonce key =
        some plaintext := by
  simp [opener, toolkit]

end Cli.Sample
