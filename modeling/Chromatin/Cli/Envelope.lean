import Chromatin.Wire.Codec
import Chromatin.Infra.Slices

/-!
# The client's third-party functions and envelopes (`cli/src/envelope.cpp`)

An envelope is a header, one stanza for each recipient with the data key wrapped for it, and the
plaintext in segments of 1 MiB that are encrypted one by one.

`Toolkit` is what the client calls of SHA3-256, ML-KEM-1024, libsodium, FlatBuffers and the JSON
library, `Opener` what it calls besides to open an envelope. A failing primitive is not modelled.
-/

namespace Cli

open Infra Util Wire

/-! ## Types of blobs (`cli/src/wire.h`) -/

def NAME_MAGIC : FixedBytes 4 := ⟨[0x4E, 0x41, 0x4D, 0x45], rfl⟩

def CDAT_MAGIC : FixedBytes 4 := ⟨[0x43, 0x44, 0x41, 0x54], rfl⟩

def CPAR_MAGIC : FixedBytes 4 := ⟨[0x43, 0x50, 0x41, 0x52], rfl⟩

/-! ## Third-party functions -/

/-- The `Manifest` table of the FlatBuffers schema: every vector may be absent. -/
structure FbManifest where
  version : UInt32
  chunkSizeBytes : UInt32
  segmentCount : UInt32
  totalPlaintextBytes : UInt64
  plaintextSha3 : Option Bytes
  chunkHashes : Option Bytes
  filename : Option Bytes

structure Toolkit where
  sha3_256 : Bytes → Hash32
  /-- `OQS_KEM_encaps`: public key and random coins to ciphertext and shared secret -/
  encaps : Bytes → Bytes → FixedBytes 1568 × FixedBytes 32
  hkdfDeriveKek : FixedBytes 32 → FixedBytes 32
  /-- `crypto_aead_chacha20poly1305_ietf_encrypt`: plaintext, associated data, nonce, key -/
  aeadEncrypt : Bytes → Bytes → Bytes → FixedBytes 32 → Bytes
  finishManifest : FbManifest → Bytes
  /-- `none` when the buffer is too short or the root lies outside of it -/
  getManifest : Bytes → Option FbManifest
  getBlob : Bytes → Option FbBlob
  /-- the JSON text of `{"name": .., "size": ..}` -/
  dumpMetadata : Bytes → Nat → Bytes

structure Opener where
  /-- `OQS_KEM_decaps`: secret key and ciphertext to shared secret -/
  decaps : Bytes → Bytes → Option (FixedBytes 32)
  /-- `crypto_aead_chacha20poly1305_ietf_decrypt`: ciphertext, associated data, nonce, key -/
  aeadDecrypt : Bytes → Bytes → Bytes → FixedBytes 32 → Option Bytes

namespace Envelope

def KEM_PK_SIZE : Nat := 1568

def KEM_CT_SIZE : Nat := 1568

def KEM_SK_SIZE : Nat := 3168

def PK_HASH_SIZE : Nat := 32

def PK_HASH_PLUS_CT : Nat := 1600

def AEAD_TAG_SIZE : Nat := 16

def STANZA_SIZE : Nat := 1648

def HEADER_SIZE : Nat := 20

def SEGMENT_SIZE : Nat := 1048576

def MAGIC : Bytes := [0x43, 0x45, 0x4E, 0x56]

def VERSION : UInt8 := 0x01

def SUITE : UInt8 := 0x01

/-- The random values of one call of `encrypt`. -/
structure Coins where
  dek : FixedBytes 32
  dataNonce : FixedBytes 12
  /-- for the encapsulation to the recipient at an index -/
  encaps : Nat → Bytes

/-- The last four bytes are combined with the segment index. -/
def segmentNonce (baseNonce : FixedBytes 12) (segmentIndex : Nat) : Bytes :=
  baseNonce.toList.take 8 ++
    List.zipWith (· ^^^ ·) (baseNonce.toList.drop 8) (writeU32Be (UInt32.ofNat segmentIndex))

structure StanzaBuilder where
  pkHash : Hash32
  kemCt : FixedBytes 1568
  sharedSecret : FixedBytes 32

section

variable (T : Toolkit)

def stanzaBuilder (coins : Coins) (i : Nat) (pubkey : Bytes) : StanzaBuilder :=
  let (kemCt, sharedSecret) := T.encaps pubkey (coins.encaps i)
  { pkHash := T.sha3_256 pubkey, kemCt, sharedSecret }

/-- Sorted by the hash of the key. -/
def stanzaBuilders (coins : Coins) (recipients : List Bytes) : List StanzaBuilder :=
  (recipients.mapIdx (stanzaBuilder T coins)).mergeSort fun a b => decide (a.pkHash ≤ b.pkHash)

def header (coins : Coins) (count : Nat) : Bytes :=
  MAGIC ++ ([VERSION, SUITE] ++ (toBigEndian 2 count ++ coins.dataNonce.toList))

/-- The stanzas; the data key is wrapped with the header and the stanzas before as associated
data. -/
def wrapStanzas (dek : FixedBytes 32) : Bytes → List StanzaBuilder → List Bytes
  | _, [] => []
  | ad, s :: rest =>
    let opening := s.pkHash.toList ++ s.kemCt.toList
    (opening ++ T.aeadEncrypt dek.toList ad (List.replicate 12 0)
      (T.hkdfDeriveKek s.sharedSecret)) ::
      wrapStanzas dek (ad ++ opening) rest

/-- `n` segments from the index `seg` on. -/
def encryptSegments (coins : Coins) (ad : Bytes) : Nat → Nat → Bytes → Bytes
  | _, 0, _ => []
  | seg, n + 1, rest =>
    T.aeadEncrypt (rest.take SEGMENT_SIZE) ad (segmentNonce coins.dataNonce seg) coins.dek ++
      encryptSegments coins ad (seg + 1) n (rest.drop SEGMENT_SIZE)

/-- A `uint32_t`; an empty plaintext is one empty segment. -/
def segmentCount (size : Nat) : Nat :=
  let count := (size + SEGMENT_SIZE - 1) / SEGMENT_SIZE % 2 ^ 32
  if count = 0 then 1 else count

/-- `none` is the exception for no recipients, too many of them, or a key of the wrong size. -/
def encrypt (coins : Coins) (plaintext : Bytes) (recipients : List Bytes) : Option Bytes :=
  if recipients = [] then none
  else if recipients.length > 65535 then none
  else if recipients.any (fun pk => pk.length != KEM_PK_SIZE) then none
  else
    let stanzas := stanzaBuilders T coins recipients
    let header := header coins stanzas.length
    let wrapped := wrapStanzas T coins.dek header stanzas
    let ad := header ++ wrapped.flatten
    some (ad ++ encryptSegments T coins ad 0 (segmentCount plaintext.length) plaintext)

end

/-! ## Opening an envelope -/

/-- The stanza at an index. -/
def stanzaAt (envelope : Bytes) (i : Nat) : Bytes :=
  sliceAt envelope (HEADER_SIZE + i * STANZA_SIZE) STANZA_SIZE

/-- The plaintext of a ciphertext region from the segment index `seg` on. -/
def decryptSegments (O : Opener) (baseNonce : FixedBytes 12) (ad : Bytes)
    (dek : FixedBytes 32) (seg : Nat)
    (region : Bytes) : Option Bytes :=
  if region.length = 0 then some []
  else
    let segCt := region.take (SEGMENT_SIZE + AEAD_TAG_SIZE)
    if segCt.length < AEAD_TAG_SIZE then none
    else do
      let plaintext ← O.aeadDecrypt segCt ad (segmentNonce baseNonce seg) dek
      let rest ← decryptSegments O baseNonce ad dek (seg + 1)
        (region.drop (SEGMENT_SIZE + AEAD_TAG_SIZE))
      some (plaintext ++ rest)
termination_by region.length
decreasing_by
  rw [List.length_drop, SEGMENT_SIZE]
  omega

/-- The first stanza with the hash of our key is ours. -/
def decrypt (T : Toolkit) (O : Opener) (envelope ourSeckey ourPubkey : Bytes) : Option Bytes := do
  guard (HEADER_SIZE ≤ envelope.length)
  guard (envelope.take 4 = MAGIC)
  guard (envelope[4]? = some VERSION ∧ envelope[5]? = some SUITE)
  guard (ourSeckey.length = KEM_SK_SIZE ∧ ourPubkey.length = KEM_PK_SIZE)
  let recipientCount := ofBigEndian (sliceAt envelope 6 2)
  guard (recipientCount ≠ 0)
  let opening := HEADER_SIZE + recipientCount * STANZA_SIZE
  guard (opening + AEAD_TAG_SIZE ≤ envelope.length)
  let dataNonce ← readFixed 12 envelope 8
  let ourPkHash := T.sha3_256 ourPubkey
  let i ← (List.range recipientCount).find? fun i =>
    (stanzaAt envelope i).take PK_HASH_SIZE == ourPkHash.toList
  let stanza := stanzaAt envelope i
  let sharedSecret ← O.decaps ourSeckey (sliceAt stanza PK_HASH_SIZE KEM_CT_SIZE)
  let wrapAd := envelope.take HEADER_SIZE ++
    (List.range i).flatMap fun j => (stanzaAt envelope j).take PK_HASH_PLUS_CT
  let unwrapped ← O.aeadDecrypt (stanza.drop PK_HASH_PLUS_CT) wrapAd (List.replicate 12 0)
    (T.hkdfDeriveKek sharedSecret)
  let dek ← readFixed 32 unwrapped 0
  decryptSegments O dataNonce (envelope.take opening) dek 0 (envelope.drop opening)

/-! ## The header -/

theorem length_header (coins : Coins) (count : Nat) :
    (header coins count).length = HEADER_SIZE := by
  simp [header, MAGIC, HEADER_SIZE]

/-- The number of stanzas stands in the header. -/
theorem recipientCount_header (coins : Coins) {count : Nat} (h : count ≤ 65535) (tail : Bytes) :
    ofBigEndian (sliceAt (header coins count ++ tail) 6 2) = count := by
  have hfield : sliceAt (header coins count ++ tail) 6 2 = toBigEndian 2 count := by
    simp [sliceAt, header, MAGIC]
  rw [hfield]
  exact ofBigEndian_toBigEndian (Nat.lt_of_le_of_lt h (by decide))

theorem dataNonce_header (coins : Coins) (count : Nat) (tail : Bytes) :
    readFixed 12 (header coins count ++ tail) 8 = some coins.dataNonce := by
  simp [header, MAGIC]

/-! ## The size of an envelope -/

/-- A ciphertext is as long as the plaintext with its tag. -/
def TagSized (T : Toolkit) : Prop :=
  ∀ plaintext ad nonce key,
    (T.aeadEncrypt plaintext ad nonce key).length = plaintext.length + AEAD_TAG_SIZE

section Size

variable {T : Toolkit} (htag : TagSized T)

include htag

theorem length_wrapStanzas (dek : FixedBytes 32) : ∀ (stanzas : List StanzaBuilder) (ad : Bytes),
    (wrapStanzas T dek ad stanzas).flatten.length = stanzas.length * STANZA_SIZE
  | [], _ => by simp [wrapStanzas]
  | s :: rest, ad => by
    rw [wrapStanzas, List.flatten_cons, List.length_append, length_wrapStanzas dek rest,
      List.length_append, htag, List.length_cons]
    simp only [List.length_append, List.Vector.toList_length, AEAD_TAG_SIZE, STANZA_SIZE]
    omega

/-- Every segment has a tag; what the segments do not reach is lost. -/
theorem length_encryptSegments (coins : Coins) (ad : Bytes) (n seg : Nat) (rest : Bytes) :
    (encryptSegments T coins ad seg n rest).length =
      min rest.length (n * SEGMENT_SIZE) + n * AEAD_TAG_SIZE := by
  induction n generalizing seg rest with
  | zero => simp [encryptSegments]
  | succ n ih =>
    rw [encryptSegments, List.length_append, htag, ih, List.length_take, List.length_drop,
      Nat.add_mul, Nat.add_mul, Nat.one_mul, Nat.one_mul]
    omega

end Size

/-- The segments cover the plaintext, unless their number overflows. -/
theorem le_segmentCount {size : Nat} (h : size ≤ (2 ^ 32 - 1) * SEGMENT_SIZE) :
    size ≤ segmentCount size * SEGMENT_SIZE := by
  replace h : size ≤ 2 ^ 52 - 2 ^ 20 := h
  unfold segmentCount SEGMENT_SIZE
  dsimp only
  split_ifs <;> omega

/-- All segments but the last one are full. -/
theorem segmentCount_pred_le (size : Nat) : (segmentCount size - 1) * SEGMENT_SIZE ≤ size := by
  unfold segmentCount SEGMENT_SIZE
  dsimp only
  split_ifs <;> omega

/-- Header, stanzas, plaintext and tags. The segments cover the plaintext unless their number
overflows. -/
def envelopeSize (recipientCount size : Nat) : Nat :=
  HEADER_SIZE + recipientCount * STANZA_SIZE + min size (segmentCount size * SEGMENT_SIZE) +
    segmentCount size * AEAD_TAG_SIZE

theorem isSome_encrypt {T : Toolkit} {coins : Coins} {plaintext : Bytes} {recipients : List Bytes}
    (hsome : recipients ≠ []) (hmany : recipients.length ≤ 65535)
    (hkeys : ∀ pk ∈ recipients, pk.length = KEM_PK_SIZE) :
    (encrypt T coins plaintext recipients).isSome = true := by
  have hany : ¬recipients.any (fun pk => pk.length != KEM_PK_SIZE) = true := by
    simpa using hkeys
  rw [encrypt, if_neg hsome, if_neg (Nat.not_lt.mpr hmany), if_neg hany]
  rfl

theorem length_encrypt {T : Toolkit} (htag : TagSized T)
    {coins : Coins} {plaintext envelope : Bytes} {recipients : List Bytes}
    (h : encrypt T coins plaintext recipients = some envelope) :
    envelope.length = envelopeSize recipients.length plaintext.length := by
  unfold encrypt at h
  split_ifs at h
  obtain rfl := Option.some.inj h
  have hcount : (stanzaBuilders T coins recipients).length = recipients.length := by
    simp [stanzaBuilders]
  rw [List.length_append, List.length_append, length_header, length_wrapStanzas htag,
    length_encryptSegments htag, hcount, envelopeSize]
  omega

end Envelope

end Cli
