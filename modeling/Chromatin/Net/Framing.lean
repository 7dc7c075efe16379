import Chromatin.Util.Endian

/-!
# Frames on the socket (`net/framing.h`, `net/protocol.h`, `crypto/aead.h`)

A frame is a 4-byte length and that many bytes. After the handshake the bytes are the ciphertext of
one transport message or of one sub-frame of a chunked message, encrypted under a nonce that is
made from a counter of the direction.

The AEAD and the FlatBuffers codec of the transport message are parameters (`Suite`); what is
relied on is stated in `Suite.Lawful`.
-/

namespace Net

open Infra Util

variable {data : Bytes}

/-- Largest frame that is read. -/
def MAX_FRAME_SIZE : Nat := 2 * 1024 * 1024

/-- Payloads of at least this size are sent in sub-frames of this size. -/
def STREAMING_THRESHOLD : Nat := 1048576

/-- Room for the envelope of a transport message around its payload. -/
def TRANSPORT_ENVELOPE_MARGIN : Nat := 64

def MAX_BLOB_DATA_HARD_CEILING : Nat := 64 * 1024 * 1024

def MAX_BLOB_ENVELOPE_OVERHEAD : Nat := 1024 * 1024

def MAX_CHUNKED_WIRE_PAYLOAD : Nat := MAX_BLOB_DATA_HARD_CEILING + MAX_BLOB_ENVELOPE_OVERHEAD

def TAG_SIZE : Nat := 16

/-- A decoded transport message; the type is the byte of the `TransportMsgType` enumeration. -/
structure Message where
  type : UInt8
  payload : Bytes
  requestId : UInt32 := 0
deriving DecidableEq

namespace TransportMsgType

def KemPubkey : UInt8 := 1

def KemCiphertext : UInt8 := 2

def AuthSignature : UInt8 := 3

def Ping : UInt8 := 5

def Pong : UInt8 := 6

def Goodbye : UInt8 := 7

def TrustedHello : UInt8 := 23

def PQRequired : UInt8 := 24

end TransportMsgType

/-- The AEAD and the codec of transport messages. -/
structure Suite where
  /-- plaintext, nonce, key; the associated data is empty -/
  encrypt : Bytes → Bytes → Bytes → Bytes
  /-- ciphertext, nonce, key -/
  decrypt : Bytes → Bytes → Bytes → Option Bytes
  encode : Message → Bytes
  decode : Bytes → Option Message

structure Suite.Lawful (S : Suite) : Prop where
  decrypt_encrypt : ∀ plaintext nonce key,
    S.decrypt (S.encrypt plaintext nonce key) nonce key = some plaintext
  length_encrypt : ∀ plaintext nonce key,
    (S.encrypt plaintext nonce key).length = plaintext.length + TAG_SIZE
  decode_encode : ∀ message, S.decode (S.encode message) = some message
  /-- the assertion of `enqueue_send` -/
  length_encode : ∀ message, message.payload.length < STREAMING_THRESHOLD →
    (S.encode message).length < STREAMING_THRESHOLD + TRANSPORT_ENVELOPE_MARGIN
  /-- an encoded message does not look like the start of a chunked one -/
  head_encode : ∀ message, (S.encode message).head? ≠ some 0x01

/-- Four zero bytes and the counter. -/
def makeNonce (counter : Nat) : Bytes := List.replicate 4 0 ++ writeU64Be (UInt64.ofNat counter)

/-- A frame as `send_raw` writes it; the length is a `uint32_t`. -/
def rawFrame (data : Bytes) : Bytes := writeU32Be (UInt32.ofNat data.length) ++ data

/-- What `recv_raw` makes of the bytes it can read so far. -/
inductive RawRead
  /-- it waits for more bytes -/
  | pending
  /-- the announced length is too large -/
  | tooLarge
  | frame (data rest : Bytes)

def recvRaw (stream : Bytes) : RawRead :=
  match readU32Be stream 0 with
  | none => .pending
  | some len =>
    if len.toNat > MAX_FRAME_SIZE then .tooLarge
    else if stream.length < 4 + len.toNat then .pending
    else .frame ((stream.drop 4).take len.toNat) (stream.drop (4 + len.toNat))

/-! ## Reading what was written -/

@[simp] theorem length_rawFrame (data : Bytes) : (rawFrame data).length = 4 + data.length := by
  simp [rawFrame]

/-- The length of a frame that may be read. -/
theorem readU32Be_rawFrame (rest : Bytes) (hsize : data.length ≤ MAX_FRAME_SIZE) :
    ∃ len, readU32Be (rawFrame data ++ rest) 0 = some len ∧ len.toNat = data.length := by
  refine ⟨UInt32.ofNat data.length, ?_, UInt32.toNat_ofNat_of_lt' ?_⟩
  · rw [rawFrame, List.append_assoc]
    exact readU32Be_append [] _ _
  · exact Nat.lt_of_le_of_lt hsize (by decide)

/-- The reader gets a frame that is there in full. -/
theorem recvRaw_rawFrame (rest : Bytes) (hsize : data.length ≤ MAX_FRAME_SIZE) :
    recvRaw (rawFrame data ++ rest) = .frame data rest := by
  obtain ⟨len, hread, hlen⟩ := readU32Be_rawFrame rest hsize
  have hlength : (writeU32Be (UInt32.ofNat data.length)).length = 4 := length_writeU32Be _
  unfold recvRaw
  rw [hread]
  dsimp only
  rw [if_neg (by omega), if_neg (by simp [hlen]), hlen, ← length_rawFrame, List.drop_left,
    rawFrame, List.append_assoc, List.drop_left' hlength, List.take_left' rfl]

/-- Of a stream that starts with a frame, the reader waits or gets that frame. -/
theorem recvRaw_of_prefix {stream rest : Bytes} (hsize : data.length ≤ MAX_FRAME_SIZE)
    (hbegins : stream <+: rawFrame data ++ rest) :
    recvRaw stream = .pending ∨
      ∃ tail, stream = rawFrame data ++ tail ∧ tail <+: rest ∧
        recvRaw stream = .frame data tail := by
  obtain ⟨missing, hmissing⟩ := hbegins
  obtain ⟨len, hread, hlen⟩ := readU32Be_rawFrame rest hsize
  by_cases hshort : stream.length < 4 + data.length
  · left
    unfold recvRaw
    cases hhead : readU32Be stream 0 with
    | none => rfl
    | some len' =>
      have hsame := readU32Be_extend hhead missing
      rw [hmissing, hread] at hsame
      obtain rfl := Option.some.inj hsame
      dsimp only
      rw [if_neg (by omega), if_pos (by omega)]
  · right
    have htake : rawFrame data <+: stream := by
      refine List.prefix_of_prefix_length_le ⟨rest, rfl⟩ ⟨missing, hmissing⟩ ?_
      simp only [length_rawFrame]
      omega
    obtain ⟨tail, htail⟩ := htake
    subst htail
    refine ⟨tail, rfl, ?_, recvRaw_rawFrame tail hsize⟩
    rw [List.append_assoc] at hmissing
    exact ⟨missing, List.append_cancel_left hmissing⟩

end Net
