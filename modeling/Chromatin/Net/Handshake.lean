import Chromatin.Net.Connection
import Chromatin.Wire.Codec

/-!
# The handshake (`net/handshake.cpp`, `net/auth_helpers.h`, `Connection::do_handshake`)

Both ends derive session keys, either from exchanged nonces (lightweight, when both trust the
other) or from a key encapsulation (PQ), and then each sends its signing key and a signature over
the session fingerprint in an encrypted `AuthSignature` message. An initiator that trusts its peer
may be told to fall back to PQ.

Each path is a function of what this end holds (`Local`) and of what the socket does (`Io`): the
bytes the remote end sends, whatever they are, and which writes succeed. `none` is a failed
handshake. The fallback paths repeat the PQ paths in the source and call them here.
-/

namespace Net

open Infra Util Wire

/-! ## Roles and the payload of `AuthSignature` -/

inductive Role
  | peer
  | client
  | observer
  | admin
  | relay
deriving DecidableEq, Repr

def Role.toByte : Role → UInt8
  | .peer => 0x00
  | .client => 0x01
  | .observer => 0x02
  | .admin => 0x03
  | .relay => 0x04

/-- The roles that are implemented; any other byte is refused. -/
def Role.ofByte (byte : UInt8) : Option Role :=
  if byte = 0x00 then some .peer else if byte = 0x01 then some .client else none

structure AuthPayload where
  role : Role
  pubkey : PubKey
  signature : Bytes

def PUBLIC_KEY_SIZE : Nat := 2592

/-- `[role:1][pubkey_size:4BE][pubkey][signature]`. -/
def encodeAuthPayload (role : Role) (pubkey : PubKey) (signature : Bytes) : Bytes :=
  role.toByte :: (writeU32Be (UInt32.ofNat PUBLIC_KEY_SIZE) ++ (pubkey.toList ++ signature))

def decodeAuthPayload (data : Bytes) : Option AuthPayload := do
  let roleByte ← data[0]?
  let pkSize ← readU32Be data 1
  let role ← Role.ofByte roleByte
  guard (pkSize.toNat = PUBLIC_KEY_SIZE)
  let pubkey ← readFixed 2592 data 5
  some { role, pubkey, signature := data.drop (5 + PUBLIC_KEY_SIZE) }

/-! ## Session keys -/

/-- HKDF and the decapsulation of ML-KEM; `none` is an exception of the library. -/
structure KeyAgreement where
  /-- salt, input keying material -/
  extract : Bytes → Bytes → Bytes
  /-- pseudo-random key, context, length -/
  expand : Bytes → String → Nat → Bytes
  /-- ciphertext, secret key -/
  decaps : Bytes → Bytes → Option Bytes

structure SessionKeys where
  sendKey : Bytes
  recvKey : Bytes
  sessionFingerprint : Hash32

def KEY_SIZE : Nat := 32

section

variable (P : Primitives) (S : Suite) (K : KeyAgreement)

/-- The two directional keys, and the fingerprint. -/
def directionalKeys (prk : Bytes) (fingerprint : Hash32) (isInitiator : Bool) : SessionKeys :=
  let initToResp := K.expand prk "chromatin-init-to-resp-v1" KEY_SIZE
  let respToInit := K.expand prk "chromatin-resp-to-init-v1" KEY_SIZE
  if isInitiator then
    { sendKey := initToResp, recvKey := respToInit, sessionFingerprint := fingerprint }
  else { sendKey := respToInit, recvKey := initToResp, sessionFingerprint := fingerprint }

def deriveSessionKeys (sharedSecret : Bytes)
    (initiatorSigningPubkey responderSigningPubkey : PubKey)
    (isInitiator : Bool) : SessionKeys :=
  directionalKeys K (K.extract [] sharedSecret)
    (P.sha3_256 (sharedSecret ++ initiatorSigningPubkey.toList ++ responderSigningPubkey.toList))
    isInitiator

def deriveLightweightSessionKeys (initiatorNonce responderNonce : FixedBytes 32)
    (initiatorSigningPk responderSigningPk : PubKey) (isInitiator : Bool) : SessionKeys :=
  let ikm := initiatorNonce.toList ++ responderNonce.toList
  let salt := initiatorSigningPk.toList ++ responderSigningPk.toList
  directionalKeys K (K.extract salt ikm) (P.sha3_256 (ikm ++ salt)) isInitiator

/-- What a handshake derives its keys from. -/
inductive Derivation
  | lightweight (initiatorNonce responderNonce : FixedBytes 32) (initiatorPk responderPk : PubKey)
  | pq (sharedSecret : Bytes) (initiatorPk responderPk : PubKey)

namespace Derivation

def isLightweight : Derivation → Bool
  | .lightweight _ _ _ _ => true
  | .pq _ _ _ => false

def sessionKeys : Derivation → Bool → SessionKeys
  | .lightweight nonceI nonceR pkI pkR, isInitiator =>
    deriveLightweightSessionKeys P K nonceI nonceR pkI pkR isInitiator
  | .pq sharedSecret pkI pkR, isInitiator => deriveSessionKeys P K sharedSecret pkI pkR isInitiator

/-- The key mixed in for the remote end. -/
def remoteKey : Derivation → Bool → PubKey
  | .lightweight _ _ pkI pkR, isInitiator => if isInitiator then pkR else pkI
  | .pq _ pkI pkR, isInitiator => if isInitiator then pkR else pkI

end Derivation

/-! ## One end and its socket -/

/-- What this end holds, with the random choices of this handshake. -/
structure Local where
  publicKey : PubKey
  sign : Hash32 → Bytes
  role : Role := .peer
  isInitiator : Bool
  /-- the socket is local, or the trust check accepts the remote address -/
  peerIsTrusted : Bool
  nonce : FixedBytes 32
  kemPublicKey : FixedBytes 1568
  kemSecretKey : Bytes
  /-- ciphertext and shared secret for a KEM public key -/
  encaps : FixedBytes 1568 → Option (FixedBytes 1568 × Bytes)

/-- What the socket does: the bytes that come in, and which writes succeed. -/
structure Io where
  input : Bytes
  sends : List Bool
  sendCounter : Nat := 0
  recvCounter : Nat := 0
  /-- the frames sent -/
  sent : List Bytes := []

namespace Io

def sendRaw (io : Io) (data : Bytes) : Option Io :=
  match io.sends with
  | true :: rest => some { io with sends := rest, sent := io.sent ++ [data] }
  | _ => none

/-- A stream that ends before the frame does is a failed read. -/
def recvRaw (io : Io) : Option (Bytes × Io) :=
  match Net.recvRaw io.input with
  | .frame data rest => some (data, { io with input := rest })
  | _ => none

def sendEncrypted (io : Io) (keys : SessionKeys) (plaintext : Bytes) : Option Io :=
  if io.sendCounter ≥ NONCE_LIMIT then none
  else
    { io with sendCounter := io.sendCounter + 1 }.sendRaw
      (S.encrypt plaintext (makeNonce io.sendCounter) keys.sendKey)

def recvEncrypted (io : Io) (keys : SessionKeys) : Option (Bytes × Io) := do
  let (raw, io) ← io.recvRaw
  if io.recvCounter ≥ NONCE_LIMIT then none
  else
    let plaintext ← S.decrypt raw (makeNonce io.recvCounter) keys.recvKey
    some (plaintext, { io with recvCounter := io.recvCounter + 1 })

/-- Sign the fingerprint and send key and signature. -/
def sendAuth (io : Io) (me : Local) (keys : SessionKeys) : Option Io :=
  let payload := encodeAuthPayload me.role me.publicKey (me.sign keys.sessionFingerprint)
  io.sendEncrypted S keys (S.encode { type := TransportMsgType.AuthSignature, payload })

/-- Receive the remote end's key and signature, not yet verified. -/
def recvAuth (io : Io) (keys : SessionKeys) : Option (AuthPayload × Io) := do
  let (plaintext, io) ← io.recvEncrypted S keys
  let decoded ← S.decode plaintext
  guard (decoded.type = TransportMsgType.AuthSignature)
  let auth ← decodeAuthPayload decoded.payload
  some (auth, io)

end Io

/-- A completed handshake: `peer_role_` and `peer_pubkey_` are those of the payload that was
verified, `announced` is the message that brought the remote end's key. -/
structure Completed where
  auth : AuthPayload
  derivation : Derivation
  keys : SessionKeys
  announced : Bytes
  io : Io

def Completed.peerPubkey (done : Completed) : PubKey := done.auth.pubkey

/-! ## The paths -/

/-- `[nonce:32][signing_pubkey:2592]`. -/
def helloPayload (me : Local) : Bytes := me.nonce.toList ++ me.publicKey.toList

def parseHello (payload : Bytes) : Option (FixedBytes 32 × PubKey) := do
  guard (payload.length = 32 + PUBLIC_KEY_SIZE)
  let nonce ← readFixed 32 payload 0
  let pubkey ← readFixed 2592 payload 32
  some (nonce, pubkey)

/-- `KemPubkey` and `KemCiphertext` carry 1568 bytes of the KEM and the signing key. -/
def parseKem (type : UInt8) (msg : Bytes) : Option (FixedBytes 1568 × PubKey) := do
  let decoded ← S.decode msg
  guard (decoded.type = type)
  guard (decoded.payload.length = 1568 + PUBLIC_KEY_SIZE)
  let kem ← readFixed 1568 decoded.payload 0
  let pubkey ← readFixed 2592 decoded.payload 1568
  some (kem, pubkey)

def kemMessage (type : UInt8) (kem : FixedBytes 1568) (me : Local) : Bytes :=
  S.encode { type, payload := kem.toList ++ me.publicKey.toList }

/-- The initiator speaks first in the auth exchange. -/
def doHandshakeInitiatorPq (me : Local) (io : Io) : Option Completed := do
  let io ← io.sendRaw (kemMessage S TransportMsgType.KemPubkey me.kemPublicKey me)
  let (announced, io) ← io.recvRaw
  let (ciphertext, respSigningPk) ← parseKem S TransportMsgType.KemCiphertext announced
  let sharedSecret ← K.decaps ciphertext.toList me.kemSecretKey
  let derivation := Derivation.pq sharedSecret me.publicKey respSigningPk
  let keys := derivation.sessionKeys P K true
  let io ← io.sendAuth S me keys
  let (auth, io) ← io.recvAuth S keys
  guard (P.verify keys.sessionFingerprint auth.signature auth.pubkey)
  some { auth, derivation, keys, announced, io }

def doHandshakeInitiatorTrusted (me : Local) (io : Io) : Option Completed := do
  let io ← io.sendRaw
    (S.encode { type := TransportMsgType.TrustedHello, payload := helloPayload me })
  let (announced, io) ← io.recvRaw
  let decoded ← S.decode announced
  if decoded.type = TransportMsgType.TrustedHello then
    let (nonceR, respSigningPk) ← parseHello decoded.payload
    let derivation := Derivation.lightweight me.nonce nonceR me.publicKey respSigningPk
    let keys := derivation.sessionKeys P K true
    let io ← io.sendAuth S me keys
    let (auth, io) ← io.recvAuth S keys
    guard (auth.pubkey = respSigningPk)
    guard (P.verify keys.sessionFingerprint auth.signature auth.pubkey)
    some { auth, derivation, keys, announced, io }
  else if decoded.type = TransportMsgType.PQRequired then doHandshakeInitiatorPq P S K me io
  else none

/-- The responder with the KEM public key of the initiator at hand. -/
def doHandshakeResponderPq (me : Local) (io : Io) (announced : Bytes) : Option Completed := do
  let (kemPk, initSigningPk) ← parseKem S TransportMsgType.KemPubkey announced
  let (ciphertext, sharedSecret) ← me.encaps kemPk
  let derivation := Derivation.pq sharedSecret initSigningPk me.publicKey
  let keys := derivation.sessionKeys P K false
  let io ← io.sendRaw (kemMessage S TransportMsgType.KemCiphertext ciphertext me)
  let (auth, io) ← io.recvAuth S keys
  guard (P.verify keys.sessionFingerprint auth.signature auth.pubkey)
  let io ← io.sendAuth S me keys
  some { auth, derivation, keys, announced, io }

def doHandshakeResponderPqFallback (me : Local) (io : Io) : Option Completed := do
  let io ← io.sendRaw (S.encode { type := TransportMsgType.PQRequired, payload := [] })
  let (announced, io) ← io.recvRaw
  doHandshakeResponderPq P S K me io announced

def doHandshakeResponderTrusted (me : Local) (io : Io) (announced payload : Bytes) :
    Option Completed := do
  let (nonceI, initSigningPk) ← parseHello payload
  let io ← io.sendRaw
    (S.encode { type := TransportMsgType.TrustedHello, payload := helloPayload me })
  let derivation := Derivation.lightweight nonceI me.nonce initSigningPk me.publicKey
  let keys := derivation.sessionKeys P K false
  let (auth, io) ← io.recvAuth S keys
  guard (auth.pubkey = initSigningPk)
  guard (P.verify keys.sessionFingerprint auth.signature auth.pubkey)
  let io ← io.sendAuth S me keys
  some { auth, derivation, keys, announced, io }

def doHandshake (me : Local) (io : Io) : Option Completed :=
  if me.isInitiator then
    if me.peerIsTrusted then doHandshakeInitiatorTrusted P S K me io
    else doHandshakeInitiatorPq P S K me io
  else do
    let (firstMsg, io) ← io.recvRaw
    let decoded ← S.decode firstMsg
    if decoded.type = TransportMsgType.TrustedHello then
      if me.peerIsTrusted then doHandshakeResponderTrusted P S K me io firstMsg decoded.payload
      else doHandshakeResponderPqFallback P S K me io
    else if decoded.type = TransportMsgType.KemPubkey then
      doHandshakeResponderPq P S K me io firstMsg
    else none

end

end Net
