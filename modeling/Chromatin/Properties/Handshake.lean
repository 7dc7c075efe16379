import Chromatin.Net.Handshake
import Chromatin.Properties.Transport
import Chromatin.Wire.Sample

/-!
# Whose key a handshake records

`Established` is what every path of the handshake guarantees: the keys are derived with the key
that the remote end announced in its hello or KEM message, and the signature in its `AuthSignature`
verifies over the fingerprint under the key in that message. Only the lightweight paths compare
the two keys.
-/

namespace Net

open Infra Util Wire

variable {P : Primitives} {S : Suite} {K : KeyAgreement} {me : Local} {io : Io} {done : Completed}

/-- The signing key at the end of a hello or KEM message. -/
def trailingKey (S : Suite) (msg : Bytes) : Option PubKey :=
  (S.decode msg).bind fun decoded =>
    readFixed 2592 decoded.payload (decoded.payload.length - PUBLIC_KEY_SIZE)

/-- What a completed handshake guarantees on every path. -/
structure Established (P : Primitives) (S : Suite) (K : KeyAgreement) (isInitiator : Bool)
    (done : Completed) : Prop where
  keys : done.keys = done.derivation.sessionKeys P K isInitiator
  verified : P.verify done.keys.sessionFingerprint done.auth.signature done.auth.pubkey = true
  announced : trailingKey S done.announced = some (done.derivation.remoteKey isInitiator)
  compared : done.derivation.isLightweight = true →
    done.auth.pubkey = done.derivation.remoteKey isInitiator

theorem trailingKey_of_parseKem {type : UInt8} {msg : Bytes} {kem : FixedBytes 1568}
    {pubkey : PubKey} (h : parseKem S type msg = some (kem, pubkey)) :
    trailingKey S msg = some pubkey := by
  simp only [parseKem, Option.bind_eq_bind, Option.bind_eq_some_iff, guard_eq_some,
    Option.some.injEq, Prod.mk.injEq] at h
  obtain ⟨decoded, hdecoded, -, -, -, hlength, kem', -, pubkey', hpubkey, rfl, rfl⟩ := h
  rw [trailingKey, hdecoded, Option.bind_some, hlength, Nat.add_sub_cancel, hpubkey]

theorem trailingKey_of_parseHello {msg : Bytes} {decoded : Message} {nonce : FixedBytes 32}
    {pubkey : PubKey} (hdecoded : S.decode msg = some decoded)
    (h : parseHello decoded.payload = some (nonce, pubkey)) : trailingKey S msg = some pubkey := by
  simp only [parseHello, Option.bind_eq_bind, Option.bind_eq_some_iff, guard_eq_some,
    Option.some.injEq, Prod.mk.injEq] at h
  obtain ⟨-, hlength, nonce', -, pubkey', hpubkey, rfl, rfl⟩ := h
  rw [trailingKey, hdecoded, Option.bind_some, hlength, Nat.add_sub_cancel, hpubkey]

/-! ## The paths -/

theorem established_initiatorPq (h : doHandshakeInitiatorPq P S K me io = some done) :
    Established P S K true done := by
  simp only [doHandshakeInitiatorPq, Option.bind_eq_bind, Option.bind_eq_some_iff, guard_eq_some,
    Option.some.injEq, Prod.exists] at h
  obtain ⟨_, -, announced, _, -, kem, pubkey, hkem, secret, -, _, -, auth, _, -, -, hverify, rfl⟩ :=
    h
  exact ⟨rfl, hverify, trailingKey_of_parseKem hkem,
    fun h => by simp [Derivation.isLightweight] at h⟩

theorem established_initiatorTrusted (h : doHandshakeInitiatorTrusted P S K me io = some done) :
    Established P S K true done := by
  simp only [doHandshakeInitiatorTrusted, Option.bind_eq_bind, Option.bind_eq_some_iff,
    Prod.exists] at h
  obtain ⟨_, -, announced, io', -, decoded, hdecoded, h⟩ := h
  split_ifs at h
  · simp only [Option.bind_eq_some_iff, guard_eq_some, Option.some.injEq, Prod.exists] at h
    obtain ⟨nonce, pubkey, hhello, _, -, auth, _, -, -, hsame, -, hverify, rfl⟩ := h
    exact ⟨rfl, hverify, trailingKey_of_parseHello hdecoded hhello, fun _ => hsame⟩
  · exact established_initiatorPq h

theorem established_responderPq {announced : Bytes}
    (h : doHandshakeResponderPq P S K me io announced = some done) :
    Established P S K false done := by
  simp only [doHandshakeResponderPq, Option.bind_eq_bind, Option.bind_eq_some_iff, guard_eq_some,
    Option.some.injEq, Prod.exists] at h
  obtain ⟨kem, pubkey, hkem, ct, secret, -, _, -, auth, _, -, -, hverify, _, -, rfl⟩ := h
  exact ⟨rfl, hverify, trailingKey_of_parseKem hkem,
    fun h => by simp [Derivation.isLightweight] at h⟩

theorem established_responderTrusted {announced : Bytes} {decoded : Message}
    (hdecoded : S.decode announced = some decoded)
    (h : doHandshakeResponderTrusted P S K me io announced decoded.payload = some done) :
    Established P S K false done := by
  simp only [doHandshakeResponderTrusted, Option.bind_eq_bind, Option.bind_eq_some_iff,
    guard_eq_some, Option.some.injEq, Prod.exists] at h
  obtain ⟨nonce, pubkey, hhello, _, -, auth, _, -, -, hsame, -, hverify, _, -, rfl⟩ := h
  exact ⟨rfl, hverify, trailingKey_of_parseHello hdecoded hhello, fun _ => hsame⟩

/-- **Every handshake that completes is established with the announced key.** -/
theorem established_doHandshake (h : doHandshake P S K me io = some done) :
    Established P S K me.isInitiator done := by
  unfold doHandshake at h
  cases hinitiator : me.isInitiator with
  | true =>
    simp only [hinitiator, if_true] at h
    split_ifs at h
    · exact established_initiatorTrusted h
    · exact established_initiatorPq h
  | false =>
    simp only [hinitiator, Bool.false_eq_true, if_false, Option.bind_eq_bind,
      Option.bind_eq_some_iff, Prod.exists] at h
    obtain ⟨firstMsg, io', -, decoded, hdecoded, h⟩ := h
    split_ifs at h
    · exact established_responderTrusted hdecoded h
    · simp only [doHandshakeResponderPqFallback, Option.bind_eq_bind, Option.bind_eq_some_iff,
        Prod.exists] at h
      obtain ⟨_, -, announced, _, -, h⟩ := h
      exact established_responderPq h
    · exact established_responderPq h

/-! ## Binding -/

/-- The recorded key is the one mixed in for the remote end, and the signature verifies over the
fingerprint under it. -/
structure Completed.Bound (P : Primitives) (K : KeyAgreement) (isInitiator : Bool)
    (done : Completed) : Prop where
  mixed : done.peerPubkey = done.derivation.remoteKey isInitiator
  fingerprint : done.keys = done.derivation.sessionKeys P K isInitiator
  signed : P.verify done.keys.sessionFingerprint done.auth.signature done.peerPubkey = true

/-- **Identity binding.** A completed handshake binds the recorded key exactly if it is lightweight
or the remote end's `AuthSignature` carries the key that its KEM message announced. -/
theorem handshake_binding (P : Primitives) (S : Suite) (K : KeyAgreement) (me : Local) (io : Io)
    (done : Completed) (h : doHandshake P S K me io = some done) :
    done.Bound P K me.isInitiator ↔
      done.derivation.isLightweight = true ∨
          trailingKey S done.announced = some done.auth.pubkey := by
  have hestablished := established_doHandshake h
  constructor
  · intro hbound
    right
    rw [hestablished.announced, ← hbound.mixed, Completed.peerPubkey]
  · intro hcondition
    refine ⟨?_, hestablished.keys, hestablished.verified⟩
    rcases hcondition with hlightweight | hannounced
    · exact hestablished.compared hlightweight
    · rw [hestablished.announced] at hannounced
      exact (Option.some.inj hannounced).symm

section Sample

open Wire.Sample

/-- HKDF and KEM that keep what the fingerprints depend on. -/
def sampleAgreement : KeyAgreement where
  extract _ ikm := ikm
  expand _ _ _ := []
  decaps _ _ := some [9]

/-- A responder with key 1. -/
def sampleResponder (peerIsTrusted : Bool) : Local where
  publicKey := key 1
  sign message := Sample.sign message (key 1)
  isInitiator := false
  peerIsTrusted
  nonce := owned 5
  kemPublicKey := FixedBytes.fill 1568 0
  kemSecretKey := []
  encaps _ := some (FixedBytes.fill 1568 0, [9])

/-- The `AuthSignature` frame of a remote end with the given key for a derivation. -/
def sampleAuth (derivation : Derivation) (pubkey : PubKey) : Bytes :=
  let fingerprint := (derivation.sessionKeys primitives sampleAgreement false).sessionFingerprint
  rawFrame (sampleSuite.encrypt (sampleSuite.encode
    { type := TransportMsgType.AuthSignature
      payload := encodeAuthPayload .peer pubkey (Sample.sign fingerprint pubkey) })
    (makeNonce 0) [])

/-- The bytes of an initiator that announces key 2 in its hello and signs with it. -/
def helloInput : Io where
  input := rawFrame (sampleSuite.encode
      { type := TransportMsgType.TrustedHello, payload := (owned 4).toList ++ (key 2).toList }) ++
    sampleAuth (.lightweight (owned 4) (owned 5) (key 2) (key 1)) (key 2)
  sends := [true, true]

/-- The bytes of an initiator that announces key 2 in its KEM message and signs with key 3. -/
def swappedInput : Io where
  input := rawFrame (sampleSuite.encode
      { type := TransportMsgType.KemPubkey
        payload := (FixedBytes.fill 1568 0).toList ++ (key 2).toList }) ++
    sampleAuth (.pq [9] (key 2) (key 1)) (key 3)
  sends := [true, true]

theorem handshake_binding_hello : ∃ done,
    doHandshake primitives sampleSuite sampleAgreement (sampleResponder true) helloInput =
      some done ∧
      done.Bound primitives sampleAgreement false := by
  have hsome : (doHandshake primitives sampleSuite sampleAgreement (sampleResponder true)
      helloInput).map (fun done => done.derivation.isLightweight) = some true := by
    decide +kernel
  obtain ⟨done, hdone, hlightweight⟩ := Option.map_eq_some_iff.mp hsome
  exact ⟨done, hdone, (handshake_binding primitives sampleSuite sampleAgreement
    (sampleResponder true) helloInput done hdone).mpr (.inl hlightweight)⟩

/-- The responder records key 3 although key 2 was mixed in for the initiator. -/
theorem handshake_swapped_key :
    (doHandshake primitives sampleSuite sampleAgreement (sampleResponder false) swappedInput).map
      (fun done => (decide (done.peerPubkey = key 3),
        decide (done.derivation.remoteKey false = key 2),
        decide (done.peerPubkey = done.derivation.remoteKey false))) =
        some (true, true, false) := by
  decide +kernel

end Sample

end Net
