import Chromatin.Properties.Handshake

/-!
# Completion of a handshake

Two honest ends, each of which reads the frames that the other has sent, complete the handshake
whatever their trust is: with the nonces when both trust, with the KEM when the initiator does not,
and with the KEM after `PQRequired` when only the initiator trusts.

* `initiatorPq_of_steps`, `responderPq_of_steps`, … — a path completes when each of its steps does
* `handshake_completes` — the frames of the two ends are found in each of the three cases
-/

namespace Net

open Infra Util Wire

variable {P : Primitives} {S : Suite} {K : KeyAgreement} {me initiator responder : Local} {io : Io}

/-! ## The messages -/

/-- The bytes of a list of frames. -/
def wireOf (frames : List Bytes) : Bytes := frames.flatMap rawFrame

theorem wireOf_cons (frame : Bytes) (frames : List Bytes) :
    wireOf (frame :: frames) = rawFrame frame ++ wireOf frames := by
  simp [wireOf]

theorem recvRaw_of_frame {data rest : Bytes} (h : Net.recvRaw io.input = .frame data rest) :
    io.recvRaw = some (data, { io with input := rest }) := by
  simp only [Io.recvRaw, h]

/-- The hello that an end sends. -/
def helloMessage (S : Suite) (me : Local) : Bytes :=
  S.encode { type := TransportMsgType.TrustedHello, payload := helloPayload me }

def pqRequiredMessage (S : Suite) : Bytes :=
  S.encode { type := TransportMsgType.PQRequired, payload := [] }

theorem kemPubkey_ne_trustedHello : TransportMsgType.KemPubkey ≠ TransportMsgType.TrustedHello := by
  decide

theorem pqRequired_ne_trustedHello :
    TransportMsgType.PQRequired ≠ TransportMsgType.TrustedHello := by
  decide

theorem parseHello_helloPayload (me : Local) :
    parseHello (helloPayload me) = some (me.nonce, me.publicKey) := by
  simp [parseHello, helloPayload, PUBLIC_KEY_SIZE]

theorem parseKem_kemMessage (lawful : S.Lawful) (type : UInt8) (kem : FixedBytes 1568)
    (me : Local) :
    parseKem S type (kemMessage S type kem me) = some (kem, me.publicKey) := by
  simp [parseKem, kemMessage, lawful.decode_encode, PUBLIC_KEY_SIZE]

/-- A message below the streaming threshold fits in a frame. -/
theorem length_encode_le (lawful : S.Lawful) {message : Message}
    (h : message.payload.length < STREAMING_THRESHOLD) :
    (S.encode message).length ≤ MAX_FRAME_SIZE := by
  have hlength := lawful.length_encode message h
  have hmargin : STREAMING_THRESHOLD + TRANSPORT_ENVELOPE_MARGIN ≤ MAX_FRAME_SIZE := by decide
  omega

theorem length_helloMessage_le (lawful : S.Lawful) (me : Local) :
    (helloMessage S me).length ≤ MAX_FRAME_SIZE :=
  length_encode_le lawful (by simp [helloPayload, STREAMING_THRESHOLD])

theorem length_pqRequiredMessage_le (lawful : S.Lawful) :
    (pqRequiredMessage S).length ≤ MAX_FRAME_SIZE :=
  length_encode_le lawful (by simp [STREAMING_THRESHOLD])

theorem length_kemMessage_le (lawful : S.Lawful) (type : UInt8) (kem : FixedBytes 1568)
    (me : Local) : (kemMessage S type kem me).length ≤ MAX_FRAME_SIZE :=
  length_encode_le lawful (by simp [STREAMING_THRESHOLD])

/-! ## The ends -/

/-- What the responder encapsulates to the initiator's KEM key is what the initiator gets out. -/
def KemCorrect (K : KeyAgreement) (initiator responder : Local) : Prop :=
  ∀ ciphertext secret, responder.encaps initiator.kemPublicKey = some (ciphertext, secret) →
    K.decaps ciphertext.toList initiator.kemSecretKey = some secret

/-- One derivation gives the two ends matching keys. -/
theorem sessionKeys_cross (P : Primitives) (K : KeyAgreement) (derivation : Derivation) :
    (derivation.sessionKeys P K true).sendKey = (derivation.sessionKeys P K false).recvKey ∧
      (derivation.sessionKeys P K true).recvKey = (derivation.sessionKeys P K false).sendKey ∧
      (derivation.sessionKeys P K true).sessionFingerprint =
        (derivation.sessionKeys P K false).sessionFingerprint := by
  cases derivation <;> exact ⟨rfl, rfl, rfl⟩

/-- The socket of a new connection. -/
def Io.start (input : Bytes) (sends : List Bool) : Io := { input, sends }

/-- `Signer::MAX_SIGNATURE_SIZE`. -/
def MAX_SIGNATURE_SIZE : Nat := 4627

/-- An end in a role that is implemented, whose signatures verify. -/
structure Local.Honest (P : Primitives) (me : Local) : Prop where
  role : Role.ofByte me.role.toByte = some me.role
  signs : ∀ fingerprint, P.verify fingerprint (me.sign fingerprint) me.publicKey = true
  length_sign : ∀ fingerprint, (me.sign fingerprint).length ≤ MAX_SIGNATURE_SIZE

theorem decodeAuthPayload_encodeAuthPayload {role : Role}
    (hrole : Role.ofByte role.toByte = some role)
    (pubkey : PubKey) (signature : Bytes) :
    decodeAuthPayload (encodeAuthPayload role pubkey signature) =
      some { role, pubkey, signature } := by
  simp [decodeAuthPayload, encodeAuthPayload, hrole, PUBLIC_KEY_SIZE, drop_skip]

/-- The first encrypted frame of an end. -/
def authFrame (S : Suite) (me : Local) (keys : SessionKeys) : Bytes :=
  S.encrypt (S.encode
    { type := TransportMsgType.AuthSignature
      payload := encodeAuthPayload me.role me.publicKey (me.sign keys.sessionFingerprint) })
    (makeNonce 0) keys.sendKey

theorem length_authFrame_le (lawful : S.Lawful) (honest : me.Honest P) (keys : SessionKeys) :
    (authFrame S me keys).length ≤ MAX_FRAME_SIZE := by
  have hsign := honest.length_sign keys.sessionFingerprint
  have hencode := lawful.length_encode
    { type := TransportMsgType.AuthSignature
      payload := encodeAuthPayload me.role me.publicKey (me.sign keys.sessionFingerprint) }
    (by simp [encodeAuthPayload, STREAMING_THRESHOLD, MAX_SIGNATURE_SIZE] at hsign ⊢; omega)
  rw [authFrame, lawful.length_encrypt]
  have hmargin : STREAMING_THRESHOLD + TRANSPORT_ENVELOPE_MARGIN + TAG_SIZE ≤ MAX_FRAME_SIZE := by
    decide
  omega

section Completion

variable {input : Bytes} {frames : List Bytes} {sends : List Bool} {sendCounter recvCounter : Nat}
  {sent : List Bytes} {keys : SessionKeys}

theorem sendRaw_true (data : Bytes) :
    (Io.mk input (true :: sends) sendCounter recvCounter sent).sendRaw data =
      some ⟨input, sends, sendCounter, recvCounter, sent ++ [data]⟩ := by
  simp only [Io.sendRaw]

theorem recvRaw_wireOf {frame : Bytes} (hsize : frame.length ≤ MAX_FRAME_SIZE) :
    (Io.mk (wireOf (frame :: frames)) sends sendCounter recvCounter sent).recvRaw =
      some (frame, ⟨wireOf frames, sends, sendCounter, recvCounter, sent⟩) := by
  have hread : Net.recvRaw (wireOf (frame :: frames)) = .frame frame (wireOf frames) := by
    rw [wireOf_cons]
    exact recvRaw_rawFrame _ hsize
  exact recvRaw_of_frame hread

theorem sendAuth_true (keys : SessionKeys) :
    (Io.mk input (true :: sends) 0 recvCounter sent).sendAuth S me keys =
      some ⟨input, sends, 1, recvCounter, sent ++ [authFrame S me keys]⟩ := by
  have hlimit : ¬ 0 ≥ NONCE_LIMIT := by decide
  simp [Io.sendAuth, Io.sendEncrypted, hlimit, Io.sendRaw, authFrame]

/-- The end reads what the other end sent under the key of that direction. -/
theorem recvAuth_wireOf (lawful : S.Lawful) (honest : me.Honest P) {remote : SessionKeys}
    (hkeys : remote.sendKey = keys.recvKey)
    (hfingerprint : remote.sessionFingerprint = keys.sessionFingerprint) :
    (Io.mk (wireOf (authFrame S me remote :: frames)) sends sendCounter 0 sent).recvAuth S keys =
      some ({ role := me.role, pubkey := me.publicKey
              signature := me.sign keys.sessionFingerprint },
        ⟨wireOf frames, sends, sendCounter, 1, sent⟩) := by
  have hlimit : ¬ 0 ≥ NONCE_LIMIT := by decide
  simp only [Io.recvAuth, Io.recvEncrypted, Option.bind_eq_bind,
    recvRaw_wireOf (length_authFrame_le lawful honest remote), Option.bind_some, hlimit, if_false]
  simp [authFrame, hkeys, hfingerprint, lawful.decrypt_encrypt, lawful.decode_encode,
    decodeAuthPayload_encodeAuthPayload honest.role]

/-- The `AuthSignature` of an end for a derivation. -/
def authOf (P : Primitives) (S : Suite) (K : KeyAgreement) (me : Local) (derivation : Derivation) :
    Bytes :=
  authFrame S me (derivation.sessionKeys P K me.isInitiator)

theorem recvAuth_authOf (lawful : S.Lawful) (honest : me.Honest P) {side : Bool}
    (hside : me.isInitiator ≠ side) (derivation : Derivation) :
    (Io.mk (wireOf (authOf P S K me derivation :: frames)) sends sendCounter 0 sent).recvAuth S
        (derivation.sessionKeys P K side) =
      some ({ role := me.role, pubkey := me.publicKey,
              signature := me.sign (derivation.sessionKeys P K side).sessionFingerprint },
        ⟨wireOf frames, sends, sendCounter, 1, sent⟩) := by
  obtain ⟨hsend, hrecv, hfingerprint⟩ := sessionKeys_cross P K derivation
  unfold authOf
  cases side with
  | true =>
    rw [Bool.eq_false_of_not_eq_true hside]
    exact recvAuth_wireOf lawful honest hrecv.symm hfingerprint.symm
  | false =>
    rw [Bool.eq_true_of_not_eq_false hside]
    exact recvAuth_wireOf lawful honest hsend hfingerprint

/-! The paths complete when each of their steps does. -/

section Steps

variable {io₁ io₂ io₃ io₄ : Io} {announced : Bytes} {pubkey : PubKey} {auth : AuthPayload}
  {payload : Bytes}

theorem initiatorTrusted_of_pqRequired
    (hsend : io.sendRaw (helloMessage S me) = some io₁)
    (hrecv : io₁.recvRaw = some (announced, io₂))
    (hdecode : S.decode announced = some { type := TransportMsgType.PQRequired, payload := [] }) :
    doHandshakeInitiatorTrusted P S K me io = doHandshakeInitiatorPq P S K me io₂ := by
  rw [helloMessage] at hsend
  simp only [doHandshakeInitiatorTrusted, hsend, hrecv, hdecode, pqRequired_ne_trustedHello,
    if_false, if_true, Option.bind_eq_bind, Option.bind_some]

theorem responder_of_trustedHello (hrole : me.isInitiator = false)
    (hrecv : io.recvRaw = some (announced, io₁))
    (hdecode : S.decode announced = some { type := TransportMsgType.TrustedHello, payload }) :
    doHandshake P S K me io =
      if me.peerIsTrusted then doHandshakeResponderTrusted P S K me io₁ announced payload
      else doHandshakeResponderPqFallback P S K me io₁ := by
  simp only [doHandshake, hrole, Bool.false_eq_true, hrecv, hdecode, if_false, if_true,
    Option.bind_eq_bind, Option.bind_some]

theorem responder_of_kemPubkey (hrole : me.isInitiator = false)
    (hrecv : io.recvRaw = some (announced, io₁))
    (hdecode : S.decode announced = some { type := TransportMsgType.KemPubkey, payload }) :
    doHandshake P S K me io = doHandshakeResponderPq P S K me io₁ announced := by
  simp only [doHandshake, hrole, Bool.false_eq_true, hrecv, hdecode, kemPubkey_ne_trustedHello,
    if_false, if_true, Option.bind_eq_bind, Option.bind_some]

theorem responderPqFallback_of_steps (hsend : io.sendRaw (pqRequiredMessage S) = some io₁)
    (hrecv : io₁.recvRaw = some (announced, io₂)) :
    doHandshakeResponderPqFallback P S K me io = doHandshakeResponderPq P S K me io₂ announced := by
  rw [pqRequiredMessage] at hsend
  simp only [doHandshakeResponderPqFallback, hsend, hrecv, Option.bind_eq_bind, Option.bind_some]

variable (hverify : P.verify keys.sessionFingerprint auth.signature auth.pubkey = true)

include hverify

theorem initiatorPq_of_steps {ciphertext : FixedBytes 1568} {secret : Bytes}
    (hsend : io.sendRaw (kemMessage S TransportMsgType.KemPubkey me.kemPublicKey me) = some io₁)
    (hrecv : io₁.recvRaw = some (announced, io₂))
    (hparse : parseKem S TransportMsgType.KemCiphertext announced = some (ciphertext, pubkey))
    (hsecret : K.decaps ciphertext.toList me.kemSecretKey = some secret)
    (hkeys : (Derivation.pq secret me.publicKey pubkey).sessionKeys P K true = keys)
    (hauth : io₂.sendAuth S me keys = some io₃) (hauth' : io₃.recvAuth S keys = some (auth, io₄)) :
    ∃ done, doHandshakeInitiatorPq P S K me io = some done ∧ done.io = io₄ := by
  subst hkeys
  simp only [doHandshakeInitiatorPq, hsend, hrecv, hparse, hsecret, hauth, hauth', hverify,
    Option.bind_eq_bind, Option.bind_some]
  exact ⟨_, rfl, rfl⟩

theorem responderPq_of_steps {kemPk ciphertext : FixedBytes 1568} {secret : Bytes}
    (hparse : parseKem S TransportMsgType.KemPubkey announced = some (kemPk, pubkey))
    (hsecret : me.encaps kemPk = some (ciphertext, secret))
    (hkeys : (Derivation.pq secret pubkey me.publicKey).sessionKeys P K false = keys)
    (hsend : io.sendRaw (kemMessage S TransportMsgType.KemCiphertext ciphertext me) = some io₁)
    (hauth : io₁.recvAuth S keys = some (auth, io₂)) (hauth' : io₂.sendAuth S me keys = some io₃) :
    ∃ done, doHandshakeResponderPq P S K me io announced = some done ∧ done.io = io₃ := by
  subst hkeys
  simp only [doHandshakeResponderPq, hsend, hparse, hsecret, hauth, hauth', hverify,
    Option.bind_eq_bind, Option.bind_some]
  exact ⟨_, rfl, rfl⟩

theorem initiatorTrusted_of_steps {nonceR : FixedBytes 32}
    (hsend : io.sendRaw (helloMessage S me) = some io₁)
    (hrecv : io₁.recvRaw = some (announced, io₂))
    (hdecode : S.decode announced = some { type := TransportMsgType.TrustedHello, payload })
    (hparse : parseHello payload = some (nonceR, pubkey))
    (hkeys : (Derivation.lightweight me.nonce nonceR me.publicKey pubkey).sessionKeys P
      K true = keys)
    (hauth : io₂.sendAuth S me keys = some io₃) (hauth' : io₃.recvAuth S keys = some (auth, io₄))
    (hsame : auth.pubkey = pubkey) :
    ∃ done, doHandshakeInitiatorTrusted P S K me io = some done ∧ done.io = io₄ := by
  subst hkeys hsame
  rw [helloMessage] at hsend
  simp only [doHandshakeInitiatorTrusted, hsend, hrecv, hdecode, hparse, hauth, hauth', hverify,
    if_true, Option.bind_eq_bind, Option.bind_some]
  exact ⟨_, rfl, rfl⟩

theorem responderTrusted_of_steps (announced : Bytes) {nonceI : FixedBytes 32}
    (hparse : parseHello payload = some (nonceI, pubkey))
    (hsend : io.sendRaw (helloMessage S me) = some io₁)
    (hkeys : (Derivation.lightweight nonceI me.nonce pubkey me.publicKey).sessionKeys P
      K false = keys)
    (hauth : io₁.recvAuth S keys = some (auth, io₂)) (hauth' : io₂.sendAuth S me keys = some io₃)
    (hsame : auth.pubkey = pubkey) :
    ∃ done, doHandshakeResponderTrusted P S K me io announced payload = some done ∧
      done.io = io₃ := by
  subst hkeys hsame
  rw [helloMessage] at hsend
  simp only [doHandshakeResponderTrusted, hsend, hparse, hauth, hauth', hverify,
    Option.bind_eq_bind, Option.bind_some]
  exact ⟨_, rfl, rfl⟩

end Steps

/-- The frames of the two ends of a PQ handshake. -/
def initiatorPqFrames (P : Primitives) (S : Suite) (K : KeyAgreement) (initiator responder : Local)
    (secret : Bytes) : List Bytes :=
  [kemMessage S TransportMsgType.KemPubkey initiator.kemPublicKey initiator,
    authOf P S K initiator (.pq secret initiator.publicKey responder.publicKey)]

def responderPqFrames (P : Primitives) (S : Suite) (K : KeyAgreement) (initiator responder : Local)
    (ciphertext : FixedBytes 1568) (secret : Bytes) : List Bytes :=
  [kemMessage S TransportMsgType.KemCiphertext ciphertext responder,
    authOf P S K responder (.pq secret initiator.publicKey responder.publicKey)]

/-- Two honest ends of a connection. -/
structure HonestEnds (P : Primitives) (S : Suite) (K : KeyAgreement) (initiator responder : Local) :
    Prop where
  lawful : S.Lawful
  kem : KemCorrect K initiator responder
  honestI : initiator.Honest P
  honestR : responder.Honest P
  roleI : initiator.isInitiator = true
  roleR : responder.isInitiator = false

/-- An end that completes on the frames it receives, and the frames it sends. -/
def Exchanges (P : Primitives) (S : Suite) (K : KeyAgreement) (me : Local)
    (received sent : List Bytes) : Prop :=
  ∃ done, doHandshake P S K me (Io.start (wireOf received) [true, true, true]) = some done ∧
    done.io.sent = sent

/-- The derivation of two ends that trust each other. -/
def lightweightDerivation (initiator responder : Local) : Derivation :=
  .lightweight initiator.nonce responder.nonce initiator.publicKey responder.publicKey

end Completion

namespace HonestEnds

variable (ends : HonestEnds P S K initiator responder) {ciphertext : FixedBytes 1568}
  {secret : Bytes}

include ends

theorem sideI : initiator.isInitiator ≠ false := by
  simp [ends.roleI]

theorem sideR : responder.isInitiator ≠ true := by
  simp [ends.roleR]

/-- Both ends trust the other. -/
theorem exchange_lightweight (htrustI : initiator.peerIsTrusted = true)
    (htrustR : responder.peerIsTrusted = true) :
    ∃ framesI framesR, Exchanges P S K initiator framesR framesI ∧
      Exchanges P S K responder framesI framesR := by
  obtain ⟨doneI, hdoneI, hioI⟩ := initiatorTrusted_of_steps (ends.honestR.signs _)
    (sendRaw_true _) (recvRaw_wireOf (length_helloMessage_le ends.lawful _))
    (ends.lawful.decode_encode _) (parseHello_helloPayload responder) rfl (sendAuth_true _)
    (recvAuth_authOf ends.lawful ends.honestR ends.sideR
      (lightweightDerivation initiator responder)) rfl
  obtain ⟨doneR, hdoneR, hioR⟩ := responderTrusted_of_steps (ends.honestI.signs _)
    (helloMessage S initiator) (parseHello_helloPayload initiator) (sendRaw_true _) rfl
    (recvAuth_authOf ends.lawful ends.honestI ends.sideI
      (lightweightDerivation initiator responder))
    (sendAuth_true _) rfl
  refine ⟨[helloMessage S initiator,
      authOf P S K initiator (lightweightDerivation initiator responder)],
    [helloMessage S responder,
      authOf P S K responder (lightweightDerivation initiator responder)],
    ⟨doneI, ?_, ?_⟩, ⟨doneR, ?_, ?_⟩⟩
  · rw [doHandshake, if_pos ends.roleI, if_pos htrustI]
    exact hdoneI
  · simp [hioI, authOf, ends.roleI, lightweightDerivation]
  · refine (responder_of_trustedHello ends.roleR
      (recvRaw_wireOf (length_helloMessage_le ends.lawful _))
      (ends.lawful.decode_encode _)).trans ?_
    rw [if_pos htrustR]
    exact hdoneR
  · simp [hioR, authOf, ends.roleR, lightweightDerivation]

variable (hencaps : responder.encaps initiator.kemPublicKey = some (ciphertext, secret))

include hencaps

theorem initiatorPq_completes (sends : List Bool) (sent : List Bytes) :
    ∃ done, doHandshakeInitiatorPq P S K initiator
        ⟨wireOf (responderPqFrames P S K initiator responder ciphertext secret),
          true :: true :: sends, 0, 0, sent⟩ = some done ∧
      done.io.sent = sent ++ initiatorPqFrames P S K initiator responder secret := by
  obtain ⟨done, hdone, hio⟩ := initiatorPq_of_steps (ends.honestR.signs _) (sendRaw_true _)
    (recvRaw_wireOf (length_kemMessage_le ends.lawful _ _ _))
      (parseKem_kemMessage ends.lawful _ _ _)
    (ends.kem ciphertext secret hencaps) rfl (sendAuth_true _)
    (recvAuth_authOf ends.lawful ends.honestR ends.sideR _)
  refine ⟨done, hdone, ?_⟩
  simp [hio, initiatorPqFrames, authOf, ends.roleI]

theorem responderPq_completes (sends : List Bool) (sent : List Bytes) :
    ∃ done, doHandshakeResponderPq P S K responder
        ⟨wireOf [authOf P S K initiator (.pq secret initiator.publicKey responder.publicKey)],
          true :: true :: sends, 0, 0, sent⟩
        (kemMessage S TransportMsgType.KemPubkey initiator.kemPublicKey initiator) = some done ∧
      done.io.sent = sent ++ responderPqFrames P S K initiator responder ciphertext secret := by
  obtain ⟨done, hdone, hio⟩ := responderPq_of_steps (ends.honestI.signs _)
    (parseKem_kemMessage ends.lawful _ _ _) hencaps rfl (sendRaw_true _)
    (recvAuth_authOf ends.lawful ends.honestI ends.sideI _) (sendAuth_true _)
  refine ⟨done, hdone, ?_⟩
  simp [hio, responderPqFrames, authOf, ends.roleR]

/-- The initiator does not trust. -/
theorem exchange_pq (htrustI : initiator.peerIsTrusted = false) :
    ∃ framesI framesR, Exchanges P S K initiator framesR framesI ∧
      Exchanges P S K responder framesI framesR := by
  obtain ⟨doneI, hdoneI, hsentI⟩ := ends.initiatorPq_completes hencaps [true] []
  obtain ⟨doneR, hdoneR, hsentR⟩ := ends.responderPq_completes hencaps [true] []
  refine ⟨initiatorPqFrames P S K initiator responder secret,
    responderPqFrames P S K initiator responder ciphertext secret,
    ⟨doneI, ?_, hsentI⟩, ⟨doneR, ?_, hsentR⟩⟩
  · rw [doHandshake, if_pos ends.roleI, if_neg (by simp [htrustI])]
    exact hdoneI
  · exact (responder_of_kemPubkey ends.roleR
      (recvRaw_wireOf (length_kemMessage_le ends.lawful _ _ _))
      (ends.lawful.decode_encode _)).trans hdoneR

/-- Only the initiator trusts. -/
theorem exchange_fallback (htrustI : initiator.peerIsTrusted = true)
    (htrustR : responder.peerIsTrusted = false) :
    ∃ framesI framesR, Exchanges P S K initiator framesR framesI ∧
      Exchanges P S K responder framesI framesR := by
  obtain ⟨doneI, hdoneI, hsentI⟩ :=
    ends.initiatorPq_completes hencaps [] [helloMessage S initiator]
  obtain ⟨doneR, hdoneR, hsentR⟩ := ends.responderPq_completes hencaps [] [pqRequiredMessage S]
  refine ⟨helloMessage S initiator :: initiatorPqFrames P S K initiator responder secret,
    pqRequiredMessage S :: responderPqFrames P S K initiator responder ciphertext secret,
    ⟨doneI, ?_, hsentI⟩, ⟨doneR, ?_, hsentR⟩⟩
  · rw [doHandshake, if_pos ends.roleI, if_pos htrustI]
    exact (initiatorTrusted_of_pqRequired (sendRaw_true _)
      (recvRaw_wireOf (length_pqRequiredMessage_le ends.lawful))
      (ends.lawful.decode_encode _)).trans hdoneI
  · refine (responder_of_trustedHello ends.roleR
      (recvRaw_wireOf (length_helloMessage_le ends.lawful _))
      (ends.lawful.decode_encode _)).trans ?_
    rw [if_neg (by simp [htrustR])]
    exact (responderPqFallback_of_steps (sendRaw_true _)
      (recvRaw_wireOf (length_kemMessage_le ends.lawful _ _ _))).trans hdoneR

end HonestEnds

/-- **Two honest ends complete.** Whatever their trust, two honest ends whose writes succeed and
that read what the other has sent both complete the handshake. -/
theorem handshake_completes (lawful : S.Lawful) (kem : KemCorrect K initiator responder)
    (honestI : initiator.Honest P) (honestR : responder.Honest P)
    (hroleI : initiator.isInitiator = true) (hroleR : responder.isInitiator = false)
    (hencaps : (responder.encaps initiator.kemPublicKey).isSome = true) :
    ∃ framesI framesR, Exchanges P S K initiator framesR framesI ∧
      Exchanges P S K responder framesI framesR := by
  obtain ⟨⟨ciphertext, secret⟩, hencaps⟩ := Option.isSome_iff_exists.mp hencaps
  have ends : HonestEnds P S K initiator responder :=
    ⟨lawful, kem, honestI, honestR, hroleI, hroleR⟩
  cases htrustI : initiator.peerIsTrusted with
  | false => exact ends.exchange_pq hencaps htrustI
  | true =>
    cases htrustR : responder.peerIsTrusted with
    | false => exact ends.exchange_fallback hencaps htrustI htrustR
    | true => exact ends.exchange_lightweight htrustI htrustR

section Sample

open Wire.Sample

/-- An initiator with key 2. -/
def sampleInitiator (peerIsTrusted : Bool) : Local where
  publicKey := key 2
  sign message := Sample.sign message (key 2)
  isInitiator := true
  peerIsTrusted
  nonce := owned 4
  kemPublicKey := FixedBytes.fill 1568 0
  kemSecretKey := []
  encaps _ := none

theorem honest_sampleInitiator (peerIsTrusted : Bool) :
    (sampleInitiator peerIsTrusted).Honest primitives where
  role := rfl
  signs fingerprint := by simp [sampleInitiator, primitives]
  length_sign fingerprint := by simp [sampleInitiator, Sample.sign, MAX_SIGNATURE_SIZE]

theorem honest_sampleResponder (peerIsTrusted : Bool) :
    (sampleResponder peerIsTrusted).Honest primitives where
  role := rfl
  signs fingerprint := by simp [sampleResponder, primitives]
  length_sign fingerprint := by simp [sampleResponder, Sample.sign, MAX_SIGNATURE_SIZE]

theorem kemCorrect_sample (trustI trustR : Bool) :
    KemCorrect sampleAgreement (sampleInitiator trustI) (sampleResponder trustR) := by
  intro ciphertext secret hencaps
  obtain ⟨-, rfl⟩ := Prod.mk.inj (Option.some.inj hencaps)
  rfl

end Sample

end Net
