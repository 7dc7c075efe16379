import Chromatin.Properties.HandshakeCompletion

/-!
# Agreement of the two ends of a handshake

The two ends pick their paths on their own: the initiator by its trust, the responder by the first
message and its trust, and the initiator may have to change over to PQ. What each sends before its
`AuthSignature` fixes the path of the other.

* `derivation_agreement` — two ends that complete over FIFO channels derive their keys from the
  same secret or nonces and the same two signing keys
* `spoke_doHandshake` — a completed handshake has sent and received one encrypted frame
* `handshake_agreement` — so the keys match crosswise, with the fingerprint and the counters
-/

namespace Net

open Infra Util Wire

variable {P : Primitives} {S : Suite} {K : KeyAgreement} {me initiator responder : Local}
  {io io' : Io} {done doneI doneR : Completed} {data : Bytes} {frames : List Bytes} {after : Io}
  {keys : SessionKeys} {auth : AuthPayload}

/-! ## FIFO channels -/

/-- A FIFO channel: what comes in is what the frames put on the wire and what was written after
them, up to some byte. -/
def Delivered (frames : List Bytes) (input : Bytes) : Prop :=
  ∃ later, input <+: wireOf frames ++ later

/-- A read over a FIFO channel returns the next frame. -/
theorem Delivered.recvRaw {frame : Bytes}
    (h : Delivered (frame :: frames) io.input) (hsize : frame.length ≤ MAX_FRAME_SIZE)
    (hread : io.recvRaw = some (data, io')) : data = frame ∧ Delivered frames io'.input := by
  obtain ⟨later, hinput⟩ := h
  rw [wireOf_cons, List.append_assoc] at hinput
  unfold Io.recvRaw at hread
  rcases recvRaw_of_prefix hsize hinput with hpending | ⟨tail, -, htail, hframe⟩
  · simp [hpending] at hread
  · simp only [hframe, Option.some.injEq, Prod.mk.injEq] at hread
    obtain ⟨rfl, rfl⟩ := hread
    exact ⟨rfl, later, htail⟩

theorem input_sendRaw (h : io.sendRaw data = some io') : io'.input = io.input := by
  unfold Io.sendRaw at h
  split at h
  · obtain rfl := Option.some.inj h
    rfl
  · simp at h

/-! ## What an end sends -/

/-- The end sends the frames and then one encrypted frame, and receives one encrypted frame. -/
structure Spoke (frames : List Bytes) (before after : Io) : Prop where
  sent : ∃ auth, after.sent = before.sent ++ frames ++ [auth]
  sendCounter : after.sendCounter = before.sendCounter + 1
  recvCounter : after.recvCounter = before.recvCounter + 1

theorem Spoke.sendRaw
    (h : io.sendRaw data = some io') (hspoke : Spoke frames io' after) :
    Spoke (data :: frames) io after := by
  unfold Io.sendRaw at h
  split at h
  · obtain rfl := Option.some.inj h
    obtain ⟨⟨auth, hsent⟩, hsend, hrecv⟩ := hspoke
    exact ⟨⟨auth, by simpa using hsent⟩, hsend, hrecv⟩
  · simp at h

theorem Spoke.recvRaw
    (h : io.recvRaw = some (data, io')) (hspoke : Spoke frames io' after) :
    Spoke frames io after := by
  unfold Io.recvRaw at h
  split at h
  · simp only [Option.some.injEq, Prod.mk.injEq] at h
    obtain ⟨-, rfl⟩ := h
    exact ⟨hspoke.sent, hspoke.sendCounter, hspoke.recvCounter⟩
  · simp at h

theorem sendAuth_eq_some (h : io.sendAuth S me keys = some io') :
    ∃ auth, io'.sent = io.sent ++ [auth] ∧ io'.sendCounter = io.sendCounter + 1 ∧
      io'.recvCounter = io.recvCounter := by
  unfold Io.sendAuth Io.sendEncrypted Io.sendRaw at h
  split_ifs at h
  split at h
  · obtain rfl := Option.some.inj h
    exact ⟨_, rfl, rfl, rfl⟩
  · simp at h

theorem recvAuth_eq_some
    (h : io.recvAuth S keys = some (auth, io')) :
    io'.sent = io.sent ∧ io'.sendCounter = io.sendCounter ∧
      io'.recvCounter = io.recvCounter + 1 := by
  simp only [Io.recvAuth, Io.recvEncrypted, Option.bind_eq_bind, Option.bind_eq_some_iff,
    Option.ite_none_left_eq_some, Option.some.injEq, Prod.exists, Prod.mk.injEq] at h
  obtain ⟨_, _, ⟨_, io₁, hread, -, _, -, -, rfl⟩, _, -, _, -, _, -, -, rfl⟩ := h
  unfold Io.recvRaw at hread
  split at hread
  · simp only [Option.some.injEq, Prod.mk.injEq] at hread
    obtain ⟨-, rfl⟩ := hread
    exact ⟨rfl, rfl, rfl⟩
  · simp at hread

/-- The initiator speaks first in the auth exchange. -/
theorem spoke_sendAuth_recvAuth
    (hsend : io.sendAuth S me keys = some io') (hrecv : io'.recvAuth S keys = some (auth, after)) :
    Spoke [] io after := by
  obtain ⟨frame, hsent, hcounter, hother⟩ := sendAuth_eq_some hsend
  obtain ⟨hsent', hcounter', hother'⟩ := recvAuth_eq_some hrecv
  exact ⟨⟨frame, by simp [hsent', hsent]⟩, by omega, by omega⟩

theorem spoke_recvAuth_sendAuth
    (hrecv : io.recvAuth S keys = some (auth, io')) (hsend : io'.sendAuth S me keys = some after) :
    Spoke [] io after := by
  obtain ⟨hsent', hcounter', hother'⟩ := recvAuth_eq_some hrecv
  obtain ⟨frame, hsent, hcounter, hother⟩ := sendAuth_eq_some hsend
  exact ⟨⟨frame, by simp [hsent', hsent]⟩, by omega, by omega⟩

/-! ## The paths

For each path, what the end sends before its `AuthSignature` and what it derives its keys from. -/

/-- What a PQ initiator has sent, read and derived. -/
inductive InitiatedPq (S : Suite) (K : KeyAgreement) (me : Local) (io : Io) (done : Completed) :
    Prop
  | mk {io₁ io₂ : Io} {announced : Bytes} {ciphertext : FixedBytes 1568} {pubkey : PubKey}
      {secret : Bytes} (hinput : io₁.input = io.input)
      (hrecv : io₁.recvRaw = some (announced, io₂))
      (hparse : parseKem S TransportMsgType.KemCiphertext announced = some (ciphertext, pubkey))
      (hdecaps : K.decaps ciphertext.toList me.kemSecretKey = some secret)
      (hderivation : done.derivation = .pq secret me.publicKey pubkey)
      (hspoke : Spoke [kemMessage S TransportMsgType.KemPubkey me.kemPublicKey me] io done.io)

theorem initiatorPq_eq_some (h : doHandshakeInitiatorPq P S K me io = some done) :
    InitiatedPq S K me io done := by
  simp only [doHandshakeInitiatorPq, Option.bind_eq_bind, Option.bind_eq_some_iff, guard_eq_some,
    Option.some.injEq, Prod.exists] at h
  obtain ⟨io₁, hsend, announced, io₂, hrecv, ciphertext, pubkey, hkem, secret, hsecret, _, hauth,
    _, _, hauth', -, -, rfl⟩ := h
  exact ⟨input_sendRaw hsend, hrecv, hkem, hsecret, rfl,
    .sendRaw hsend (.recvRaw hrecv (spoke_sendAuth_recvAuth hauth hauth'))⟩

theorem responderPq_eq_some {announced : Bytes}
    (h : doHandshakeResponderPq P S K me io announced = some done) :
    ∃ kemPk pubkey ciphertext secret,
      parseKem S TransportMsgType.KemPubkey announced = some (kemPk, pubkey) ∧
      me.encaps kemPk = some (ciphertext, secret) ∧
      done.derivation = .pq secret pubkey me.publicKey ∧
      Spoke [kemMessage S TransportMsgType.KemCiphertext ciphertext me] io done.io := by
  simp only [doHandshakeResponderPq, Option.bind_eq_bind, Option.bind_eq_some_iff, guard_eq_some,
    Option.some.injEq, Prod.exists] at h
  obtain ⟨kemPk, pubkey, hkem, ciphertext, secret, hsecret, _, hsend, _, _, hauth, -, -, _, hauth',
    rfl⟩ := h
  exact ⟨kemPk, pubkey, ciphertext, secret, hkem, hsecret, rfl,
    .sendRaw hsend (spoke_recvAuth_sendAuth hauth hauth')⟩

/-- What the initiator that trusts its peer makes of the answer to its hello. -/
inductive HelloAnswered (P : Primitives) (S : Suite) (K : KeyAgreement) (me : Local) (io : Io)
    (decoded : Message) (done : Completed) : Prop
  | lightweight {nonceR : FixedBytes 32} {pubkey : PubKey}
      (htype : decoded.type = TransportMsgType.TrustedHello)
      (hhello : parseHello decoded.payload = some (nonceR, pubkey))
      (hderivation : done.derivation = .lightweight me.nonce nonceR me.publicKey pubkey)
      (hspoke : Spoke [] io done.io)
  | fallback (htype : decoded.type = TransportMsgType.PQRequired)
      (hpq : doHandshakeInitiatorPq P S K me io = some done)

theorem initiatorTrusted_eq_some (h : doHandshakeInitiatorTrusted P S K me io = some done) :
    ∃ io₁ announced io₂ decoded,
      io.sendRaw (helloMessage S me) = some io₁ ∧ io₁.recvRaw = some (announced, io₂) ∧
      S.decode announced = some decoded ∧ HelloAnswered P S K me io₂ decoded done := by
  simp only [doHandshakeInitiatorTrusted, Option.bind_eq_bind, Option.bind_eq_some_iff,
    Prod.exists] at h
  obtain ⟨io₁, hsend, announced, io₂, hrecv, decoded, hdecoded, h⟩ := h
  refine ⟨io₁, announced, io₂, decoded, hsend, hrecv, hdecoded, ?_⟩
  split_ifs at h with hhello hpq
  · simp only [Option.bind_eq_some_iff, guard_eq_some, Option.some.injEq, Prod.exists] at h
    obtain ⟨nonceR, pubkey, hparse, _, hauth, _, _, hauth', -, -, -, -, rfl⟩ := h
    exact .lightweight hhello hparse rfl (spoke_sendAuth_recvAuth hauth hauth')
  · exact .fallback hpq h

theorem responderTrusted_eq_some {announced payload : Bytes}
    (h : doHandshakeResponderTrusted P S K me io announced payload = some done) :
    ∃ nonceI pubkey, parseHello payload = some (nonceI, pubkey) ∧
      done.derivation = .lightweight nonceI me.nonce pubkey me.publicKey ∧
      Spoke [helloMessage S me] io done.io := by
  simp only [doHandshakeResponderTrusted, Option.bind_eq_bind, Option.bind_eq_some_iff,
    guard_eq_some, Option.some.injEq, Prod.exists] at h
  obtain ⟨nonceI, pubkey, hparse, _, hsend, _, _, hauth, -, -, -, -, _, hauth', rfl⟩ := h
  exact ⟨nonceI, pubkey, hparse, rfl, .sendRaw hsend (spoke_recvAuth_sendAuth hauth hauth')⟩

theorem responderPqFallback_eq_some (h : doHandshakeResponderPqFallback P S K me io = some done) :
    ∃ io₁ announced io₂, io.sendRaw (pqRequiredMessage S) = some io₁ ∧
      io₁.recvRaw = some (announced, io₂) ∧
      doHandshakeResponderPq P S K me io₂ announced = some done := by
  simp only [doHandshakeResponderPqFallback, Option.bind_eq_bind, Option.bind_eq_some_iff,
    Prod.exists] at h
  obtain ⟨io₁, hsend, announced, io₂, hrecv, hpq⟩ := h
  exact ⟨io₁, announced, io₂, hsend, hrecv, hpq⟩

/-- What the responder makes of the first message. -/
inductive Responds (P : Primitives) (S : Suite) (K : KeyAgreement) (me : Local) (io : Io)
    (firstMsg : Bytes) (decoded : Message) (done : Completed) : Prop
  | trusted (htype : decoded.type = TransportMsgType.TrustedHello)
      (htrust : me.peerIsTrusted = true)
      (h : doHandshakeResponderTrusted P S K me io firstMsg decoded.payload = some done)
  | fallback (htype : decoded.type = TransportMsgType.TrustedHello)
      (htrust : me.peerIsTrusted = false)
      (h : doHandshakeResponderPqFallback P S K me io = some done)
  | pq (htype : decoded.type = TransportMsgType.KemPubkey)
      (h : doHandshakeResponderPq P S K me io firstMsg = some done)

theorem responder_eq_some (hrole : me.isInitiator = false)
    (h : doHandshake P S K me io = some done) :
    ∃ firstMsg io₁ decoded, io.recvRaw = some (firstMsg, io₁) ∧ S.decode firstMsg = some decoded ∧
      Responds P S K me io₁ firstMsg decoded done := by
  simp only [doHandshake, hrole, Bool.false_eq_true, if_false, Option.bind_eq_bind,
    Option.bind_eq_some_iff, Prod.exists] at h
  obtain ⟨firstMsg, io₁, hrecv, decoded, hdecoded, h⟩ := h
  refine ⟨firstMsg, io₁, decoded, hrecv, hdecoded, ?_⟩
  split_ifs at h with hhello htrust hkem
  · exact .trusted hhello htrust h
  · exact .fallback hhello (Bool.eq_false_of_not_eq_true htrust) h
  · exact .pq hkem h

/-! ## Agreement -/

/-- The responder of a PQ handshake, from the initiator's KEM message. -/
theorem responderPq_of_kemMessage (lawful : S.Lawful)
    (h : doHandshakeResponderPq P S K responder io
      (kemMessage S TransportMsgType.KemPubkey initiator.kemPublicKey initiator) = some done) :
    ∃ ciphertext secret, responder.encaps initiator.kemPublicKey = some (ciphertext, secret) ∧
      done.derivation = .pq secret initiator.publicKey responder.publicKey ∧
      Spoke [kemMessage S TransportMsgType.KemCiphertext ciphertext responder] io done.io := by
  obtain ⟨kemPk, pubkey, ciphertext, secret, hparse, hencaps, hderivation, hspoke⟩ :=
    responderPq_eq_some h
  rw [parseKem_kemMessage lawful] at hparse
  obtain ⟨rfl, rfl⟩ := Prod.mk.inj (Option.some.inj hparse)
  exact ⟨ciphertext, secret, hencaps, hderivation, hspoke⟩

/-- The initiator of a PQ handshake, over a channel that brings the responder's ciphertext. -/
theorem initiatorPq_of_delivered (lawful : S.Lawful) (kem : KemCorrect K initiator responder)
    {ciphertext : FixedBytes 1568} {secret : Bytes}
    (hencaps : responder.encaps initiator.kemPublicKey = some (ciphertext, secret))
    (hdelivered : Delivered
      (kemMessage S TransportMsgType.KemCiphertext ciphertext responder :: frames) io.input)
    (h : doHandshakeInitiatorPq P S K initiator io = some done) :
    done.derivation = .pq secret initiator.publicKey responder.publicKey := by
  obtain ⟨hinput, hrecv, hparse, hdecaps, hderivation, -⟩ := initiatorPq_eq_some h
  rw [← hinput] at hdelivered
  obtain ⟨rfl, -⟩ := hdelivered.recvRaw (length_kemMessage_le lawful _ _ _) hrecv
  rw [parseKem_kemMessage lawful] at hparse
  obtain ⟨rfl, rfl⟩ := Prod.mk.inj (Option.some.inj hparse)
  rw [kem ciphertext secret hencaps] at hdecaps
  obtain rfl := Option.some.inj hdecaps
  exact hderivation

/-- The frames of an end that had sent nothing before. -/
theorem Spoke.delivered {input : Bytes}
    (hspoke : Spoke frames io after) (hfresh : io.sent = [])
    (hdelivered : Delivered after.sent input) : ∃ auth, Delivered (frames ++ [auth]) input := by
  obtain ⟨auth, hsent⟩ := hspoke.sent
  rw [hsent, hfresh, List.nil_append] at hdelivered
  exact ⟨auth, hdelivered⟩

section Fresh

variable {ioI ioR : Io} (lawful : S.Lawful) (kem : KemCorrect K initiator responder)
  (hrole : responder.isInitiator = false) (hfreshI : ioI.sent = []) (hfreshR : ioR.sent = [])
  (hR : doHandshake P S K responder ioR = some doneR)

include lawful hrole hR

/-- The responder that reads the initiator's hello answers by its own trust. -/
theorem responder_of_hello (hIR : Delivered (helloMessage S initiator :: frames) ioR.input) :
    ∃ ioR₁, ioR.recvRaw = some (helloMessage S initiator, ioR₁) ∧ Delivered frames ioR₁.input ∧
      (doHandshakeResponderTrusted P S K responder ioR₁ (helloMessage S initiator)
          (helloPayload initiator) = some doneR ∨
        doHandshakeResponderPqFallback P S K responder ioR₁ = some doneR) := by
  obtain ⟨firstMsg, ioR₁, decoded, hrecv, hdecoded, hresponds⟩ := responder_eq_some hrole hR
  obtain ⟨rfl, hrest⟩ := hIR.recvRaw (length_helloMessage_le lawful _) hrecv
  refine ⟨ioR₁, hrecv, hrest, ?_⟩
  rw [helloMessage, lawful.decode_encode] at hdecoded
  obtain rfl := Option.some.inj hdecoded
  cases hresponds with
  | trusted _ _ h => exact .inl h
  | fallback _ _ h => exact .inr h
  | pq htype _ => exact absurd htype.symm kemPubkey_ne_trustedHello

variable (hIR : Delivered doneI.io.sent ioR.input) (hRI : Delivered doneR.io.sent ioI.input)

include kem hfreshI hfreshR hIR hRI

/-- The initiator goes for PQ at once: so does the responder, whether it trusts or not. -/
theorem derivation_agreement_pq (hI : doHandshakeInitiatorPq P S K initiator ioI = some doneI) :
    doneI.derivation = doneR.derivation := by
  obtain ⟨-, -, -, -, -, hspokeI⟩ := initiatorPq_eq_some hI
  obtain ⟨_, hIR⟩ := hspokeI.delivered hfreshI hIR
  obtain ⟨firstMsg, ioR₁, decoded, hrecv, hdecoded, hresponds⟩ := responder_eq_some hrole hR
  obtain ⟨rfl, -⟩ := hIR.recvRaw (length_kemMessage_le lawful _ _ _) hrecv
  rw [kemMessage, lawful.decode_encode] at hdecoded
  obtain rfl := Option.some.inj hdecoded
  cases hresponds with
  | trusted htype _ _ => exact absurd htype kemPubkey_ne_trustedHello
  | fallback htype _ _ => exact absurd htype kemPubkey_ne_trustedHello
  | pq _ h =>
    obtain ⟨ciphertext, secret, hencaps, hderivation, hspokeR⟩ := responderPq_of_kemMessage lawful h
    obtain ⟨_, hRI⟩ := (Spoke.recvRaw hrecv hspokeR).delivered hfreshR hRI
    rw [hderivation]
    exact initiatorPq_of_delivered lawful kem hencaps hRI hI

/-- The initiator trusts its peer: the answer to its hello tells both ends the same path. -/
theorem derivation_agreement_trusted
    (hI : doHandshakeInitiatorTrusted P S K initiator ioI = some doneI) :
    doneI.derivation = doneR.derivation := by
  obtain ⟨ioI₁, announced, ioI₂, decoded, hsendI, hrecvI, hdecoded, hanswered⟩ :=
    initiatorTrusted_eq_some hI
  rw [← input_sendRaw hsendI] at hRI
  cases hanswered with
  | lightweight htype hhello hderivationI hspokeI =>
    obtain ⟨_, hIR⟩ := (Spoke.sendRaw hsendI (.recvRaw hrecvI hspokeI)).delivered hfreshI hIR
    obtain ⟨ioR₁, hrecvR, -, hR | hR⟩ := responder_of_hello lawful hrole hR hIR
    · obtain ⟨nonceI, pubkey, hparse, hderivationR, hspokeR⟩ := responderTrusted_eq_some hR
      obtain ⟨_, hRI⟩ := (Spoke.recvRaw hrecvR hspokeR).delivered hfreshR hRI
      obtain ⟨rfl, -⟩ := hRI.recvRaw (length_helloMessage_le lawful _) hrecvI
      rw [helloMessage, lawful.decode_encode] at hdecoded
      obtain rfl := Option.some.inj hdecoded
      -- each end has parsed the hello of the other
      rw [parseHello_helloPayload] at hhello hparse
      obtain ⟨rfl, rfl⟩ := Prod.mk.inj (Option.some.inj hhello)
      obtain ⟨rfl, rfl⟩ := Prod.mk.inj (Option.some.inj hparse)
      rw [hderivationI, hderivationR]
    · -- the responder asks for PQ, and the initiator would have seen it
      obtain ⟨ioR₂, _, ioR₃, hsendR, hrecvR', hpq⟩ := responderPqFallback_eq_some hR
      obtain ⟨_, _, _, _, -, -, -, hspokeR⟩ := responderPq_eq_some hpq
      obtain ⟨_, hRI⟩ :=
        (Spoke.recvRaw hrecvR (.sendRaw hsendR (.recvRaw hrecvR' hspokeR))).delivered
        hfreshR hRI
      obtain ⟨rfl, -⟩ := hRI.recvRaw (length_pqRequiredMessage_le lawful) hrecvI
      rw [pqRequiredMessage, lawful.decode_encode] at hdecoded
      obtain rfl := Option.some.inj hdecoded
      exact absurd htype pqRequired_ne_trustedHello
  | fallback htype hpqI =>
    obtain ⟨-, -, -, -, -, hspokeI⟩ := initiatorPq_eq_some hpqI
    obtain ⟨_, hIR⟩ := (Spoke.sendRaw hsendI (.recvRaw hrecvI hspokeI)).delivered hfreshI hIR
    obtain ⟨ioR₁, hrecvR, hIR, hR | hR⟩ := responder_of_hello lawful hrole hR hIR
    · -- the responder says hello, and the initiator would not have fallen back
      obtain ⟨_, _, -, -, hspokeR⟩ := responderTrusted_eq_some hR
      obtain ⟨_, hRI⟩ := (Spoke.recvRaw hrecvR hspokeR).delivered hfreshR hRI
      obtain ⟨rfl, -⟩ := hRI.recvRaw (length_helloMessage_le lawful _) hrecvI
      rw [helloMessage, lawful.decode_encode] at hdecoded
      obtain rfl := Option.some.inj hdecoded
      exact absurd htype.symm pqRequired_ne_trustedHello
    · obtain ⟨ioR₂, _, ioR₃, hsendR, hrecvR', hpqR⟩ := responderPqFallback_eq_some hR
      rw [← input_sendRaw hsendR] at hIR
      obtain ⟨rfl, -⟩ := hIR.recvRaw (length_kemMessage_le lawful _ _ _) hrecvR'
      obtain ⟨ciphertext, secret, hencaps, hderivation, hspokeR⟩ :=
        responderPq_of_kemMessage lawful hpqR
      obtain ⟨_, hRI⟩ :=
        (Spoke.recvRaw hrecvR (.sendRaw hsendR (.recvRaw hrecvR' hspokeR))).delivered
        hfreshR hRI
      obtain ⟨-, hRI⟩ := hRI.recvRaw (length_pqRequiredMessage_le lawful) hrecvI
      rw [hderivation]
      exact initiatorPq_of_delivered lawful kem hencaps hRI hpqI

/-- Two ends that complete derive their keys from the same data. -/
theorem derivation_agreement (hroleI : initiator.isInitiator = true)
    (hI : doHandshake P S K initiator ioI = some doneI) :
    doneI.derivation = doneR.derivation := by
  simp only [doHandshake, hroleI, if_true] at hI
  split_ifs at hI
  · exact derivation_agreement_trusted lawful kem hrole hfreshI hfreshR hR hIR hRI hI
  · exact derivation_agreement_pq lawful kem hrole hfreshI hfreshR hR hIR hRI hI

end Fresh

/-! ## Keys and counters -/

/-- A completed handshake has sent and received one encrypted frame, on every path. -/
theorem spoke_doHandshake (h : doHandshake P S K me io = some done) :
    ∃ frames, Spoke frames io done.io := by
  cases hrole : me.isInitiator with
  | true =>
    simp only [doHandshake, hrole, if_true] at h
    split_ifs at h
    · obtain ⟨io₁, _, io₂, _, hsend, hrecv, -, hanswered⟩ := initiatorTrusted_eq_some h
      cases hanswered with
      | lightweight _ _ _ hspoke => exact ⟨_, .sendRaw hsend (.recvRaw hrecv hspoke)⟩
      | fallback _ hpq =>
        obtain ⟨-, -, -, -, -, hspoke⟩ := initiatorPq_eq_some hpq
        exact ⟨_, .sendRaw hsend (.recvRaw hrecv hspoke)⟩
    · obtain ⟨-, -, -, -, -, hspoke⟩ := initiatorPq_eq_some h
      exact ⟨_, hspoke⟩
  | false =>
    obtain ⟨_, io₁, _, hrecv, -, hresponds⟩ := responder_eq_some hrole h
    cases hresponds with
    | trusted _ _ h =>
      obtain ⟨_, _, -, -, hspoke⟩ := responderTrusted_eq_some h
      exact ⟨_, .recvRaw hrecv hspoke⟩
    | fallback _ _ h =>
      obtain ⟨_, _, _, hsend, hrecv', hpq⟩ := responderPqFallback_eq_some h
      obtain ⟨_, _, _, _, -, -, -, hspoke⟩ := responderPq_eq_some hpq
      exact ⟨_, .recvRaw hrecv (.sendRaw hsend (.recvRaw hrecv' hspoke))⟩
    | pq _ h =>
      obtain ⟨_, _, _, _, -, -, -, hspoke⟩ := responderPq_eq_some h
      exact ⟨_, .recvRaw hrecv hspoke⟩

/-- What the two ends agree on. -/
structure Agreed (doneI doneR : Completed) : Prop where
  initToResp : doneI.keys.sendKey = doneR.keys.recvKey
  respToInit : doneI.keys.recvKey = doneR.keys.sendKey
  fingerprint : doneI.keys.sessionFingerprint = doneR.keys.sessionFingerprint
  initCounter : doneI.io.sendCounter = doneR.io.recvCounter
  respCounter : doneI.io.recvCounter = doneR.io.sendCounter

/-- **Handshake agreement.** Whatever the trust of the two ends, their keys and random choices, if
both complete over FIFO channels then their keys match crosswise, they hold the same fingerprint
and the counters of each direction are equal. -/
theorem handshake_agreement (P : Primitives) (S : Suite) (K : KeyAgreement) (lawful : S.Lawful)
    (initiator responder : Local) (kem : KemCorrect K initiator responder)
    (hroleI : initiator.isInitiator = true) (hroleR : responder.isInitiator = false)
    (inputI inputR : Bytes) (sendsI sendsR : List Bool) (doneI doneR : Completed)
    (hI : doHandshake P S K initiator (Io.start inputI sendsI) = some doneI)
    (hR : doHandshake P S K responder (Io.start inputR sendsR) = some doneR)
    (hIR : Delivered doneI.io.sent inputR) (hRI : Delivered doneR.io.sent inputI) :
    Agreed doneI doneR := by
  have hsame : doneI.derivation = doneR.derivation :=
    derivation_agreement lawful kem hroleR rfl rfl hR hIR hRI hroleI hI
  have hkeysI := (established_doHandshake hI).keys
  have hkeysR := (established_doHandshake hR).keys
  rw [hroleI, hsame] at hkeysI
  rw [hroleR] at hkeysR
  obtain ⟨hsend, hrecv, hfingerprint⟩ := sessionKeys_cross P K doneR.derivation
  obtain ⟨_, hspokeI⟩ := spoke_doHandshake hI
  obtain ⟨_, hspokeR⟩ := spoke_doHandshake hR
  refine ⟨?_, ?_, ?_, ?_, ?_⟩
  · rw [hkeysI, hkeysR, hsend]
  · rw [hkeysI, hkeysR, hrecv]
  · rw [hkeysI, hkeysR, hfingerprint]
  · rw [hspokeI.sendCounter, hspokeR.recvCounter]
    rfl
  · rw [hspokeI.recvCounter, hspokeR.sendCounter]
    rfl

section Sample

open Wire.Sample

/-- The initiator trusts the responder, which does not: both end up with PQ. -/
theorem handshake_agreement_fallback : ∃ inputI inputR doneI doneR,
    doHandshake primitives sampleSuite sampleAgreement (sampleInitiator true)
        (Io.start inputI [true, true, true]) = some doneI ∧
      doHandshake primitives sampleSuite sampleAgreement (sampleResponder false)
        (Io.start inputR [true, true, true]) = some doneR ∧
      Agreed doneI doneR := by
  obtain ⟨framesI, framesR, ⟨doneI, hI, rfl⟩, ⟨doneR, hR, rfl⟩⟩ :=
    handshake_completes lawful_sampleSuite (kemCorrect_sample true false)
      (honest_sampleInitiator true) (honest_sampleResponder false) rfl rfl rfl
  exact ⟨_, _, doneI, doneR, hI, hR, handshake_agreement primitives sampleSuite sampleAgreement
    lawful_sampleSuite (sampleInitiator true) (sampleResponder false) (kemCorrect_sample true false)
    rfl rfl _ _ _ _ doneI doneR hI hR ⟨[], by simp⟩ ⟨[], by simp⟩⟩

end Sample

end Net
