import Chromatin.Net.Endpoint
import Chromatin.Properties.Transport

/-!
# The end of a connection

`message_loop` leaves its loop by `break` when a read fails, when a frame is too large or cannot be
decrypted, when a chunked message cannot be reassembled and when a message comes before the
authentication. None of these calls `close`, so `drain_send_queue` keeps waiting for messages, `run`
does not return, and the close callback is not called.

* `loop_end_closes_iff` — `closed_` is set whenever the loop has returned exactly if it was set
  before each `break`; as long as it is not set, the drain has not returned and the callback was not
  called
-/

namespace Net

open Infra

/-! ## The sending half -/

namespace Sender

variable {S : Suite} {key : Bytes} {s : Sender}

/-- What the calls on the sending half keep: a closed connection stays closed, the drain returns
only when it is closed, and stays where it has returned. -/
structure Sane (s s' : Sender) : Prop where
  closed : s.closed = true → s'.closed = true
  exits : s'.drain = .exited → s.drain = .exited ∨ s'.closed = true

theorem sane_enqueue (s : Sender) (m : Message) : s.Sane (s.enqueue S m) := by
  unfold enqueue
  split_ifs
  · exact ⟨id, .inl⟩
  · exact ⟨fun _ => rfl, .inl⟩
  · exact ⟨id, .inl⟩

theorem drain_enqueue (s : Sender) (m : Message) : (s.enqueue S m).drain = s.drain := by
  unfold enqueue
  split_ifs <;> rfl

theorem sane_closeGracefully (s : Sender) : s.Sane (s.closeGracefully S) := by
  unfold closeGracefully
  split_ifs
  · exact ⟨id, .inl⟩
  · exact ⟨fun _ => rfl, .inl⟩
  · exact ⟨id, .inl⟩

theorem sane_fail (s : Sender) : s.Sane s.fail := by
  refine ⟨id, fun h => .inr ?_⟩
  simp only [fail] at h ⊢
  split_ifs at h with hclosed
  exact hclosed

theorem sane_sendEncrypted (s : Sender) (msg : PendingMessage) (pc : SendPc) (plaintext : Bytes) :
    s.Sane (s.sendEncrypted S key msg pc plaintext) := by
  unfold sendEncrypted
  split_ifs
  · exact ⟨fun _ => rfl, fun _ => .inr rfl⟩
  · exact ⟨id, fun h => absurd h (by simp)⟩

theorem sane_next (s : Sender) : s.Sane (s.next S key) := by
  unfold next
  split_ifs with hclosed
  · exact ⟨id, fun _ => .inr hclosed⟩
  · split
    · exact ⟨id, fun h => absurd h (by simp)⟩
    · next msg rest _ =>
      have hsend (pc : SendPc) : Sane { s with queue := rest }
          ({ s with queue := rest }.sendEncrypted S key msg pc msg.encoded) :=
        sane_sendEncrypted _ _ _ _
      exact ⟨(hsend _).closed, (hsend _).exits⟩

theorem sane_advance (s : Sender) (msg : PendingMessage) (pc : SendPc) (raw : RawWrite) :
    s.Sane (s.advance S key msg pc raw) := by
  have hchunk (offset : Nat) : s.Sane (s.sendChunk S key msg offset) := by
    unfold sendChunk
    split_ifs <;> exact sane_sendEncrypted ..
  unfold advance
  split
  · exact ⟨id, fun h => absurd h (by simp)⟩
  · exact sane_next s
  · exact hchunk _
  · exact hchunk _
  · exact sane_next s

end Sender

namespace Endpoint

variable {S : Suite} {sendKey recvKey : Bytes} {p p' : Endpoint} {e : EndpointEvent}
  {raw : Option Bytes}

/-! ## The message loop -/

/-- What the message loop keeps: it does not touch the drain or the callback. -/
structure Quiet (p p' : Endpoint) : Prop where
  sender : p.sender.Sane p'.sender
  drain : p'.sender.drain = p.sender.drain
  callback : p'.closeCallback = p.closeCallback

theorem Quiet.refl (p : Endpoint) : p.Quiet p := ⟨⟨id, .inl⟩, rfl, rfl⟩

theorem quiet_close (p : Endpoint) : p.Quiet p.close := ⟨⟨fun _ => rfl, .inl⟩, rfl, rfl⟩

theorem quiet_sendPong (p : Endpoint) : p.Quiet (p.sendPong S) := by
  unfold sendPong
  dsimp only
  split_ifs
  · exact ⟨Sender.sane_enqueue _ _, Sender.drain_enqueue _ _, rfl⟩
  · exact ⟨Sender.sane_enqueue _ _, Sender.drain_enqueue _ _, rfl⟩

theorem quiet_handleMessage (p : Endpoint) (m : Message) : p.Quiet (p.handleMessage S m) := by
  unfold handleMessage
  split_ifs
  · exact ⟨⟨id, .inl⟩, rfl, rfl⟩
  · exact quiet_sendPong p
  · exact ⟨⟨fun _ => rfl, .inl⟩, rfl, rfl⟩
  · exact ⟨⟨id, .inl⟩, rfl, rfl⟩

theorem quiet_handle (p : Endpoint) (plaintext : Bytes) : p.Quiet (p.handle S plaintext) := by
  unfold handle
  split
  · dsimp only
    split_ifs <;> exact ⟨⟨id, .inl⟩, rfl, rfl⟩
  · split_ifs
    · dsimp only
      split_ifs <;> exact ⟨⟨id, .inl⟩, rfl, rfl⟩
    · split
      · exact ⟨⟨id, .inl⟩, rfl, rfl⟩
      · exact quiet_handleMessage p _

theorem quiet_recvEncrypted (p : Endpoint) (ciphertext : Bytes) :
    p.Quiet (p.recvEncrypted S recvKey ciphertext) := by
  unfold recvEncrypted
  split_ifs
  · exact ⟨⟨fun _ => rfl, .inl⟩, rfl, rfl⟩
  · split
    · exact ⟨⟨id, .inl⟩, rfl, rfl⟩
    · next plaintext _ =>
      have hquiet := quiet_handle (S := S) (p.opened plaintext) plaintext
      exact ⟨⟨hquiet.sender.closed, hquiet.sender.exits⟩, hquiet.drain, hquiet.callback⟩

/-! ## The breaks -/

/-- `recv_chunked` gives up on a header or a sub-frame. -/
def ReassemblyFails (p : Endpoint) (plaintext : Bytes) : Prop :=
  match p.receiver.reassembly with
  | some part => (p.receiver.continueChunked part plaintext).stopped = true
  | none => plaintext.head? = some 0x01 ∧ (p.receiver.beginChunked plaintext).stopped = true

/-- A message is complete. -/
def CompletesMessage (S : Suite) (p : Endpoint) (plaintext : Bytes) : Prop :=
  match p.receiver.reassembly with
  | some part => (p.receiver.continueChunked part plaintext).reassembly = none
  | none => plaintext.head? ≠ some 0x01 ∧ (S.decode plaintext).isSome = true

/-- What `message_loop` is left for by `break`. -/
inductive Breaks (S : Suite) (recvKey : Bytes) (p : Endpoint) : Option Bytes → Prop
  /-- the socket is closed, or the frame is too large -/
  | readFailed : Breaks S recvKey p none
  | undecryptable {ciphertext : Bytes} (hcounter : p.receiver.recvCounter < NONCE_LIMIT)
    (hdecrypt : S.decrypt ciphertext (makeNonce p.receiver.recvCounter) recvKey = none) :
    Breaks S recvKey p (some ciphertext)
  | reassemblyFailed {ciphertext plaintext : Bytes}
      (hcounter : p.receiver.recvCounter < NONCE_LIMIT)
    (hdecrypt : S.decrypt ciphertext (makeNonce p.receiver.recvCounter) recvKey = some plaintext)
    (hfails : (p.opened plaintext).ReassemblyFails plaintext) : Breaks S recvKey p (some ciphertext)
  | unauthenticated {ciphertext plaintext : Bytes} (hcounter : p.receiver.recvCounter < NONCE_LIMIT)
    (hdecrypt : S.decrypt ciphertext (makeNonce p.receiver.recvCounter) recvKey = some plaintext)
    (hcompletes : (p.opened plaintext).CompletesMessage S plaintext)
    (hauth : p.authenticated = false) :
    Breaks S recvKey p (some ciphertext)

/-- At its head the loop returns only if the connection is closed. -/
theorem closed_of_loopHead (h : p.loopHead.loop = .returned) : p.loopHead.sender.closed = true := by
  simp only [loopHead] at h ⊢
  split_ifs at h with hclosed
  exact hclosed

theorem closed_of_handleMessage {m : Message} (hauth : p.authenticated = true)
    (h : (p.handleMessage S m).loop = .returned) : (p.handleMessage S m).sender.closed = true := by
  unfold handleMessage at h ⊢
  rw [if_neg (by simp [hauth])] at h ⊢
  split_ifs at h ⊢
  · unfold sendPong at h ⊢
    dsimp only at h ⊢
    split_ifs at h ⊢
    exact closed_of_loopHead h
  · exact closed_of_loopHead h
  · exact closed_of_loopHead h

theorem handle_of_breaks {plaintext : Bytes}
    (h : p.ReassemblyFails plaintext ∨ (p.CompletesMessage S plaintext ∧ p.authenticated = false)) :
    p.handle S plaintext = p.breakLoop := by
  unfold handle
  unfold ReassemblyFails CompletesMessage at h
  cases hpart : p.receiver.reassembly with
  | some part =>
    rw [hpart] at h
    rcases h with hfails | ⟨hcompletes, hauth⟩
    · simp [hfails]
    · simp [hcompletes, hauth]
  | none =>
    rw [hpart] at h
    rcases h with ⟨hfirst, hstopped⟩ | ⟨⟨hfirst, hsome⟩, hauth⟩
    · simp [hfirst, hstopped]
    · obtain ⟨m, hm⟩ := Option.isSome_iff_exists.mp hsome
      simp [hfirst, hm, handleMessage, hauth]

theorem closed_of_handle {plaintext : Bytes} (hfails : ¬ p.ReassemblyFails plaintext)
    (hcompletes : p.CompletesMessage S plaintext →
      p.authenticated = true) (hreading : p.loop = .reading)
    (h : (p.handle S plaintext).loop = .returned) :
    (p.handle S plaintext).sender.closed = true := by
  have hstays (receiver : Receiver) : ({ p with receiver } : Endpoint).loop ≠ .returned := by
    show p.loop ≠ .returned
    simp [hreading]
  unfold ReassemblyFails at hfails
  unfold CompletesMessage at hcompletes
  unfold handle at h ⊢
  cases hpart : p.receiver.reassembly with
  | some part =>
    simp only [hpart] at hfails hcompletes h ⊢
    rw [if_neg hfails] at h ⊢
    by_cases hsome : (p.receiver.continueChunked part plaintext).reassembly.isSome = true
    · rw [if_pos hsome] at h
      exact absurd h (hstays _)
    · have hauth := hcompletes (by simpa using hsome)
      rw [if_neg hsome, if_neg (by simp [hauth])] at h ⊢
      exact closed_of_loopHead h
  | none =>
    simp only [hpart] at hfails hcompletes h ⊢
    by_cases hhead : plaintext.head? = some 0x01
    · rw [if_pos hhead, if_neg fun hstopped => hfails ⟨hhead, hstopped⟩] at h
      exact absurd h (hstays _)
    · rw [if_neg hhead] at h ⊢
      cases hdecode : S.decode plaintext with
      | none =>
        rw [hdecode] at h
        exact closed_of_loopHead h
      | some m =>
        rw [hdecode] at h
        exact closed_of_handleMessage (hcompletes ⟨hhead, by simp [hdecode]⟩) h

/-- By a `break` the loop returns and nothing is closed. -/
theorem received_of_breaks (hreading : p.loop = .reading) (h : Breaks S recvKey p raw) :
    (p.step S sendKey recvKey (.received raw)).loop = .returned ∧
      (p.step S sendKey recvKey (.received raw)).sender = p.sender := by
  simp only [step, if_pos hreading]
  cases h with
  | readFailed => exact ⟨rfl, rfl⟩
  | undecryptable hcounter hdecrypt =>
    simp only [recvEncrypted, if_neg (Nat.not_le.mpr hcounter), hdecrypt]
    exact ⟨rfl, rfl⟩
  | reassemblyFailed hcounter hdecrypt hfails =>
    simp only [recvEncrypted, if_neg (Nat.not_le.mpr hcounter), hdecrypt,
      handle_of_breaks (.inl hfails)]
    exact ⟨rfl, rfl⟩
  | unauthenticated hcounter hdecrypt hcompletes hauth =>
    simp only [recvEncrypted, if_neg (Nat.not_le.mpr hcounter), hdecrypt,
      handle_of_breaks (.inr ⟨hcompletes, hauth⟩)]
    exact ⟨rfl, rfl⟩

/-- Only what is received and the end of a Pong let the loop go on. -/
theorem loop_step (hreceived : ∀ raw, e ≠ .received raw) (hponged : e ≠ .ponged) :
    (p.step S sendKey recvKey e).loop = p.loop := by
  cases e with
  | received raw => exact absurd rfl (hreceived raw)
  | ponged => exact absurd rfl hponged
  | closeGracefully =>
    simp only [step, closeGracefully]
    split_ifs <;> rfl
  | wake | written ok =>
    simp only [step]
    split <;> rfl
  | goodbyeSent i | joined =>
    simp only [step]
    split_ifs <;> rfl
  | send m | close => rfl

/-- Every other way out of the loop leads past a set `closed_`. -/
theorem closed_of_returned (hrunning : p.loop ≠ .returned)
    (hbreaks : ∀ raw, e = .received raw → p.loop = .reading → ¬ Breaks S recvKey p raw)
    (h : (p.step S sendKey recvKey e).loop = .returned) :
    (p.step S sendKey recvKey e).sender.closed = true := by
  cases e with
  | received raw =>
    simp only [step] at h ⊢
    split_ifs at h ⊢ with hreading
    · have hbreaks := hbreaks raw rfl hreading
      cases raw with
      | none => exact absurd .readFailed hbreaks
      | some ciphertext =>
        simp only [recvEncrypted] at h ⊢
        by_cases hcounter : p.receiver.recvCounter ≥ NONCE_LIMIT
        · rw [if_pos hcounter]
          rfl
        · rw [if_neg hcounter] at h ⊢
          cases hdecrypt : S.decrypt ciphertext (makeNonce p.receiver.recvCounter) recvKey with
          | none => exact absurd (.undecryptable (Nat.lt_of_not_le hcounter) hdecrypt) hbreaks
          | some plaintext =>
            rw [hdecrypt] at h
            refine closed_of_handle (fun hfails => hbreaks ?_) (fun hcompletes => ?_) hreading h
            · exact .reassemblyFailed (Nat.lt_of_not_le hcounter) hdecrypt hfails
            · by_contra hauth
              exact hbreaks (.unauthenticated (Nat.lt_of_not_le hcounter) hdecrypt hcompletes
                (Bool.eq_false_iff.mpr hauth))
    · exact absurd h hrunning
  | ponged =>
    simp only [step] at h ⊢
    split at h
    · split_ifs at h ⊢
      · exact closed_of_loopHead h
      · exact absurd h hrunning
    · exact absurd h hrunning
    · exact absurd h hrunning
  | _ =>
    rw [loop_step (by simp) (by simp)] at h
    exact absurd h hrunning

/-! ## The drain and the callback -/

theorem sane_step (p : Endpoint) (e : EndpointEvent) :
    p.sender.Sane (p.step S sendKey recvKey e).sender := by
  cases e with
  | send m => exact Sender.sane_enqueue _ _
  | closeGracefully =>
    simp only [step, closeGracefully]
    split_ifs
    · exact (quiet_close p).sender
    · exact Sender.sane_closeGracefully _
    · exact Sender.sane_closeGracefully _
  | close => exact (quiet_close p).sender
  | wake =>
    simp only [step]
    split
    · exact Sender.sane_next _
    · exact (Quiet.refl p).sender
    · exact (Quiet.refl p).sender
  | written ok =>
    simp only [step]
    split
    · dsimp only
      split_ifs
      · exact Sender.sane_advance ..
      · exact Sender.sane_fail _
    · exact (Quiet.refl p).sender
    · exact (Quiet.refl p).sender
  | received raw =>
    simp only [step]
    split_ifs
    · cases raw with
      | none => exact (Quiet.refl p).sender
      | some ciphertext => exact (quiet_recvEncrypted p ciphertext).sender
    · exact (Quiet.refl p).sender
  | ponged =>
    simp only [step]
    split
    · split_ifs <;> exact (Quiet.refl p).sender
    · exact (Quiet.refl p).sender
    · exact (Quiet.refl p).sender
  | goodbyeSent i =>
    simp only [step]
    split_ifs
    · exact (quiet_close p).sender
    · exact (Quiet.refl p).sender
  | joined =>
    simp only [step]
    split_ifs <;> exact (Quiet.refl p).sender

/-- As long as the connection is not closed, the drain has not returned and the callback was not
called. -/
structure Open (p : Endpoint) : Prop where
  drain : p.sender.drain = .exited → p.sender.closed = true
  callback : p.closeCallback ≠ none → p.sender.closed = true

theorem callback_step (p : Endpoint) (e : EndpointEvent) :
    (p.step S sendKey recvKey e).closeCallback = p.closeCallback ∨ p.sender.drain = .exited := by
  cases e with
  | received raw =>
    simp only [step]
    split_ifs
    · cases raw with
      | none => exact .inl rfl
      | some ciphertext => exact .inl (quiet_recvEncrypted p ciphertext).callback
    · exact .inl rfl
  | joined =>
    simp only [step]
    split_ifs with hjoined
    · exact .inr hjoined.2.1
    · exact .inl rfl
  | closeGracefully =>
    simp only [step, closeGracefully]
    split_ifs <;> exact .inl rfl
  | wake | written ok =>
    simp only [step]
    split <;> exact .inl rfl
  | ponged =>
    simp only [step]
    split
    · split_ifs <;> exact .inl rfl
    · exact .inl rfl
    · exact .inl rfl
  | goodbyeSent i =>
    simp only [step]
    split_ifs <;> exact .inl rfl
  | send m | close => exact .inl rfl

theorem Open.step (h : p.Open) : (p.step S sendKey recvKey e).Open := by
  have hsane : p.sender.Sane (p.step S sendKey recvKey e).sender := sane_step p e
  constructor
  · intro hexited
    rcases hsane.exits hexited with hbefore | hclosed
    · exact hsane.closed (h.drain hbefore)
    · exact hclosed
  · intro hcallback
    rcases callback_step p e with hsame | hexited
    · exact hsane.closed (h.callback (hsame ▸ hcallback))
    · exact hsane.closed (h.drain hexited)

/-! ## Whole runs -/

/-- **When the loop has returned, the connection is closed, exactly if** it was closed before each
`break`. As long as it is not closed, the drain has not returned, and the close callback was not
called. -/
theorem loop_end_closes_iff (S : Suite) (sendKey recvKey : Bytes) (sendCounter recvCounter : Nat)
    (authenticated : Bool) (events : List EndpointEvent) :
    let start := start sendCounter recvCounter authenticated
    ((∀ before, before <+: events → (run (step S sendKey recvKey) start before).loop = .returned →
        (run (step S sendKey recvKey) start before).sender.closed = true) ↔
      AllSteps (step S sendKey recvKey) (fun p e => ∀ raw, e = .received raw → p.loop = .reading →
        Breaks S recvKey p raw → p.sender.closed = true) start events) ∧
    ∀ before, before <+: events →
    (run (step S sendKey recvKey) start before).sender.closed = false →
      (run (step S sendKey recvKey) start before).sender.drain ≠ .exited ∧
        (run (step S sendKey recvKey) start before).closeCallback = none := by
  intro start
  refine ⟨⟨fun hclosed => ?_, ?_⟩, ?_⟩
  · refine allSteps_iff_forall.mpr ?_
    rintro before e after rfl raw rfl hreading hbreaks
    obtain ⟨hreturned, hsender⟩ := @received_of_breaks _ sendKey _ _ _ hreading hbreaks
    have hnext := hclosed (before ++ [.received raw]) ⟨after, by simp⟩
    rw [run_append, run_cons, run_nil, hsender] at hnext
    exact hnext hreturned
  · rintro hbreaks before ⟨after, rfl⟩
    refine run_invariant (I := fun p : Endpoint => p.loop = .returned → p.sender.closed = true) ?_
      (fun h => absurd h (by simp [start, Endpoint.start])) (allSteps_append.mp hbreaks).1
    intro p e hinv hstep hreturned
    have hsane : p.sender.Sane (p.step S sendKey recvKey e).sender := sane_step p e
    by_cases hbefore : p.loop = .returned
    · exact hsane.closed (hinv hbefore)
    · by_cases hopen : p.sender.closed = true
      · exact hsane.closed hopen
      · exact closed_of_returned hbefore (fun raw he hreading hb =>
          hopen (hstep raw he hreading hb)) hreturned
  · intro before _ hopen
    have hinv : (run (step S sendKey recvKey) start before).Open := by
      refine run_invariant (C := fun _ _ => True) (fun p e h _ => h.step) ?_
        (allSteps_of_forall fun _ _ _ _ => trivial)
      exact ⟨fun h => absurd h (by simp [start, Endpoint.start]), fun h => absurd rfl h⟩
    refine ⟨fun hexited => ?_, ?_⟩
    · simp [hinv.drain hexited] at hopen
    · by_contra hcallback
      simp [hinv.callback hcallback] at hopen

section Sample

/-- The remote end closes the socket; the drain is woken once more, and `run` may go on if it can.
-/
def hangUp : List EndpointEvent := [.received none, .wake, .joined]

/-- **The loop has returned and the connection is not closed**: the drain waits, and the callback is
not called. The same goes for a frame that cannot be decrypted. -/
theorem loop_end_leaves_open :
    run (step sampleSuite [] []) (start 0 0 true) hangUp =
      { start 0 0 true with loop := .returned } ∧
      (start 0 0 true).sender.drain = .waiting ∧ (start 0 0 true).sender.closed = false ∧
      (run (step sampleSuite [] []) (start 0 0 true) [.received (some []), .wake, .joined]).loop =
        .returned ∧
      (run (step sampleSuite [] []) (start 0 0 true) [.received (some []), .wake, .joined]).sender =
        (start 0 0 true).sender := by
  decide

end Sample

end Endpoint

end Net
