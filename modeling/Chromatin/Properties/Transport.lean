import Chromatin.Net.Connection

/-!
# Delivery over a connection

The frames a message is sent as are `framesOf` of what it becomes in the send queue, and `plan` is
the sequence of frames for a sequence of messages. Two invariants carry the result:

* the plaintexts encrypted so far, those the message in hand still has to send, and those of the
  queue are together the plan of the messages appended (`Sender.OnPlan`);
* the frames the receiver has opened and the bytes on the wire are the beginning of the encrypted
  frames in the order of their counters (`Inv.stream`).

What the receiver reassembles is then the beginning of the plan (`Aligned`), so the messages it
hands over are the beginning of the messages appended.
-/

namespace Net

open Infra Util

variable {S : Suite} {key : Bytes} {c : Nat} {offset : Nat} {m : Message} {s : Sender}
  {msg : PendingMessage} {frames : List Bytes} {r : Receiver} {payload : Bytes} {pc : SendPc}
  {appended : List Message}

/-! ## The plan -/

theorem streamingThreshold_pos : 0 < STREAMING_THRESHOLD := by decide

/-- The sub-frames of a payload from an offset on. -/
def chunksFrom (payload : Bytes) (offset : Nat) : List Bytes :=
  if _h : offset < payload.length then
    payloadChunk payload offset ::
      chunksFrom payload (offset + min STREAMING_THRESHOLD (payload.length - offset))
  else []
termination_by payload.length - offset
decreasing_by
  have := streamingThreshold_pos
  omega

/-- The frames a message of the send queue is sent as. -/
def framesOf (msg : PendingMessage) : List Bytes :=
  if msg.isChunked then msg.encoded :: (chunksFrom msg.chunkedPayload 0 ++ [[]]) else [msg.encoded]

/-- The frames of a sequence of messages. -/
def plan (S : Suite) (messages : List Message) : List Bytes :=
  messages.flatMap fun m => framesOf (pendingOf S m)

theorem plan_append (as bs : List Message) : plan S (as ++ bs) = plan S as ++ plan S bs :=
  List.flatMap_append

theorem plan_singleton (m : Message) : plan S [m] = framesOf (pendingOf S m) := by
  simp [plan]

theorem plan_cons (m : Message) (rest : List Message) :
    plan S (m :: rest) = framesOf (pendingOf S m) ++ plan S rest :=
  List.flatMap_cons

theorem chunksFrom_of_lt (h : offset < payload.length) :
    chunksFrom payload offset = payloadChunk payload offset ::
      chunksFrom payload (offset + min STREAMING_THRESHOLD (payload.length - offset)) := by
  rw [chunksFrom, dif_pos h]

theorem chunksFrom_of_ge (h : ¬ offset < payload.length) :
    chunksFrom payload offset = [] := by
  rw [chunksFrom, dif_neg h]

theorem length_payloadChunk (payload : Bytes) (offset : Nat) :
    (payloadChunk payload offset).length =
      min STREAMING_THRESHOLD (payload.length - offset) := by
  rw [payloadChunk, List.length_take, List.length_drop]
  omega

/-- The payload up to a chunk, and the chunk. -/
theorem take_append_payloadChunk (payload : Bytes) (offset : Nat) :
    payload.take offset ++ payloadChunk payload offset =
      payload.take (offset + min STREAMING_THRESHOLD (payload.length - offset)) := by
  rw [payloadChunk, List.take_add]

theorem pendingOf_chunked (h : m.payload.length ≥ STREAMING_THRESHOLD) :
    framesOf (pendingOf S m) = chunkedHeader m :: (chunksFrom m.payload 0 ++ [[]]) := by
  simp [framesOf, pendingOf, h]

theorem pendingOf_single (h : ¬ m.payload.length ≥ STREAMING_THRESHOLD) :
    framesOf (pendingOf S m) = [S.encode m] := by
  simp [framesOf, pendingOf, h]

theorem length_of_mem_chunksFrom {frame : Bytes}
    (h : frame ∈ chunksFrom payload offset) : frame.length ≤ STREAMING_THRESHOLD := by
  induction offset using chunksFrom.induct payload with
  | case1 offset hlt ih =>
    rw [chunksFrom_of_lt hlt, List.mem_cons] at h
    rcases h with rfl | h
    · rw [length_payloadChunk]
      omega
    · exact ih h
  | case2 offset hge =>
    rw [chunksFrom_of_ge hge] at h
    simp at h

/-- No frame is too large to be read. -/
theorem length_of_mem_plan (lawful : S.Lawful) {messages : List Message} {frame : Bytes}
    (h : frame ∈ plan S messages) : frame.length + TAG_SIZE ≤ MAX_FRAME_SIZE := by
  obtain ⟨m, -, hframe⟩ := List.mem_flatMap.mp h
  have hthreshold : STREAMING_THRESHOLD + TRANSPORT_ENVELOPE_MARGIN + TAG_SIZE ≤
      MAX_FRAME_SIZE := by
    decide
  by_cases hsize : m.payload.length ≥ STREAMING_THRESHOLD
  · rw [pendingOf_chunked hsize, List.mem_cons, List.mem_append, List.mem_singleton] at hframe
    rcases hframe with rfl | hchunk | rfl
    · simp only [chunkedHeader, List.length_cons, List.length_append, length_writeU32Be,
        length_writeU64Be]
      decide
    · have := length_of_mem_chunksFrom hchunk
      omega
    · decide
  · rw [pendingOf_single hsize, List.mem_singleton] at hframe
    have := lawful.length_encode m (by omega)
    rw [hframe]
    omega

/-! ## The sending end -/

/-- Every encryption used the next counter. -/
structure Sender.Numbered (c : Nat) (s : Sender) : Prop where
  counters : s.sealed.map Prod.fst = List.range' c s.sealed.length
  counter : s.sendCounter = c + s.sealed.length

/-- What the message in hand still has to send. -/
def Drain.remaining : Drain → List Bytes
  | .writing msg .header _ => chunksFrom msg.chunkedPayload 0 ++ [[]]
  | .writing msg (.chunk offset) _ =>
    chunksFrom msg.chunkedPayload
      (offset + min STREAMING_THRESHOLD (msg.chunkedPayload.length - offset)) ++ [[]]
  | _ => []

/-- What of the current frame has not been written. -/
def Drain.unwritten : Drain → Bytes
  | .writing _ _ (.length data) => rawFrame data
  | .writing _ _ (.body data) => data
  | _ => []

/-- The bytes of the encrypted frames. -/
def sealedBytes (S : Suite) (key : Bytes) (frames : List Frame) : Bytes :=
  frames.flatMap fun frame => rawFrame (S.encrypt frame.2 (makeNonce frame.1) key)

theorem sealedBytes_append (as bs : List Frame) :
    sealedBytes S key (as ++ bs) = sealedBytes S key as ++ sealedBytes S key bs :=
  List.flatMap_append

theorem sealedBytes_singleton (frame : Frame) :
    sealedBytes S key [frame] = rawFrame (S.encrypt frame.2 (makeNonce frame.1) key) := by
  simp [sealedBytes]

/-- The encryptions follow the plan, and as long as the coroutine runs nothing is lost. -/
structure Sender.OnPlan (S : Suite) (s : Sender) : Prop where
  sent : s.sealed.map Prod.snd <+: plan S s.appended
  ahead : s.drain ≠ .exited → s.sealed.map Prod.snd ++
    (s.drain.remaining ++ s.queue.flatMap framesOf) = plan S s.appended

/-- What an operation of the drain coroutine does to the record of the encryptions. -/
structure Sender.Progress (S : Suite) (key : Bytes) (c : Nat) (s s' : Sender) : Prop where
  appended : s'.appended = s.appended
  grows : s.sealed <+: s'.sealed
  numbered : s.Numbered c → s'.Numbered c
  bytes : sealedBytes S key s'.sealed = sealedBytes S key s.sealed ++ s'.drain.unwritten

theorem Sender.Progress.idle {s' : Sender} (happended : s'.appended = s.appended)
    (hsealed : s'.sealed = s.sealed) (hcounter : s'.sendCounter = s.sendCounter)
    (hdrain : s'.drain.unwritten = []) : s.Progress S key c s' := by
  refine ⟨happended, ?_, fun h => ⟨?_, ?_⟩, ?_⟩
  · exact ⟨[], by rw [hsealed, List.append_nil]⟩
  · rw [hsealed]
    exact h.counters
  · rw [hsealed, hcounter]
    exact h.counter
  · rw [hsealed, hdrain, List.append_nil]

theorem unwritten_fail (s : Sender) : s.fail.drain.unwritten = [] := by
  unfold Sender.fail
  cases s.closed <;> rfl

theorem progress_sendEncrypted (s : Sender) (msg : PendingMessage) (pc : SendPc)
    (plaintext : Bytes) : s.Progress S key c (s.sendEncrypted S key msg pc plaintext) := by
  unfold Sender.sendEncrypted
  split_ifs
  · exact .idle rfl rfl rfl (unwritten_fail _)
  · refine ⟨rfl, List.prefix_append _ _, fun h => ⟨?_, ?_⟩, ?_⟩
    · simp only [List.map_append, List.map_cons, List.map_nil, List.length_append,
        List.length_cons, List.length_nil, h.counters, h.counter]
      exact List.range'_1_concat.symm
    · simp only [List.length_append, List.length_cons, List.length_nil, h.counter]
      omega
    · rw [sealedBytes_append, sealedBytes_singleton]
      rfl

/-- Sending the next frame of the plan. -/
theorem onPlan_sendEncrypted {plaintext : Bytes}
    {rest : List Bytes} (hrest : ∀ raw, (Drain.writing msg pc raw).remaining = rest)
    (hplan : s.sealed.map Prod.snd ++ (plaintext :: rest ++ s.queue.flatMap framesOf) =
      plan S s.appended) : (s.sendEncrypted S key msg pc plaintext).OnPlan S := by
  unfold Sender.sendEncrypted
  split_ifs
  · exact ⟨⟨_, hplan⟩, fun h => absurd rfl h⟩
  · have hsplit : (s.sealed ++ [(s.sendCounter, plaintext)]).map Prod.snd ++
        (rest ++ s.queue.flatMap framesOf) = plan S s.appended := by
      rw [← hplan]
      simp
    refine ⟨⟨_, hsplit⟩, fun _ => ?_⟩
    dsimp only
    rw [hrest]
    exact hsplit

theorem progress_next (s : Sender) : s.Progress S key c (s.next S key) := by
  unfold Sender.next
  split_ifs
  · exact .idle rfl rfl rfl rfl
  · cases s.queue with
    | nil => exact .idle rfl rfl rfl rfl
    | cons msg rest =>
      have h : Sender.Progress S key c { s with queue := rest } _ :=
        progress_sendEncrypted { s with queue := rest } msg
          (if msg.isChunked then .header else .single) msg.encoded
      exact ⟨h.appended, h.grows, fun hs => h.numbered ⟨hs.counters, hs.counter⟩, h.bytes⟩

/-- The next message is taken off the queue when the one before is sent. -/
theorem onPlan_next
    (hplan : s.sealed.map Prod.snd ++ s.queue.flatMap framesOf = plan S s.appended) :
    (s.next S key).OnPlan S := by
  unfold Sender.next
  split_ifs
  · exact ⟨⟨_, hplan⟩, fun h => absurd rfl h⟩
  · cases hqueue : s.queue with
    | nil =>
      rw [hqueue] at hplan
      exact ⟨⟨_, hplan⟩, fun _ => hplan⟩
    | cons msg rest =>
      rw [hqueue, List.flatMap_cons, framesOf] at hplan
      dsimp only
      split_ifs at hplan ⊢ with hchunked
      · exact onPlan_sendEncrypted (fun _ => rfl) hplan
      · exact onPlan_sendEncrypted (fun _ => rfl) hplan

theorem progress_sendChunk (s : Sender) (msg : PendingMessage) (offset : Nat) :
    s.Progress S key c (s.sendChunk S key msg offset) := by
  unfold Sender.sendChunk
  split_ifs
  · exact progress_sendEncrypted s msg _ _
  · exact progress_sendEncrypted s msg _ _

theorem onPlan_sendChunk
    (hplan : s.sealed.map Prod.snd ++
      (chunksFrom msg.chunkedPayload offset ++ [[]] ++ s.queue.flatMap framesOf) =
        plan S s.appended) : (s.sendChunk S key msg offset).OnPlan S := by
  unfold Sender.sendChunk
  split_ifs with hlt
  · rw [chunksFrom_of_lt hlt] at hplan
    exact onPlan_sendEncrypted (fun _ => rfl) hplan
  · rw [chunksFrom_of_ge hlt] at hplan
    exact onPlan_sendEncrypted (fun _ => rfl) hplan

/-- A frame has been written: the next one follows. -/
theorem progress_advance_body (s : Sender) (msg : PendingMessage) (pc : SendPc) (data : Bytes) :
    s.Progress S key c (s.advance S key msg pc (.body data)) := by
  cases pc with
  | single => exact progress_next s
  | header => exact progress_sendChunk s msg 0
  | chunk offset => exact progress_sendChunk s msg _
  | sentinel => exact progress_next s

theorem onPlan_advance {raw : RawWrite}
    (h : s.OnPlan S) (hdrain : s.drain = .writing msg pc raw) :
    (s.advance S key msg pc raw).OnPlan S := by
  have hplan := h.ahead (by simp [hdrain])
  rw [hdrain] at hplan
  cases raw with
  | length data =>
    refine ⟨h.sent, fun _ => ?_⟩
    cases pc <;> exact hplan
  | body data =>
    cases pc with
    | single => exact onPlan_next hplan
    | header => exact onPlan_sendChunk hplan
    | chunk offset => exact onPlan_sendChunk hplan
    | sentinel => exact onPlan_next hplan

/-! ## Appending -/

/-- A step of the sending end that may append messages to the queue. -/
structure Sender.Appends (S : Suite) (s s' : Sender) : Prop where
  appended : s.appended <+: s'.appended
  sealed : s'.sealed = s.sealed
  counter : s'.sendCounter = s.sendCounter
  drain : s'.drain = s.drain
  onPlan : s.OnPlan S → s'.OnPlan S

theorem Sender.Appends.refl (s : Sender) : s.Appends S s :=
  ⟨List.prefix_refl _, rfl, rfl, rfl, id⟩

theorem appends_close (s : Sender) : s.Appends S { s with closed := true } :=
  ⟨List.prefix_refl _, rfl, rfl, rfl, fun h => ⟨h.sent, h.ahead⟩⟩

theorem appends_push (s : Sender) (m : Message) (closing : Bool) :
    s.Appends S { s with
      queue := s.queue ++ [pendingOf S m], appended := s.appended ++ [m], closing } := by
  refine ⟨List.prefix_append _ _, rfl, rfl, rfl, fun h => ⟨?_, fun hdrain => ?_⟩⟩
  · exact h.sent.trans ⟨_, (plan_append _ _).symm⟩
  · have hplan := h.ahead hdrain
    dsimp only
    rw [plan_append, ← hplan, plan_singleton]
    simp

theorem appends_enqueue (s : Sender) (m : Message) : s.Appends S (s.enqueue S m) := by
  unfold Sender.enqueue
  split_ifs
  · exact .refl s
  · exact appends_close s
  · exact appends_push s m s.closing

theorem appends_closeGracefully (s : Sender) : s.Appends S (s.closeGracefully S) := by
  unfold Sender.closeGracefully
  split_ifs
  · exact .refl s
  · exact appends_close s
  · exact appends_push s { type := TransportMsgType.Goodbye, payload := [] } true

/-! ## The receiving end -/

/-- The messages that the loop does not handle itself. -/
def isData (m : Message) : Bool :=
  m.type != TransportMsgType.Ping && m.type != TransportMsgType.Pong &&
    m.type != TransportMsgType.Goodbye

/-- How far the receiver is in the message it is reading: at its start, or in the middle of a
chunked one. -/
inductive Partway (S : Suite) : List Bytes → List Message → Option Reassembly → Prop
  | start (rest : List Message) : Partway S [] rest none
  | middle (part : List Bytes) (m : Message) (rest : List Message) (offset : Nat)
      (total : UInt64) :
      part ++ (chunksFrom m.payload offset ++ [[]]) = framesOf (pendingOf S m) →
      Partway S part (m :: rest) (some
        { type := m.type, requestId := m.requestId, totalPayloadSize := total
          payload := m.payload.take offset })

/-- The frames read so far are those of the messages handed over and of a part of the next. -/
def Aligned (S : Suite) (appended : List Message) (frames : List Bytes) (r : Receiver) : Prop :=
  ∃ done rest part, appended = done ++ rest ∧ frames = plan S done ++ part ∧
    r.delivered.filter isData = done.filter isData ∧ Partway S part rest r.reassembly

theorem Aligned.mono
    (h : Aligned S appended frames r) (more : List Message) :
    Aligned S (appended ++ more) frames r := by
  obtain ⟨done, rest, part, rfl, hframes, hdelivered, hpart⟩ := h
  refine ⟨done, rest ++ more, part, List.append_assoc _ _ _, hframes, hdelivered, ?_⟩
  generalize r.reassembly = reassembly at hpart ⊢
  cases hpart with
  | start rest => exact .start _
  | middle part m rest offset total hrest => exact .middle part m (rest ++ more) offset total hrest

/-- A message has been read to its end. -/
theorem aligned_message {done rest : List Message} {part : List Bytes}
    (hframes : frames = plan S done ++ part)
    (hpart : part = framesOf (pendingOf S m))
    (hdelivered : r.delivered.filter isData = (done ++ [m]).filter isData)
    (hreassembly : r.reassembly = none) : Aligned S (done ++ m :: rest) frames r := by
  refine ⟨done ++ [m], rest, [], by simp, ?_, hdelivered, ?_⟩
  · rw [hframes, hpart, plan_append, plan_singleton, List.append_nil]
  · rw [hreassembly]
    exact .start rest

theorem Aligned.delivered
    (h : Aligned S appended frames r) : r.delivered.filter isData <+: appended.filter isData := by
  obtain ⟨done, rest, part, rfl, -, hdelivered, -⟩ := h
  rw [hdelivered, List.filter_append]
  exact List.prefix_append _ _

/-- What a frame may do to a receiver that is aligned with the plan. -/
def Follows (S : Suite) (appended : List Message) (frames : List Bytes) (r r' : Receiver) : Prop :=
  (r'.stopped = true ∧ r'.delivered = r.delivered) ∨ Aligned S appended frames r'

theorem follows_dispatch {done rest : List Message}
    (hframes : frames = plan S done ++ framesOf (pendingOf S m))
    (hdelivered : r.delivered.filter isData = done.filter isData) (hnone : r.reassembly = none) :
    Follows S (done ++ m :: rest) frames r (r.dispatch m) := by
  unfold Receiver.dispatch
  split_ifs with hping hgoodbye
  · refine .inr (aligned_message hframes rfl ?_ hnone)
    have hcontrol : isData m = false := by
      rcases hping with h | h <;> simp [isData, h]
    simp [hdelivered, hcontrol]
  · exact .inl ⟨rfl, rfl⟩
  · refine .inr (aligned_message hframes rfl ?_ hnone)
    rw [List.filter_append, hdelivered, List.filter_append]

theorem readU64Be_chunkedHeader (m : Message) :
    readU64Be (chunkedHeader m) 6 = some (UInt64.ofNat m.payload.length) := by
  simp [chunkedHeader]

theorem beginChunked_chunkedHeader (r : Receiver) (m : Message) :
    r.beginChunked (chunkedHeader m) =
      if (UInt64.ofNat m.payload.length).toNat > MAX_CHUNKED_WIRE_PAYLOAD then
        { r with stopped := true }
      else
        { r with
          reassembly := some
            { type := m.type, requestId := m.requestId
              totalPayloadSize := UInt64.ofNat m.payload.length, payload := [] } } := by
  have hid : readU32Be (chunkedHeader m) 2 = some m.requestId := by simp [chunkedHeader]
  have hdrop : (chunkedHeader m).drop CHUNKED_HEADER_SIZE = [] := by
    rw [List.drop_eq_nil_iff]
    simp [chunkedHeader, CHUNKED_HEADER_SIZE]
  have htype : (chunkedHeader m)[1]? = some m.type := rfl
  unfold Receiver.beginChunked
  rw [htype, hid, readU64Be_chunkedHeader, hdrop]

/-- **The next frame of the plan keeps the receiver aligned, or stops it.** -/
theorem follows_handle (lawful : S.Lawful)
    {plaintext : Bytes} (h : Aligned S appended frames r)
    (hnext : frames ++ [plaintext] <+: plan S appended) :
    Follows S appended (frames ++ [plaintext]) r (r.handle S plaintext) := by
  obtain ⟨done, rest, part, rfl, rfl, hdelivered, hpart⟩ := h
  rw [plan_append, List.append_assoc, List.prefix_append_right_inj] at hnext
  unfold Receiver.handle
  generalize hreassembly : r.reassembly = reassembly at hpart
  cases hpart with
  | start rest =>
    cases rest with
    | nil => simp [plan] at hnext
    | cons m rest =>
      rw [plan_cons] at hnext
      by_cases hsize : m.payload.length ≥ STREAMING_THRESHOLD
      · rw [pendingOf_chunked hsize, List.nil_append, List.cons_append,
          List.cons_prefix_cons] at hnext
        obtain rfl := hnext.1
        have hhead : (chunkedHeader m).head? = some 0x01 := rfl
        simp only [hhead, if_true, beginChunked_chunkedHeader]
        split_ifs
        · exact .inl ⟨rfl, rfl⟩
        · refine .inr ⟨done, m :: rest, [chunkedHeader m], rfl, by simp, hdelivered, ?_⟩
          exact .middle [chunkedHeader m] m rest 0 _ (pendingOf_chunked hsize).symm
      · rw [pendingOf_single hsize, List.nil_append, List.singleton_append,
          List.cons_prefix_cons] at hnext
        obtain rfl := hnext.1
        simp only [lawful.head_encode, if_false, lawful.decode_encode]
        exact follows_dispatch (by rw [pendingOf_single hsize, List.append_nil]) hdelivered
          hreassembly
  | middle part m rest offset total hrest =>
    rw [plan_cons, ← hrest, List.append_assoc, List.prefix_append_right_inj] at hnext
    dsimp only
    unfold Receiver.continueChunked
    by_cases hlt : offset < m.payload.length
    · rw [chunksFrom_of_lt hlt, List.cons_append, List.cons_append, List.cons_prefix_cons] at hnext
      obtain rfl := hnext.1
      have hnonempty : (payloadChunk m.payload offset).isEmpty = false := by
        rw [List.isEmpty_eq_false_iff, ← List.length_pos_iff, length_payloadChunk]
        have := streamingThreshold_pos
        omega
      simp only [hnonempty, Bool.false_eq_true, if_false, take_append_payloadChunk]
      split_ifs
      · exact .inl ⟨rfl, rfl⟩
      · refine .inr ⟨done, m :: rest, part ++ [payloadChunk m.payload offset], rfl,
          List.append_assoc _ _ _, hdelivered, .middle _ m rest _ total ?_⟩
        rw [← hrest, chunksFrom_of_lt hlt]
        simp
    · rw [chunksFrom_of_ge hlt, List.nil_append, List.singleton_append,
        List.cons_prefix_cons] at hnext
      obtain rfl := hnext.1
      have hpayload : m.payload.take offset = m.payload := List.take_of_length_le (by omega)
      simp only [List.isEmpty_nil, if_true, hpayload]
      refine .inr (aligned_message (List.append_assoc _ _ _) ?_ ?_ rfl)
      · rw [← hrest, chunksFrom_of_ge hlt, List.nil_append]
      · rw [List.filter_append, hdelivered, List.filter_append]

theorem opened_handle (r : Receiver) (plaintext : Bytes) :
    (r.handle S plaintext).opened = r.opened ∧
      (r.handle S plaintext).recvCounter = r.recvCounter := by
  unfold Receiver.handle Receiver.continueChunked Receiver.beginChunked Receiver.dispatch
  dsimp only
  repeat' split
  all_goals exact ⟨rfl, rfl⟩

/-! ## The two ends -/

/-- What holds in every state of a link: `good` are the encrypted frames up to the first failed
write. -/
structure Inv (S : Suite) (key : Bytes) (c : Nat) (l : Link) (good : List Frame) : Prop where
  numbered : l.sender.Numbered c
  sent : good <+: l.sender.sealed
  planned : good.map Prod.snd <+: plan S l.sender.appended
  opened : l.receiver.opened <+: good
  counter : l.receiver.stopped = false → l.receiver.recvCounter = c + l.receiver.opened.length
  stream : l.receiver.stopped = false →
    sealedBytes S key l.receiver.opened ++ l.wire <+: sealedBytes S key good
  unbroken : l.broken = false → good = l.sender.sealed ∧ l.sender.OnPlan S ∧
    (l.receiver.stopped = false → sealedBytes S key l.receiver.opened ++ l.wire ++
      l.sender.drain.unwritten = sealedBytes S key l.sender.sealed)
  aligned : l.receiver.stopped = false →
    Aligned S l.sender.appended (l.receiver.opened.map Prod.snd) l.receiver
  delivered : l.receiver.delivered.filter isData <+: l.sender.appended.filter isData

variable {l : Link} {good : List Frame}

theorem inv_start (c : Nat) : Inv S key c (Link.start c) [] where
  numbered := ⟨rfl, rfl⟩
  sent := List.prefix_refl _
  planned := List.prefix_refl _
  opened := List.prefix_refl _
  counter _ := rfl
  stream _ := List.prefix_refl _
  unbroken _ := ⟨rfl, ⟨List.prefix_refl _, fun _ => rfl⟩, fun _ => rfl⟩
  aligned _ := ⟨[], [], [], rfl, rfl, rfl, .start []⟩
  delivered := List.prefix_refl _

/-- A step of the sending end that only appends. -/
theorem Inv.appends (h : Inv S key c l good) (happends : l.sender.Appends S s) :
    Inv S key c { l with sender := s } good := by
  obtain ⟨more, hmore⟩ := happends.appended
  refine ⟨⟨?_, ?_⟩, ?_, ?_, h.opened, h.counter, h.stream, fun hbroken => ?_, fun hrun => ?_, ?_⟩
  · rw [happends.sealed]
    exact h.numbered.counters
  · rw [happends.sealed, happends.counter]
    exact h.numbered.counter
  · rw [happends.sealed]
    exact h.sent
  · rw [← hmore, plan_append]
    exact h.planned.trans (List.prefix_append _ _)
  · obtain ⟨hgood, honPlan, hstream⟩ := h.unbroken hbroken
    dsimp only
    rw [happends.sealed, happends.drain]
    exact ⟨hgood, happends.onPlan honPlan, hstream⟩
  · rw [← hmore]
    exact (h.aligned hrun).mono more
  · rw [← hmore, List.filter_append]
    exact h.delivered.trans (List.prefix_append _ _)

/-- The drain coroutine goes on after the bytes of a frame, if any, have been written. -/
theorem Inv.progress (h : Inv S key c l good) {bytes : Bytes}
    (hunwritten : l.sender.drain.unwritten = bytes) (hprogress : l.sender.Progress S key c s)
    (honPlan : l.sender.OnPlan S → s.OnPlan S) (hbroken : l.broken = false) :
    Inv S key c { l with wire := l.wire ++ bytes, sender := s } s.sealed := by
  obtain ⟨rfl, hplan, hstream⟩ := h.unbroken hbroken
  have hnext := honPlan hplan
  refine ⟨hprogress.numbered h.numbered, List.prefix_refl _, hnext.sent,
    h.opened.trans hprogress.grows, h.counter, fun hrun => ?_,
    fun _ => ⟨rfl, hnext, fun hrun => ?_⟩, fun hrun => ?_, ?_⟩
  · rw [hprogress.bytes, ← hstream hrun, hunwritten]
    simp
  · rw [hprogress.bytes, ← hstream hrun, hunwritten]
    simp
  · rw [hprogress.appended]
    exact h.aligned hrun
  · rw [hprogress.appended]
    exact h.delivered

/-- After a failed write the drain coroutine may go on, but nothing is written. -/
theorem Inv.progress_broken (h : Inv S key c l good)
    (hprogress : l.sender.Progress S key c s) (hbroken : l.broken = true) :
    Inv S key c { l with sender := s } good := by
  refine ⟨hprogress.numbered h.numbered, h.sent.trans hprogress.grows, ?_, h.opened, h.counter,
    h.stream, fun hunbroken => ?_, fun hrun => ?_, ?_⟩
  · rw [hprogress.appended]
    exact h.planned
  · exact absurd hunbroken (by simp [hbroken])
  · rw [hprogress.appended]
    exact h.aligned hrun
  · rw [hprogress.appended]
    exact h.delivered

theorem progress_fail (s : Sender) : s.Progress S key c s.fail :=
  .idle rfl rfl rfl (unwritten_fail s)

/-- A failed write leaves some of its bytes on the wire. -/
theorem Inv.fail (h : Inv S key c l good) {bytes : Bytes}
    (hbytes : bytes <+: l.sender.drain.unwritten)
    (hbroken : l.broken = false) :
    Inv S key c { l with wire := l.wire ++ bytes, broken := true, sender := l.sender.fail }
      good := by
  obtain ⟨rfl, hplan, hstream⟩ := h.unbroken hbroken
  refine ⟨⟨h.numbered.counters, h.numbered.counter⟩, h.sent, h.planned, h.opened, h.counter,
    fun hrun => ?_, fun hunbroken => absurd hunbroken (by simp), h.aligned, h.delivered⟩
  obtain ⟨tail, htail⟩ := hbytes
  refine ⟨tail, ?_⟩
  rw [← hstream hrun, ← htail]
  simp

/-- The receiving end stops. -/
theorem Inv.stop (h : Inv S key c l good) {wire : Bytes} (hstopped : r.stopped = true)
    (hopened : r.opened <+: good)
    (hdelivered : r.delivered.filter isData <+: l.sender.appended.filter isData) :
    Inv S key c { l with wire, receiver := r } good :=
  ⟨h.numbered, h.sent, h.planned, hopened, fun hrun => absurd hrun (by simp [hstopped]),
    fun hrun => absurd hrun (by simp [hstopped]),
    fun hbroken => ⟨(h.unbroken hbroken).1, (h.unbroken hbroken).2.1,
      fun hrun => absurd hrun (by simp [hstopped])⟩,
    fun hrun => absurd hrun (by simp [hstopped]), hdelivered⟩

/-- The next frame on the wire is the next one that was encrypted. -/
theorem Inv.next_frame (lawful : S.Lawful) (h : Inv S key c l good)
    (hrun : l.receiver.stopped = false) :
    recvRaw l.wire = .pending ∨ ∃ frame tail,
      l.receiver.opened ++ [frame] <+: good ∧ frame.1 = l.receiver.recvCounter ∧
      l.wire = rawFrame (S.encrypt frame.2 (makeNonce frame.1) key) ++ tail ∧
      recvRaw l.wire = .frame (S.encrypt frame.2 (makeNonce frame.1) key) tail := by
  obtain ⟨later, hlater⟩ := h.opened
  have hstream := h.stream hrun
  rw [← hlater, sealedBytes_append, List.prefix_append_right_inj] at hstream
  cases later with
  | nil =>
    have hempty : l.wire = [] := List.prefix_nil.mp hstream
    rw [hempty]
    exact .inl rfl
  | cons frame later =>
    have hopened : l.receiver.opened ++ [frame] <+: good := by
      rw [← hlater]
      exact ⟨later, by simp⟩
    have hmem : frame.2 ∈ plan S l.sender.appended := by
      refine h.planned.subset (List.mem_map_of_mem ?_)
      exact hopened.subset (by simp)
    have hsize : (S.encrypt frame.2 (makeNonce frame.1) key).length ≤ MAX_FRAME_SIZE := by
      rw [lawful.length_encrypt]
      exact length_of_mem_plan lawful hmem
    -- the counter of a frame is its place among the encryptions
    have hcounter : frame.1 = l.receiver.recvCounter := by
      obtain ⟨rest, hrest⟩ := hopened.trans h.sent
      have hcounters := h.numbered.counters
      have hget : (l.sender.sealed.map Prod.fst)[l.receiver.opened.length]? = some frame.1 := by
        rw [← hrest]
        simp
      rw [hcounters, List.getElem?_range' ] at hget
      · rw [h.counter hrun]
        simpa using (Option.some.inj hget).symm
      · rw [← hrest]
        simp
    rw [sealedBytes, List.flatMap_cons] at hstream
    rcases recvRaw_of_prefix hsize hstream with hpending | ⟨tail, hwire, -, hread⟩
    · exact .inl hpending
    · exact .inr ⟨frame, tail, hopened, hcounter, hwire, hread⟩

theorem Inv.receive (lawful : S.Lawful) (h : Inv S key c l good) :
    Inv S key c (l.receive S key) good := by
  unfold Link.receive
  split_ifs with hstopped
  · exact h
  rw [Bool.not_eq_true] at hstopped
  rcases h.next_frame lawful hstopped with hpending | ⟨frame, tail, hopened, hcounter, hwire, hread⟩
  · rw [hpending]
    exact h
  rw [hread]
  dsimp only
  unfold Receiver.recvEncrypted
  split_ifs
  · exact h.stop rfl h.opened h.delivered
  rw [← hcounter, lawful.decrypt_encrypt]
  dsimp only
  set r : Receiver := { l.receiver with
    recvCounter := frame.1 + 1, opened := l.receiver.opened ++ [(frame.1, frame.2)] } with hr
  have hframes : l.receiver.opened.map Prod.snd ++ [frame.2] <+: plan S l.sender.appended := by
    have hbegins : (l.receiver.opened ++ [frame]).map Prod.snd <+: plan S l.sender.appended :=
      (hopened.map Prod.snd).trans h.planned
    simpa using hbegins
  obtain ⟨hopened', hcounter'⟩ := opened_handle (S := S) r frame.2
  have hdone : r.opened = l.receiver.opened ++ [frame] := rfl
  have haligned : Aligned S l.sender.appended (l.receiver.opened.map Prod.snd) r :=
    h.aligned hstopped
  rcases follows_handle lawful haligned hframes with ⟨hstop, hsame⟩ | hnext
  · refine h.stop hstop ?_ ?_
    · rw [hopened', hdone]
      exact hopened
    · rw [hsame]
      exact h.delivered
  -- the opened frame moves from the wire to the opened ones
  have hmoved : sealedBytes S key (r.handle S frame.2).opened ++ tail =
      sealedBytes S key l.receiver.opened ++ l.wire := by
    rw [hopened', hdone, sealedBytes_append, sealedBytes_singleton, hwire, List.append_assoc]
  refine ⟨h.numbered, h.sent, h.planned, ?_, fun _ => ?_, fun _ => ?_, fun hbroken => ?_,
    fun _ => ?_, hnext.delivered⟩
  · rw [hopened', hdone]
    exact hopened
  · rw [hcounter', hopened', hdone, List.length_append, List.length_singleton]
    have hnow := h.counter hstopped
    rw [hr]
    dsimp only
    omega
  · dsimp only
    rw [hmoved]
    exact h.stream hstopped
  · obtain ⟨hgood, hplan, hstream⟩ := h.unbroken hbroken
    refine ⟨hgood, hplan, fun _ => ?_⟩
    dsimp only
    rw [hmoved]
    exact hstream hstopped
  · rw [hopened', hdone, List.map_append]
    exact hnext

/-- The length of a frame has been written; its bytes are next. -/
theorem Inv.length_written (h : Inv S key c l good)
    {data : Bytes} (hdrain : l.sender.drain = .writing msg pc (.length data))
    (hbroken : l.broken = false) :
    Inv S key c { l with
      wire := l.wire ++ (RawWrite.length data).bytes
      sender := l.sender.advance S key msg pc (.length data) } good := by
  obtain ⟨rfl, hplan, hstream⟩ := h.unbroken hbroken
  have hadvance : l.sender.advance S key msg pc (.length data) =
      { l.sender with drain := .writing msg pc (.body data) } := by
    cases pc <;> rfl
  have hnext : (l.sender.advance S key msg pc (.length data)).OnPlan S :=
    onPlan_advance hplan hdrain
  rw [hadvance] at hnext ⊢
  have hbytes : l.receiver.stopped = false →
      sealedBytes S key l.receiver.opened ++ (l.wire ++ (RawWrite.length data).bytes) ++ data =
        sealedBytes S key l.sender.sealed := fun hrun => by
    rw [← hstream hrun, hdrain]
    simp [Drain.unwritten, RawWrite.bytes, rawFrame]
  exact ⟨⟨h.numbered.counters, h.numbered.counter⟩, h.sent, h.planned, h.opened, h.counter,
    fun hrun => ⟨data, hbytes hrun⟩, fun _ => ⟨rfl, hnext, hbytes⟩, h.aligned, h.delivered⟩

theorem Inv.written (h : Inv S key c l good) (ok : Bool) (count : Nat) :
    ∃ good', Inv S key c (l.written S key ok count) good' := by
  unfold Link.written
  split
  · rename_i msg pc raw hdrain
    split_ifs with hbroken hok
    · exact ⟨good, h.progress_broken (progress_fail _) hbroken⟩
    · rw [Bool.not_eq_true] at hbroken
      cases raw with
      | length data => exact ⟨good, h.length_written hdrain hbroken⟩
      | body data =>
        have hunwritten : l.sender.drain.unwritten = data := by rw [hdrain, Drain.unwritten]
        exact ⟨_, h.progress hunwritten (progress_advance_body _ msg pc data)
          (fun honPlan => onPlan_advance honPlan hdrain) hbroken⟩
    · rw [Bool.not_eq_true] at hbroken
      refine ⟨good, h.fail ((List.take_prefix _ _).trans ?_) hbroken⟩
      rw [hdrain]
      cases raw with
      | length data => exact List.prefix_append _ _
      | body data => exact List.prefix_refl _
  · exact ⟨good, h⟩

theorem Inv.wake (h : Inv S key c l good) : ∃ good', Inv S key c (l.step S key .wake) good' := by
  unfold Link.step
  dsimp only
  split
  · rename_i hdrain
    cases hbroken : l.broken with
    | true => exact ⟨good, hbroken ▸ h.progress_broken (progress_next _) hbroken⟩
    | false =>
      have hunwritten : l.sender.drain.unwritten = [] := by
        rw [hdrain]
        rfl
      have honPlan : l.sender.OnPlan S → (l.sender.next S key).OnPlan S := fun honPlan => by
        have hplan := honPlan.ahead (by simp [hdrain])
        rw [hdrain] at hplan
        exact onPlan_next hplan
      have hnext := h.progress hunwritten (progress_next _) honPlan hbroken
      rw [List.append_nil] at hnext
      exact ⟨_, hbroken ▸ hnext⟩
  · exact ⟨good, h⟩

theorem Inv.step (lawful : S.Lawful) (h : Inv S key c l good) (event : Event) :
    ∃ good', Inv S key c (l.step S key event) good' := by
  cases event with
  | send m => exact ⟨good, h.appends (appends_enqueue _ m)⟩
  | closeGracefully => exact ⟨good, h.appends (appends_closeGracefully _)⟩
  | close => exact ⟨good, h.appends (appends_close _)⟩
  | wake => exact h.wake
  | written ok count => exact h.written ok count
  | receive => exact ⟨good, h.receive lawful⟩
  | stop => exact ⟨good, h.stop rfl h.opened h.delivered⟩

theorem inv_run (lawful : S.Lawful) (c : Nat) (events : List Event) :
    ∃ good, Inv S key c (run (Link.step S key) (Link.start c) events) good := by
  induction events using List.reverseRecOn with
  | nil => exact ⟨[], inv_start c⟩
  | append_singleton events event ih =>
    obtain ⟨good, hgood⟩ := ih
    rw [run_append]
    exact hgood.step lawful event

/-- **Delivery.** In every state of a connection the messages handed over are the first of those
appended to the send queue, no counter has been used twice, and the frames decrypted are the first
of those encrypted, each under the counter it was encrypted with. -/
theorem delivery (S : Suite) (lawful : S.Lawful) (key : Bytes) (counter : Nat)
    (events : List Event) :
    let l := run (Link.step S key) (Link.start counter) events
    l.receiver.delivered.filter isData <+: l.sender.appended.filter isData ∧
      (l.sender.sealed.map Prod.fst).Nodup ∧ l.receiver.opened <+: l.sender.sealed := by
  intro l
  obtain ⟨good, h⟩ : ∃ good, Inv S key counter l good := inv_run lawful counter events
  refine ⟨h.delivered, ?_, h.opened.trans h.sent⟩
  rw [h.numbered.counters]
  exact List.nodup_range'

section Sample

/-- A tag made from the nonce stands for the AEAD. -/
def sampleTag (nonce : Bytes) : Bytes := (nonce ++ List.replicate TAG_SIZE 0).take TAG_SIZE

def sampleDecode : Bytes → Option Message
  | 0 :: type :: rest => (readU32Be rest 0).map fun requestId =>
    { type, payload := rest.drop 4, requestId }
  | _ => none

def sampleSuite : Suite where
  encrypt plaintext nonce _ := plaintext ++ sampleTag nonce
  decrypt ciphertext nonce _ :=
    if ciphertext.drop (ciphertext.length - TAG_SIZE) = sampleTag nonce then
      some (ciphertext.take (ciphertext.length - TAG_SIZE))
    else none
  encode m := 0 :: m.type :: (writeU32Be m.requestId ++ m.payload)
  decode := sampleDecode

theorem length_sampleTag (nonce : Bytes) : (sampleTag nonce).length = TAG_SIZE := by
  simp [sampleTag]

theorem lawful_sampleSuite : sampleSuite.Lawful where
  decrypt_encrypt plaintext nonce key := by
    have hlength : (plaintext ++ sampleTag nonce).length - TAG_SIZE = plaintext.length := by
      rw [List.length_append, length_sampleTag, Nat.add_sub_cancel]
    simp only [sampleSuite, hlength, List.drop_left, List.take_left, if_true]
  length_encrypt plaintext nonce key := by
    simp only [sampleSuite, List.length_append, length_sampleTag]
  decode_encode m := by
    have hdrop : (writeU32Be m.requestId ++ m.payload).drop 4 = m.payload :=
      List.drop_left' (length_writeU32Be _)
    simp only [sampleSuite, sampleDecode, readU32Be_zero, hdrop, Option.map_some]
  length_encode m h := by
    simp only [sampleSuite, List.length_cons, List.length_append, length_writeU32Be,
      TRANSPORT_ENVELOPE_MARGIN]
    omega
  head_encode m := by simp [sampleSuite]

/-- Two messages are appended and written; the write of the second frame's bytes fails after three
of them, and the first message arrives. -/
def sampleEvents : List Event :=
  [.send { type := 64, payload := [1, 2], requestId := 7 }, .wake,
    .send { type := 31, payload := [3], requestId := 8 }, .written true 0, .written true 0,
    .receive, .written true 0, .written false 3, .receive]

theorem delivery_sample :
    let l := run (Link.step sampleSuite []) (Link.start 1) sampleEvents
    l.receiver.delivered = [{ type := 64, payload := [1, 2], requestId := 7 }] ∧
      l.receiver.delivered.filter isData <+: l.sender.appended.filter isData ∧
      (l.sender.sealed.map Prod.fst).Nodup ∧ l.receiver.opened <+: l.sender.sealed :=
  ⟨by decide, delivery sampleSuite lawful_sampleSuite [] 1 sampleEvents⟩

end Sample

end Net
