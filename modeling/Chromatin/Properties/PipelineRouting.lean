import Chromatin.Cli.Pump
import Chromatin.Properties.Correlation

/-!
# The routing of pipelined replies

What `recv` has returned is in the stash or was handed over (`Routed`): under different request ids
no reply takes the place of another one. So a call of `recv_for` finds the reply it waits for,
wherever that one is.

* `run_pumpUntil` — the loop of `recv_for` as steps of a `System`
* `routed_step` — every call keeps replies where they belong
* `pipeline_routing` — routing, delivery and the bounds over whole sessions
* `backpressure_never_frees` — a `send_async` that finds every slot taken does not send
-/

namespace Cli

open Infra Util Net

variable {conn : Connection} {rid : UInt32}

/-! ## The calls -/

/-- A reply under an id of its own takes nobody's place. -/
theorem insertOrAssign_of_new {pending : List Reply} {reply : Reply}
    (hnew : ∀ r ∈ pending, r.message.requestId ≠ reply.message.requestId) :
    insertOrAssign pending reply = pending ++ [reply] := by
  rw [insertOrAssign, List.filter_eq_self.mpr fun r hr => bne_iff_ne.mpr (hnew r hr)]

theorem pumpUntil_fst (rid : UInt32) : ∀ (source : List Reply) (conn : Connection),
    (pumpUntil rid conn source).1 = source.find? fun reply => reply.message.requestId = rid
  | [], _ => rfl
  | reply :: source, conn => by
    rw [pumpUntil, List.find?_cons]
    by_cases hid : reply.message.requestId = rid
    · simp [hid]
    · simp only [hid, if_false, decide_false]
      exact pumpUntil_fst rid source (conn.stash reply)

/-- `recv_for` returns the first reply with its id, the stash before the wire. -/
theorem pumpRecvFor_fst (rid : UInt32) (source : List Reply) (conn : Connection) :
    (pumpRecvFor rid source conn).1 =
      (conn.pending ++ source).find? fun reply => reply.message.requestId = rid := by
  rw [pumpRecvFor, List.find?_append]
  cases hfind : conn.pending.find? fun reply => reply.message.requestId = rid with
  | some reply => rfl
  | none => exact pumpUntil_fst rid source conn

theorem length_pumpUntil_le (rid : UInt32) : ∀ (source : List Reply) (conn : Connection),
    (pumpUntil rid conn source).2.1.length ≤ source.length
  | [], _ => Nat.le_refl 0
  | reply :: source, conn => by
    rw [pumpUntil]
    split_ifs
    · exact Nat.le_succ _
    · exact (length_pumpUntil_le rid source (conn.stash reply)).trans (Nat.le_succ _)

theorem sendAsync_of_free (hfree : conn.inFlight < kPipelineDepth) (ok : Bool)
    (source : List Reply) : sendAsync ok source conn =
      (ok, source, if ok then { conn with inFlight := conn.inFlight + 1 } else conn) := by
  have hwait : backpressure conn source = (true, source, conn) := by
    cases source with
    | nil => rw [backpressure, decide_eq_true hfree]
    | cons reply source => rw [backpressure, if_pos hfree]
  rw [sendAsync, hwait]
  cases ok <;> rfl

/-- With every slot taken all replies go to the stash: none of them changes the counter the loop
looks at. -/
theorem backpressure_of_full :
    ∀ (source : List Reply) {conn : Connection}, kPipelineDepth ≤ conn.inFlight →
    backpressure conn source = (false, [], source.foldl Connection.stash conn)
  | [], conn, hfull => by
    rw [backpressure, decide_eq_false (Nat.not_lt.mpr hfull), List.foldl_nil]
  | reply :: source, conn, hfull => by
    have hstash : kPipelineDepth ≤ (conn.stash reply).inFlight := hfull
    rw [backpressure, if_neg (Nat.not_lt.mpr hfull), backpressure_of_full source hstash,
      List.foldl_cons]

theorem sendAsync_of_full (hfull : kPipelineDepth ≤ conn.inFlight) (ok : Bool)
    (source : List Reply) :
    sendAsync ok source conn = (false, [], source.foldl Connection.stash conn) := by
  rw [sendAsync, backpressure_of_full source hfull]

/-- What `send_async` is to do when a reply can be received: that one reply goes to the stash, the
replies behind it stay on the wire, and the request is sent. -/
structure FreesSlot (conn : Connection) (reply : Reply) (source : List Reply) : Prop where
  leaves : ∀ ok, (sendAsync ok (reply :: source) conn).2.1 = source
  stashed : ∀ ok, (sendAsync ok (reply :: source) conn).2.2.pending =
    insertOrAssign conn.pending reply
  sends : (sendAsync true (reply :: source) conn).1 = true

/-- **Backpressure never frees a slot.** With `kPipelineDepth` requests in flight `send_async` reads
until `recv` fails, and then returns without a call of `send`. -/
theorem backpressure_never_frees {conn : Connection} (hfull : conn.inFlight = kPipelineDepth)
    (reply : Reply)
    (source : List Reply) :
    ¬ FreesSlot conn reply source ∧
      ∀ ok, sendAsync ok (reply :: source) conn =
        (false, [], (reply :: source).foldl Connection.stash conn) := by
  have hsend := fun ok => sendAsync_of_full hfull.ge ok (reply :: source)
  refine ⟨fun hfrees => ?_, hsend⟩
  have hsent := hfrees.sends
  rw [hsend true] at hsent
  exact Bool.false_ne_true hsent

theorem backpressure_never_frees_eight :
    ¬ FreesSlot { inFlight := 8 } ⟨⟨18, [], 1⟩, 0⟩ [⟨⟨18, [], 2⟩, 1⟩] ∧
      ∀ ok, sendAsync ok [⟨⟨18, [], 1⟩, 0⟩, ⟨⟨18, [], 2⟩, 1⟩] { inFlight := 8 } =
        (false, [], [⟨⟨18, [], 1⟩, 0⟩, ⟨⟨18, [], 2⟩, 1⟩].foldl Connection.stash
          { inFlight := 8 }) :=
  backpressure_never_frees rfl _ _

/-- After eight requests one reply arrives, and the ninth request is not sent. -/
theorem ninth_request_unsent :
    let conn :=
    (List.replicate 8 ()).foldl (fun conn _ => (sendAsync true [] conn).2.2) ({} : Connection)
    conn.inFlight = kPipelineDepth ∧ ¬ FreesSlot conn ⟨⟨18, [], 1⟩, 0⟩ [] := by
  refine ⟨rfl, fun hfrees => ?_⟩
  exact absurd hfrees.sends (by decide)

namespace Session

theorem readFrom_self (arriving : List Reply) : readFrom arriving arriving = [] := by
  rw [readFrom, Nat.sub_self, List.take_zero]

theorem readFrom_cons (reply : Reply) {arriving rest : List Reply}
    (hle : rest.length ≤ arriving.length) :
    readFrom (reply :: arriving) rest = reply :: readFrom arriving rest := by
  rw [readFrom, List.length_cons, Nat.sub_add_comm hle, List.take_succ_cons]
  rfl

end Session

/-! ## The loop in steps -/

section Steps

variable {σ ρ : Type} (c : Command σ ρ)

/-- The loop of `recv_for` is what a waiting command does with the replies as they come. -/
theorem run_pumpUntil : ∀ (arriving : List Reply) {s : System σ ρ},
    c.op s.state = .recvFor rid → (∀ reply ∈ s.conn.pending, reply.message.requestId ≠ rid) →
    (arriving.map Reply.cause).Nodup →
    (∀ reply ∈ arriving, reply.cause ∈ s.unanswered ∧
      ∃ q, s.sent[reply.cause]? = some q ∧ q.requestId = reply.message.requestId) →
    let result := pumpUntil rid s.conn arriving
    let s' := run (System.step c) s ((Session.readFrom arriving result.2.1).map fun reply =>
      .answer reply.cause reply.message.type reply.message.payload)
    s'.conn = result.2.2 ∧
      s'.state = result.1.elim s.state fun reply => c.afterRecv s.state (some reply.message)
  | [], s, _, _, _, _ => ⟨rfl, rfl⟩
  | reply :: arriving, s, hop, hnone, hnodup, harrive => by
    obtain ⟨hfresh, hrest⟩ := List.nodup_cons.mp hnodup
    obtain ⟨hunanswered, q, hsent, hid⟩ := harrive reply List.mem_cons_self
    have hwait : (s.conn.pending.any fun r => r.message.requestId == rid) = false := by
      rw [List.any_eq_false]
      intro r hr
      simpa using hnone r hr
    have hreply : s.reply? reply.cause reply.message.type reply.message.payload =
        some (reply, { s with unanswered := s.unanswered.erase reply.cause }) := by
      rw [System.reply?, if_pos hunanswered, hsent, Option.map_some, hid]
    have hstep : s.step c (.answer reply.cause reply.message.type reply.message.payload) =
        if reply.message.requestId = rid then
          System.deliver c { s with unanswered := s.unanswered.erase reply.cause } reply
        else System.stash { s with unanswered := s.unanswered.erase reply.cause } reply := by
      simp only [System.step, hop, System.stepRecv, hwait, hreply]
      simp
    dsimp only
    rw [pumpUntil]
    by_cases htarget : reply.message.requestId = rid
    · rw [if_pos htarget] at hstep ⊢
      rw [Session.readFrom_cons reply (Nat.le_refl _), Session.readFrom_self, List.map_singleton,
        run_cons, run_nil, hstep]
      exact ⟨rfl, rfl⟩
    · rw [if_neg htarget] at hstep ⊢
      rw [Session.readFrom_cons reply (length_pumpUntil_le rid arriving _), List.map_cons,
        run_cons, hstep]
      refine run_pumpUntil arriving
        (s := System.stash { s with unanswered := s.unanswered.erase reply.cause } reply)
        hop ?_ hrest ?_
      · intro r hr
        rcases List.mem_append.mp hr with hr | hr
        · exact hnone r (List.mem_of_mem_filter hr)
        · rwa [List.mem_singleton.mp hr]
      · intro r hr
        obtain ⟨hmem, hq⟩ := harrive r (List.mem_cons_of_mem _ hr)
        have hne : r.cause ≠ reply.cause := fun heq => hfresh (heq ▸ List.mem_map_of_mem hr)
        exact ⟨(List.mem_erase_of_ne hne).mpr hmem, hq⟩

end Steps

/-! ## Sessions -/

namespace Session

/-- Every reply that was received carries the id of its own request and is in the stash or was
handed over; the slots in use are the requests whose replies were not. -/
structure Routed (s : Session) : Prop where
  distinct : s.sent.Nodup
  stamped : ∀ reply ∈ s.received, s.sent[reply.cause]? = some reply.message.requestId
  once : (s.received.map Reply.cause).Nodup
  split : s.received.Perm (s.conn.pending ++ s.delivered)
  slots : s.conn.inFlight + s.delivered.length = s.sent.length
  depth : s.conn.inFlight ≤ kPipelineDepth

variable {s : Session} {reply : Reply} {arriving : List Reply}

theorem routed_empty : Routed {} where
  distinct := List.nodup_nil
  stamped := by simp
  once := List.nodup_nil
  split := .refl _
  slots := rfl
  depth := Nat.zero_le _

/-- Ids identify requests. -/
theorem cause_eq (hdistinct : s.sent.Nodup) {i j : Nat} (hi : s.sent[i]? = some rid)
    (hj : s.sent[j]? = some rid) : i = j := by
  obtain ⟨hlt, -⟩ := List.getElem?_eq_some_iff.mp hi
  exact (List.getElem?_inj hlt hdistinct).mp (hi.trans hj.symm)

/-- The requests are numbered from 0, so that different replies are no more than the requests. -/
theorem Routed.length_received_le (h : Routed s) : s.received.length ≤ s.sent.length := by
  have hsub : s.received.map Reply.cause ⊆ List.range s.sent.length := by
    intro number hnumber
    obtain ⟨reply, hreply, rfl⟩ := List.mem_map.mp hnumber
    obtain ⟨hlt, -⟩ := List.getElem?_eq_some_iff.mp (h.stamped reply hreply)
    exact List.mem_range.mpr hlt
  simpa using (List.subperm_of_subset h.once hsub).length_le

theorem Routed.length_pending (h : Routed s) :
    s.conn.pending.length + s.delivered.length = s.received.length := by
  rw [h.split.length_eq, List.length_append]

theorem Arrives.nodup (harrives : s.Arrives arriving) :
    ((s.received ++ arriving).map Reply.cause).Nodup :=
  harrives.once.nodup_iff.mpr List.nodup_range

/-- The next reply has been read. -/
theorem Arrives.next {t : Session} (harrives : s.Arrives (reply :: arriving))
    (hsent : t.sent = s.sent)
    (hreceived : t.received = s.received ++ [reply]) : t.Arrives arriving where
  once := by
    rw [hsent, hreceived, List.append_assoc]
    exact harrives.once
  stamped r hr := hsent ▸ harrives.stamped r (List.mem_cons_of_mem _ hr)

/-- The next reply is not one of those received. -/
theorem Routed.fresh (h : Routed s) (harrives : s.Arrives (reply :: arriving)) :
    ∀ r ∈ s.received, r.message.requestId ≠ reply.message.requestId := by
  intro r hr hid
  have hstamp := harrives.stamped reply List.mem_cons_self
  have hcause : r.cause = reply.cause := cause_eq h.distinct (hid ▸ h.stamped r hr) hstamp
  have hnodup := harrives.nodup
  rw [List.map_append, List.map_cons] at hnodup
  exact (List.nodup_append.mp hnodup).2.2 r.cause (List.mem_map_of_mem hr) reply.cause
    List.mem_cons_self hcause

/-- A reply has been read; it is in the stash or was handed over. -/
theorem Routed.read (h : Routed s) (harrives : s.Arrives (reply :: arriving))
    {delivered : List Reply}
    (hsplit : (conn.pending ++ delivered).Perm (reply :: (s.conn.pending ++ s.delivered)))
    (hslots : conn.inFlight + delivered.length = s.conn.inFlight + s.delivered.length)
    (hle : conn.inFlight ≤ s.conn.inFlight) :
    Routed { s with conn, received := s.received ++ [reply], delivered } where
  distinct := h.distinct
  stamped r hr := by
    rcases List.mem_append.mp hr with hr | hr
    · exact h.stamped r hr
    · rw [List.mem_singleton.mp hr]
      exact harrives.stamped reply List.mem_cons_self
  once := by
    have hnodup := harrives.nodup
    rw [List.append_cons, List.map_append] at hnodup
    exact hnodup.of_append_left
  split := (List.perm_append_singleton _ _).trans ((h.split.cons reply).trans hsplit.symm)
  slots := hslots.trans h.slots
  depth := hle.trans h.depth

theorem Routed.stash (h : Routed s) (harrives : s.Arrives (reply :: arriving)) :
    Routed { s with conn := s.conn.stash reply, received := s.received ++ [reply] } := by
  refine h.read harrives ?_ rfl (Nat.le_refl _)
  have hpending : (s.conn.stash reply).pending = s.conn.pending ++ [reply] :=
    insertOrAssign_of_new fun r hr =>
      h.fresh harrives r (h.split.mem_iff.mpr (List.mem_append_left _ hr))
  rw [hpending, List.append_assoc]
  exact List.perm_middle

/-- A slot is in use as long as a reply has not been handed over. -/
theorem Routed.inFlight_pos (h : Routed s) (hlt : s.delivered.length < s.sent.length) :
    0 < s.conn.inFlight := by
  have hslots := h.slots
  omega

theorem Routed.deliver (h : Routed s) (harrives : s.Arrives (reply :: arriving)) :
    Routed { s with
      conn := s.conn.free, received := s.received ++ [reply], delivered :=
      s.delivered ++ [reply] } := by
  have hlength := harrives.once.length_eq
  have hpending := h.length_pending
  rw [List.length_map, List.length_append, List.length_cons, List.length_range] at hlength
  have hpos := h.inFlight_pos (by omega)
  refine h.read harrives ?_ ?_ (Nat.sub_le _ _)
  · rw [← List.append_assoc]
    exact List.perm_append_singleton _ _
  · change s.conn.inFlight - 1 + (s.delivered ++ [reply]).length = _
    rw [List.length_append, List.length_singleton]
    omega

/-- An entry of the stash is handed over. -/
theorem Routed.take (h : Routed s) (hreply : reply ∈ s.conn.pending) :
    Routed { s with conn := s.conn.take reply, delivered := s.delivered ++ [reply] } := by
  have hreceived := h.length_received_le
  have hpending := h.length_pending
  have hnonempty := List.length_pos_of_mem hreply
  have hpos := h.inFlight_pos (by omega)
  refine ⟨h.distinct, h.stamped, h.once, ?_, ?_, (Nat.sub_le _ _).trans h.depth⟩
  · change s.received.Perm (s.conn.pending.erase reply ++ (s.delivered ++ [reply]))
    rw [← List.append_assoc]
    have hentry :
      (s.conn.pending ++ s.delivered).Perm (reply :: (s.conn.pending.erase reply ++ s.delivered)) :=
      (List.perm_cons_erase hreply).append_right _
    exact h.split.trans (hentry.trans (List.perm_append_singleton _ _).symm)
  · change s.conn.inFlight - 1 + (s.delivered ++ [reply]).length = s.sent.length
    have hslots := h.slots
    rw [List.length_append, List.length_singleton]
    omega

theorem Routed.pumpUntil (rid : UInt32) : ∀ (arriving : List Reply) {s : Session}, Routed s →
    s.Arrives arriving → Routed (s.receive arriving (Cli.pumpUntil rid s.conn arriving))
  | [], s, h, _ => by
    simpa [receive, Cli.pumpUntil, readFrom] using h
  | reply :: arriving, s, h, harrives => by
    rw [Cli.pumpUntil]
    split_ifs
    · rw [receive, readFrom_cons reply (Nat.le_refl _), readFrom_self]
      exact h.deliver harrives
    · have hrest := Routed.pumpUntil rid arriving (h.stash harrives) (harrives.next rfl rfl)
      rw [receive, List.append_assoc] at hrest
      rw [receive, readFrom_cons reply (length_pumpUntil_le rid arriving _)]
      exact hrest

/-- A call keeps every reply where it belongs. -/
theorem routed_step (s : Session) (call : Call × List Reply) (h : Routed s) (hfits : s.Fits call) :
    Routed (s.step call) := by
  obtain ⟨call, arriving⟩ := call
  cases call with
  | sendAsync rid ok =>
    obtain ⟨hnew, hfree⟩ := hfits
    rw [step, sendAsync_of_free hfree]
    cases ok with
    | false => simpa [readFrom_self] using h
    | true =>
      simp only [if_true, readFrom_self, List.append_nil]
      refine ⟨List.nodup_append.mpr ⟨h.distinct, List.nodup_singleton _, ?_⟩, fun reply hreply =>
        ?_, h.once, h.split, ?_, hfree⟩
      · rintro a ha b hb rfl
        exact hnew (List.mem_singleton.mp hb ▸ ha)
      · have hstamp := h.stamped reply hreply
        exact (List.getElem?_append_left (List.getElem?_eq_some_iff.mp hstamp).1).trans hstamp
      · change s.conn.inFlight + 1 + s.delivered.length = (s.sent ++ [rid]).length
        have hslots := h.slots
        rw [List.length_append, List.length_singleton]
        omega
  | recvFor rid =>
    rw [step, pumpRecvFor]
    cases hfind : s.conn.pending.find? fun reply => reply.message.requestId = rid with
    | some reply =>
      simpa [receive, readFrom_self] using h.take (List.mem_of_find?_eq_some hfind)
    | none => exact h.pumpUntil rid arriving hfits
  | recvNext pick =>
    rw [step]
    unfold pumpRecvAny
    cases hpick : s.conn.pending[pick % s.conn.pending.length]? with
    | some reply => simpa [receive, readFrom_self] using h.take (List.mem_of_getElem? hpick)
    | none =>
      cases arriving with
      | nil => simpa [receive, readFrom_self] using h
      | cons reply arriving =>
        dsimp only
        rw [receive, readFrom_cons reply (Nat.le_refl _), readFrom_self]
        exact h.deliver hfits

/-- `recv_for` returns the reply to the request with that id if it has not been handed over. -/
theorem Routed.pumpRecvFor (h : Routed s) (harrives : s.Arrives arriving) {number : Nat}
    (hsent : s.sent[number]? = some rid) (hundelivered : number ∉ s.delivered.map Reply.cause) :
    ∃ reply, (Cli.pumpRecvFor rid arriving s.conn).1 = some reply ∧ reply.cause = number := by
  have hstamped : ∀ reply ∈ s.conn.pending ++ arriving, s.sent[reply.cause]? =
      some reply.message.requestId := by
    intro reply hreply
    rcases List.mem_append.mp hreply with hmem | hmem
    · exact h.stamped reply (h.split.mem_iff.mpr (List.mem_append_left _ hmem))
    · exact harrives.stamped reply hmem
  -- the reply is in the stash, or it is still to come
  obtain ⟨reply, hreply, hcause⟩ : ∃ reply ∈ s.conn.pending ++ arriving, reply.cause = number := by
    have hlt := (List.getElem?_eq_some_iff.mp hsent).1
    obtain ⟨reply, hreply, hcause⟩ :=
      List.mem_map.mp (harrives.once.mem_iff.mpr (List.mem_range.mpr hlt))
    refine ⟨reply, ?_, hcause⟩
    rcases List.mem_append.mp hreply with hmem | hmem
    · rcases List.mem_append.mp (h.split.mem_iff.mp hmem) with hpending | hdelivered
      · exact List.mem_append_left _ hpending
      · exact absurd (hcause ▸ List.mem_map_of_mem hdelivered) hundelivered
    · exact List.mem_append_right _ hmem
  have hid : reply.message.requestId = rid := by
    have hstamp := hstamped reply hreply
    rw [hcause, hsent] at hstamp
    exact (Option.some.inj hstamp).symm
  have hsome : ((s.conn.pending ++ arriving).find? fun reply =>
    reply.message.requestId = rid).isSome :=
    List.find?_isSome.mpr ⟨reply, hreply, decide_eq_true hid⟩
  obtain ⟨found, hfound⟩ := Option.isSome_iff_exists.mp hsome
  refine ⟨found, (pumpRecvFor_fst rid arriving s.conn).trans hfound, ?_⟩
  have hfoundId : found.message.requestId = rid := by simpa using List.find?_some hfound
  exact cause_eq h.distinct (hfoundId ▸ hstamped found (List.mem_of_find?_eq_some hfound)) hsent

/-- Requests with different ids, each sent while a slot is free, mixed with `recv_for` and
`recv_next`, and one reply for each in any order: `recv_for` returns the reply of its request if
that one was not handed over, no reply is handed over twice, the slots in use are the requests sent
without the replies handed over, and the stash holds the replies that were received and not handed
over, at most `kPipelineDepth`. -/
theorem pipeline_routing (calls : List (Call × List Reply)) (hfits : AllSteps step Fits {} calls) :
    let s := run step {} calls
    (∀ number rid arriving, s.sent[number]? = some rid → number ∉ s.delivered.map Reply.cause →
      s.Arrives arriving →
      ∃ reply, (Cli.pumpRecvFor rid arriving s.conn).1 = some reply ∧ reply.cause = number) ∧
    (s.delivered.map Reply.cause).Nodup ∧
    s.conn.inFlight + s.delivered.length = s.sent.length ∧
    s.received.Perm (s.conn.pending ++ s.delivered) ∧ s.received.Nodup ∧
    s.conn.pending.length ≤ kPipelineDepth := by
  intro s
  have h : Routed s := run_invariant routed_step routed_empty hfits
  refine ⟨fun number rid arriving hsent hundelivered harrives =>
    h.pumpRecvFor harrives hsent hundelivered, ?_, h.slots, h.split, h.once.of_map, ?_⟩
  · have hnodup := (h.split.map Reply.cause).nodup_iff.mp h.once
    rw [List.map_append] at hnodup
    exact hnodup.of_append_right
  · have hreceived := h.length_received_le
    have hpending := h.length_pending
    have hslots := h.slots
    have hdepth := h.depth
    omega

/-- Requests 1 to 8, and their replies in another order. -/
def eightCalls : List (Call × List Reply) :=
  let reply (number : Nat) : Reply :=
    { message := { type := MsgType.WriteAck, payload := [], requestId := UInt32.ofNat (number + 1) }
      cause := number }
  (List.range 8).map (fun number => (.sendAsync (UInt32.ofNat (number + 1)) true, [])) ++
    [(.recvFor 1, [4, 0, 7, 2, 6, 1, 5, 3].map reply), (.recvFor 8, [7, 2, 6, 1, 5, 3].map reply),
      (.recvNext 0, [2, 6, 1, 5, 3].map reply), (.recvNext 0, [2, 6, 1, 5, 3].map reply)]

/-- The replies to 1 and 8 are asked for, then come that to 5 from the stash and the next one on the
wire. -/
theorem pipeline_routing_eight :
    (run step {} eightCalls).delivered.map (fun reply => reply.message.requestId) = [1, 8, 5, 3] ∧
    (run step {} eightCalls).conn.inFlight + (run step {} eightCalls).delivered.length =
      (run step {} eightCalls).sent.length :=
  ⟨by decide, (pipeline_routing eightCalls (by decide)).2.2.1⟩

end Session

end Cli
