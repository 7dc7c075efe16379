import Chromatin.Properties.PeerTable
import Chromatin.Properties.Reconnect

/-!
# The delay after deduplication

`delay_reconnect` is called while `run()` is on. When `run()` has returned, the loop resets the
delay, because the handshake of the connection had succeeded: the next attempt comes after a second.

* `dedup_backoff_iff` — the loop waits for `MAX_BACKOFF_SEC` exactly if the server is draining, or a
  rejection was counted while the connection ran and the delay that follows from it is that long
-/

namespace Net

/-- The coroutine makes no attempt before the deadline. -/
def Point.AsleepUntil (deadline : Nat) (p : Point) : Prop :=
  p = .sleeping .armed deadline ∨ (∃ d, p = .sleeping .aborted d) ∨ p = .returned

namespace Server

variable {s : Server} {i : Nat} {a address : String} {p : Point} {e : ServerEvent}
  {routine : Routine}
  {conn prevAclCount : Nat}

/-! ## The server -/

theorem now_step (s : Server) (e : ServerEvent) : s.now ≤ (s.step e).now := by
  cases e with
  | connectOnce address =>
    simp only [step, connectOnce]
    split_ifs <;> exact le_rfl
  | resume i r => exact (step_resume_frame s i r).2.ge
  | delayReconnect address =>
    simp only [step]
    cases s.reconnectState address <;> exact le_rfl
  | stop =>
    simp only [step]
    split_ifs <;> exact le_rfl
  | elapse seconds => exact Nat.le_add_right ..
  | _ => exact le_rfl

/-- A connection runs until `run()` returns. -/
theorem move_running
    (h : ∀ ok draw, e ≠ .resume i (.ran ok draw)) :
    s.move i ⟨a, .running routine conn prevAclCount true⟩ e =
        .running routine conn prevAclCount true := by
  cases e with
  | resume j r =>
    simp only [move]
    split_ifs with hij
    · subst hij
      cases r with
      | ran ok draw => exact absurd rfl (h ok draw)
      | _ => cases routine <;> rfl
    · rfl
  | stopReconnect address => exact ite_self _
  | stop => exact ite_self _
  | _ => rfl

theorem iterate_ne_running (first : Bool) (draw : Nat)
    {handshakeOk : Bool} :
    (s.iterate i address first draw).2 ≠ .running routine conn prevAclCount handshakeOk := by
  unfold iterate
  split
  · simp
  · split
    · simp
    · split_ifs <;> simp

/-- A connection that runs was running before the step, or the step has made it. -/
theorem running_of_move {handshakeOk : Bool}
    (h : s.move i ⟨a, p⟩ e = .running routine conn prevAclCount handshakeOk) :
    (∃ before, p = .running routine conn prevAclCount before ∧
      handshakeOk = (before || decide (e = .ready conn))) ∨
    ∃ draw, e = .resume i (.connected true conn draw) := by
  have hcancel (h : s.cancelWait i ⟨a, p⟩ = .running routine conn prevAclCount handshakeOk) :
      p = .running routine conn prevAclCount handshakeOk := by
    unfold cancelWait at h
    split at h
    · exact absurd h (by simp)
    · exact h
  cases e with
  | resume j r =>
    simp only [move] at h
    split_ifs at h with hij
    · subst hij
      generalize hresult : s.resume i a p r = result at h
      cases resumes hresult with
      | idle hidle => exact .inl ⟨handshakeOk, h, by simp⟩
      | @woken wait deadline hwait =>
        simp only [awake] at h
        split_ifs at h
      | connected =>
        simp only [runConnection, Point.running.injEq] at h
        exact .inr ⟨_, by rw [h.2.1]⟩
      | iterated hloop => exact absurd h (iterate_ne_running _ _)
      | _ => exact absurd h (by simp)
    · exact .inl ⟨handshakeOk, h, by simp⟩
  | ready conn' =>
    simp only [move] at h
    cases p with
    | running routine' conn'' prev before =>
      simp only [Point.markReady, Point.running.injEq] at h
      obtain ⟨rfl, rfl, rfl, rfl⟩ := h
      exact .inl ⟨before, rfl, by simp [eq_comm]⟩
    | _ => exact absurd h (by simp [Point.markReady])
  | clearReconnectState => exact .inl ⟨handshakeOk, hcancel h, by simp⟩
  | stopReconnect address =>
    simp only [move] at h
    split_ifs at h
    · exact .inl ⟨handshakeOk, hcancel h, by simp⟩
    · exact .inl ⟨handshakeOk, h, by simp⟩
  | stop =>
    simp only [move] at h
    split_ifs at h
    · exact .inl ⟨handshakeOk, h, by simp⟩
    · exact .inl ⟨handshakeOk, hcancel h, by simp⟩
  | _ => exact .inl ⟨handshakeOk, h, by simp⟩

theorem asleepUntil_move {deadline : Nat} (h : p.AsleepUntil deadline) (hnow : s.now < deadline) :
    (s.move i ⟨a, p⟩ e).AsleepUntil deadline := by
  have hcancel : (s.cancelWait i ⟨a, p⟩).AsleepUntil deadline := by
    unfold cancelWait
    split
    next _ d hp =>
      obtain rfl : p = .sleeping .armed d := hp
      obtain rfl : d = deadline := by simpa [Point.AsleepUntil] using h
      split_ifs
      · exact .inr (.inl ⟨d, rfl⟩)
      · exact .inl rfl
    next => exact h
  cases e with
  | resume j r =>
    simp only [move]
    split_ifs
    · obtain rfl | ⟨d, rfl⟩ | rfl := h
      · cases r with
        | expired => exact .inl (by simp [resume, Nat.not_le.mpr hnow])
        | _ => exact .inl rfl
      · cases r with
        | woken => exact .inr (.inr (by simp [resume, awake]))
        | _ => exact .inr (.inl ⟨d, rfl⟩)
      · exact .inr (.inr rfl)
    · exact h
  | ready conn =>
    obtain rfl | ⟨d, rfl⟩ | rfl := h <;> simp [move, Point.markReady, Point.AsleepUntil]
  | clearReconnectState => exact hcancel
  | stopReconnect address =>
    simp only [move]
    split_ifs
    · exact hcancel
    · exact h
  | stop =>
    simp only [move]
    split_ifs
    · exact h
    · exact hcancel
  | _ => exact h

/-- Every later iteration waits first. -/
theorem iterate_again (hdraining : s.draining = false)
    (f : ReconnectState → ReconnectState) (draw : Nat) :
    ((s.modifyState address f).iterate i address false draw).2 =
      .sleeping .armed (s.now + (f (s.stateOf address)).effectiveDelay draw) := by
  rw [point_iterate hdraining, if_pos (.inl rfl)]

/-- The delay after a connection that has passed its handshake: none to speak of, unless a rejection
was counted meanwhile. -/
def delayAfterRun (s : Server) (address : String) (prevAclCount draw : Nat) : Nat :=
  let cur := s.stateOf address
  if prevAclCount < cur.aclRejectionCount then
    (if cur.aclRejectionCount < ACL_REJECTION_THRESHOLD then cur.backOff
      else cur).effectiveDelay draw
  else 1

theorem point_loopRan (prevAclCount : Nat) (ok : Bool) (draw : Nat) :
    (s.loopRan i address prevAclCount true ok draw).2 =
      if s.draining then .returned
      else .sleeping .armed (s.now + s.delayAfterRun address prevAclCount draw) := by
  unfold loopRan
  cases hdraining : s.draining with
  | true => rfl
  | false =>
    simp only [Bool.false_eq_true, if_false]
    split_ifs with hreset
    · rw [iterate_again hdraining, delayAfterRun, if_neg hreset.2]
      rfl
    · have hrejected : prevAclCount < (s.stateOf address).aclRejectionCount := by simpa using hreset
      rw [iterate_again hdraining, delayAfterRun, if_pos hrejected]

end Server

end Net

namespace Peer

open Infra Util Wire Net

/-! ## Deduplication and the delay

The ready callback of a connection runs inside `run()`, and what `on_peer_connected` does to the
server happens before the loop goes on. -/

/-- The server, and the manager whose callbacks it calls. -/
structure Outbound where
  server : Server := {}
  manager : ConnectionManager := {}

inductive OutboundEvent
  | server (e : ServerEvent)
  /-- the ready callback of a connection, outbound or inbound -/
  | ready (env : ConnectEnv) (conn : Connection)
  /-- the close callback -/
  | disconnected (nowMs : UInt64) (conn : Connection)

namespace Outbound

/-- The calls of the manager that reach the server. -/
def perform (s : Server) : Action → Server
  | .notifyAclRejected address => s.step (.notifyAclRejected address)
  | .delayReconnect address => s.step (.delayReconnect address)
  | _ => s

def step (P : Primitives) (s : Outbound) : OutboundEvent → Outbound
  | .server e => { s with server := s.server.step e }
  | .ready env conn =>
    let (manager, actions) := s.manager.onPeerConnected P env conn
    { server := actions.foldl perform (s.server.step (.ready conn.id)), manager }
  | .disconnected nowMs conn => { s with manager := (s.manager.onPeerDisconnected P nowMs conn).1 }

variable {P : Primitives} {s : Outbound} {e : OutboundEvent} {i : Nat} {a : String}
  {prevAclCount : Nat}

/-- What a step does to the coroutines of the server and its clock. -/
def serverEvent : OutboundEvent → Option ServerEvent
  | .server e => some e
  | .ready _ conn => some (.ready conn.id)
  | .disconnected .. => none

theorem perform_frame (s : Server) (action : Action) :
    (perform s action).coroutines = s.coroutines ∧ (perform s action).now = s.now ∧
      (perform s action).draining = s.draining := by
  cases action with
  | delayReconnect address =>
    simp only [perform, Server.step]
    cases s.reconnectState address <;> exact ⟨rfl, rfl, rfl⟩
  | _ => exact ⟨rfl, rfl, rfl⟩

theorem foldl_perform_frame (actions : List Action) (s : Server) :
    (actions.foldl perform s).coroutines = s.coroutines ∧ (actions.foldl perform s).now = s.now ∧
      (actions.foldl perform s).draining = s.draining := by
  induction actions generalizing s with
  | nil => exact ⟨rfl, rfl, rfl⟩
  | cons action actions ih =>
    obtain ⟨hcoroutines, hnow, hdraining⟩ := perform_frame s action
    obtain ⟨hcoroutines', hnow', hdraining'⟩ := ih (perform s action)
    exact ⟨hcoroutines'.trans hcoroutines, hnow'.trans hnow, hdraining'.trans hdraining⟩

theorem server_step : (s.step P e).server.coroutines =
    ((serverEvent e).elim s.server s.server.step).coroutines ∧
    (s.step P e).server.now = ((serverEvent e).elim s.server s.server.step).now ∧
    (s.step P e).server.draining = ((serverEvent e).elim s.server s.server.step).draining := by
  cases e with
  | ready env conn => exact foldl_perform_frame ..
  | _ => exact ⟨rfl, rfl, rfl⟩

/-- Where a coroutine is after a step. -/
def move (s : Outbound) (i : Nat) (c : Net.Coroutine) (e : OutboundEvent) : Point :=
  (serverEvent e).elim c.point (s.server.move i c)

theorem coroutine_step {c : Net.Coroutine} (h : s.server.coroutines[i]? = some c) :
    (s.step P e).server.coroutines[i]? = some { c with point := s.move i c e } := by
  rw [server_step.1, move]
  cases serverEvent e with
  | none => exact h
  | some e => exact Server.coroutine_step h

theorem now_step : s.server.now ≤ (s.step P e).server.now := by
  rw [server_step.2.1]
  cases serverEvent e with
  | none => exact le_rfl
  | some e => exact s.server.now_step e

/-- A connection that the server makes is a new one. -/
def FreshConnections (s : Outbound) (e : OutboundEvent) : Prop :=
  ∀ i conn draw, e = .server (.resume i (.connected true conn draw)) →
    ∀ p ∈ s.manager.peers, p.connection.id ≠ conn

/-- The connections in the table have passed the handshake, as the coroutines that run them know. -/
def HandshakesDone (s : Outbound) : Prop :=
  ∀ p ∈ s.manager.peers, ∀ (i : Nat) a routine prevAclCount handshakeOk,
    s.server.coroutines[i]? = some ⟨a, .running routine p.connection.id prevAclCount handshakeOk⟩ →
    handshakeOk = true

/-- A connection that runs after a step ran before it, with the same entry, or has just been made.
-/
theorem running_of_step {routine : Routine} {conn : Nat} {handshakeOk : Bool}
    (h : (s.step P e).server.coroutines[i]? =
      some ⟨a, .running routine conn prevAclCount handshakeOk⟩) :
    (∃ before, s.server.coroutines[i]? = some ⟨a, .running routine conn prevAclCount before⟩ ∧
      handshakeOk = (before || decide (serverEvent e = some (.ready conn)))) ∨
    ∃ draw, e = .server (.resume i (.connected true conn draw)) := by
  rw [server_step.1] at h
  cases hevent : serverEvent e with
  | none =>
    rw [hevent] at h
    exact .inl ⟨handshakeOk, h, by simp⟩
  | some e' =>
    rw [hevent] at h
    rcases Server.coroutine_of_step h with ⟨p, hp, hmove⟩ | ⟨-, hspawned⟩
    · refine (Server.running_of_move hmove.symm).imp ?_ ?_
      · rintro ⟨before, rfl, hready⟩
        exact ⟨before, hp, by simp [hready]⟩
      · rintro ⟨draw, rfl⟩
        refine ⟨draw, ?_⟩
        cases e with
        | server e => rw [Option.some.inj hevent]
        | ready env conn => exact absurd (Option.some.inj hevent) (by simp)
        | disconnected nowMs conn => exact absurd hevent (by simp [serverEvent])
    · exact absurd (Server.point_of_mem_spawned hspawned) (by simp)

theorem HandshakesDone.step (h : HandshakesDone s) (hfresh : FreshConnections s e) :
    HandshakesDone (s.step P e) := by
  intro p hp i a routine prevAclCount handshakeOk hrunning
  rcases running_of_step hrunning with ⟨before, hbefore, rfl⟩ | ⟨draw, rfl⟩
  · have hold (hp : p ∈ s.manager.peers) : before = true :=
      h p hp i a routine prevAclCount before hbefore
    cases e with
    | server e => simp [hold hp]
    | disconnected nowMs conn => simp [hold (List.mem_of_mem_filter hp)]
    | ready env conn =>
      rcases ConnectionManager.mem_peers_onPeerConnected hp with hp | rfl
      · simp [hold hp]
      · simp [serverEvent, ConnectionManager.infoOf]
  · exact absurd rfl (hfresh i _ draw rfl p hp)

/-- Deduplication in `on_peer_connected` closes the connection that the loop of coroutine `i` runs,
and has its address delayed. -/
def Deduplicates (P : Primitives) (s : Outbound) (env : ConnectEnv) (conn : Connection)
    (i : Nat) (a : String)
    (prevAclCount : Nat) : Prop :=
  let actions := (s.manager.onPeerConnected P env conn).2
  .delayReconnect a ∈ actions ∧ ∃ closed handshakeOk, .close closed ∈ actions ∧
    (s.step P (.ready env conn)).server.coroutines[i]? =
      some ⟨a, .running .reconnectLoop closed.id prevAclCount handshakeOk⟩

/-- The connection has passed its handshake. -/
theorem Deduplicates.running {env : ConnectEnv} {conn : Connection}
    (h : Deduplicates P s env conn i a prevAclCount) (hdone : HandshakesDone s) :
    ∃ id, (s.step P (.ready env conn)).server.coroutines[i]? =
      some ⟨a, .running .reconnectLoop id prevAclCount true⟩ := by
  obtain ⟨hdelay, closed, handshakeOk, hclose, hrunning⟩ := h
  suffices hok : handshakeOk = true from ⟨closed.id, hok ▸ hrunning⟩
  obtain ⟨before, hbefore, rfl⟩ := (running_of_step hrunning).resolve_right (by simp)
  generalize hresult : s.manager.onPeerConnected P env conn = result at hdelay hclose
  cases ConnectionManager.connects hresult with
  | denied hacl => simp at hdelay
  | fresh hacl hnew => exact absurd hclose (ConnectionManager.close_notMem_register closed)
  | @replaced existing hacl hrole hdup hkeep =>
    rcases List.mem_append.mp hclose with hclose | hclose
    · rw [ConnectionManager.mem_closeDuplicate.mp hclose] at hbefore
      have hold := hdone existing (ConnectionManager.mem_duplicateOf hdup).1 i a _ _ before hbefore
      simp [hold]
    · exact absurd hclose (ConnectionManager.close_notMem_register closed)
  | refused hacl hrole hdup hkeep =>
    rw [ConnectionManager.mem_closeDuplicate.mp hclose]
    simp [serverEvent]

/-- A step in which coroutine `i` starts an attempt of its loop. -/
def Attempts (P : Primitives) (i : Nat) (s : Outbound) (e : OutboundEvent) : Prop :=
  ∃ a, (s.step P e).server.coroutines[i]? = some ⟨a, .resolving .reconnectLoop⟩ ∧
    s.server.coroutines[i]? ≠ some ⟨a, .resolving .reconnectLoop⟩

theorem asleepUntil_move {p : Point} {deadline : Nat} (h : p.AsleepUntil deadline)
    (hnow : s.server.now < deadline) :
    (s.move i ⟨a, p⟩ e).AsleepUntil deadline := by
  rw [move]
  cases serverEvent e with
  | none => exact h
  | some e => exact Server.asleepUntil_move h hnow

/-- Whoever sleeps until a deadline makes no attempt before it. -/
theorem le_now_of_attempts {p : Point} {deadline : Nat} (hp : s.server.coroutines[i]? = some ⟨a, p⟩)
    (hasleep : p.AsleepUntil deadline) {later : List OutboundEvent}
    (hattempts : Attempts P i (run (step P) s later) e) :
    deadline ≤ (run (step P) s later).server.now := by
  have hlater : deadline ≤ (run (step P) s later).server.now ∨
      ∃ p, (run (step P) s later).server.coroutines[i]? = some ⟨a, p⟩ ∧ p.AsleepUntil deadline := by
    clear hattempts
    induction later using List.reverseRecOn with
    | nil => exact .inr ⟨p, hp, hasleep⟩
    | append_singleton later e ih =>
      rw [run_append, run_cons, run_nil]
      rcases ih with hdue | ⟨p, hp, hasleep⟩
      · exact .inl (hdue.trans now_step)
      · by_cases hdue : deadline ≤ (run (step P) s later).server.now
        · exact .inl (hdue.trans now_step)
        · exact .inr ⟨_, coroutine_step hp, asleepUntil_move hasleep (Nat.lt_of_not_le hdue)⟩
  rcases hlater with hdue | ⟨p, hp, hasleep⟩
  · exact hdue
  · by_contra hdue
    obtain ⟨a', hresolving, -⟩ := hattempts
    rw [coroutine_step hp] at hresolving
    have hstill := asleepUntil_move (i := i) (a := a) (e := e) hasleep (Nat.lt_of_not_le hdue)
    rw [show (run (step P) s later).move i ⟨a, p⟩ e = .resolving .reconnectLoop from
      congrArg Net.Coroutine.point (Option.some.inj hresolving)] at hstill
    simp [Point.AsleepUntil] at hstill

/-- A timer may run out at its deadline, and the attempt follows at once. -/
theorem exists_attempt {d : Nat} (hdraining : s.server.draining = false)
    (hp : s.server.coroutines[i]? = some ⟨a, .sleeping .armed (s.server.now + d)⟩) :
    ∃ later e, Attempts P i (run (step P) s later) e ∧
      (run (step P) s later).server.now = s.server.now + d := by
  have hexpired :
    (((s.step P (.server (.elapse d))).step P
      (.server (.resume i .expired))).server.coroutines[i]?) =
      some ⟨a, .sleeping .expired (s.server.now + d)⟩ := by
    rw [coroutine_step (coroutine_step hp)]
    simp [move, serverEvent, Server.move, Server.resume, step, Server.step]
  have hwoken := coroutine_step (P := P) (e := .server (.resume i .woken)) hexpired
  refine ⟨[.server (.elapse d), .server (.resume i .expired)], .server (.resume i .woken),
    ⟨a, ?_, ?_⟩, ?_⟩
  · rw [run_cons, run_cons, run_nil, hwoken]
    have hstill : ((s.server.step (.elapse d)).step (.resume i .expired)).draining = false :=
      (Server.step_resume_frame _ i .expired).1.trans hdraining
    simp [move, serverEvent, Server.move, Server.resume, Server.awake, step, hstill]
  · rw [run_cons, run_cons, run_nil, hexpired]
    simp
  · exact (Server.step_resume_frame (s.server.step (.elapse d)) i .expired).2

/-- How long a loop waits at least is the delay it has set its timer to. -/
theorem waits_iff {d : Nat} (m : Nat) (hp : s.server.coroutines[i]? =
    some ⟨a, if s.server.draining then .returned else .sleeping .armed (s.server.now + d)⟩) :
    (∀ later e, Attempts P i (run (step P) s later) e →
      s.server.now + m ≤ (run (step P) s later).server.now) ↔ s.server.draining = true ∨ m ≤ d := by
  cases hdraining : s.server.draining with
  | true =>
    rw [hdraining, if_pos rfl] at hp
    exact iff_of_true (fun later e => le_now_of_attempts hp (.inr (.inr rfl))) (.inl rfl)
  | false =>
    simp only [hdraining, Bool.false_eq_true, if_false, false_or] at hp ⊢
    constructor
    · intro hwaits
      obtain ⟨later, e, hattempt, hnow⟩ := exists_attempt (P := P) hdraining hp
      have hlater := hwaits later e hattempt
      omega
    · intro hle later e hattempt
      have hdue := le_now_of_attempts hp (.inl rfl) hattempt
      omega

theorem running_run {id : Nat} {during : List OutboundEvent}
    (h : s.server.coroutines[i]? = some ⟨a, .running .reconnectLoop id prevAclCount true⟩)
    (hruns : ∀ ok draw, .server (.resume i (.ran ok draw)) ∉ during) :
    (run (step P) s during).server.coroutines[i]? =
      some ⟨a, .running .reconnectLoop id prevAclCount true⟩ := by
  induction during generalizing s with
  | nil => exact h
  | cons e during ih =>
    rw [run_cons]
    refine ih ?_ fun ok draw hmem => hruns ok draw (List.mem_cons_of_mem _ hmem)
    have hmove : s.move i ⟨a, .running .reconnectLoop id prevAclCount true⟩ e =
        .running .reconnectLoop id prevAclCount true := by
      cases e with
      | server e =>
        refine Server.move_running fun ok draw heq => ?_
        exact hruns ok draw (heq ▸ List.mem_cons_self)
      | ready env conn => rfl
      | disconnected nowMs conn => rfl
    rw [coroutine_step h, hmove]

/-- **After deduplication the loop waits as long as after any connection**: for at least
`MAX_BACKOFF_SEC` exactly if the server drains, or a rejection was counted while the connection ran
and the delay that follows from it is that long. -/
theorem dedup_backoff_iff (P : Primitives) (before during : List OutboundEvent) (env : ConnectEnv)
    (conn : Connection) (i : Nat) (a : String) (prevAclCount : Nat) (ok : Bool) (draw : Nat)
    (hfresh : AllSteps (step P) FreshConnections {} (before ++ .ready env conn :: during))
    (hdedup : Deduplicates P (run (step P) {} before) env conn i a prevAclCount)
    (hruns : ∀ ok draw, .server (.resume i (.ran ok draw)) ∉ during) :
    let s := run (step P) {} (before ++ .ready env conn :: during)
    let s' := s.step P (.server (.resume i (.ran ok draw)))
    let cur := s.server.stateOf a
    (∀ later e, Attempts P i (run (step P) s' later) e →
      s'.server.now + MAX_BACKOFF_SEC ≤ (run (step P) s' later).server.now) ↔
    s.server.draining = true ∨ (prevAclCount < cur.aclRejectionCount ∧ MAX_BACKOFF_SEC ≤
      (if cur.aclRejectionCount < ACL_REJECTION_THRESHOLD then cur.backOff
        else cur).effectiveDelay draw) := by
  intro s s' cur
  have hdone : HandshakesDone (run (step P) {} before) :=
    run_invariant (fun s e hdone hfresh => hdone.step hfresh) (by intro p hp; simp at hp)
      (allSteps_append.mp hfresh).1
  obtain ⟨id, hready⟩ := hdedup.running hdone
  have hrunning : s.server.coroutines[i]? =
      some ⟨a, .running .reconnectLoop id prevAclCount true⟩ := by
    show (run (step P) {} (before ++ .ready env conn :: during)).server.coroutines[i]? = _
    rw [run_append, run_cons]
    exact running_run hready hruns
  have hpoint : s'.server.coroutines[i]? = some ⟨a, if s.server.draining then .returned
      else .sleeping .armed (s.server.now + s.server.delayAfterRun a prevAclCount draw)⟩ := by
    rw [coroutine_step hrunning]
    simp [move, serverEvent, Server.move, Server.resume, Server.point_loopRan]
  obtain ⟨hdraining, hnow⟩ : s'.server.draining = s.server.draining ∧
    s'.server.now = s.server.now :=
    Server.step_resume_frame s.server i (.ran ok draw)
  rw [← hdraining, ← hnow] at hpoint
  rw [waits_iff MAX_BACKOFF_SEC hpoint, hdraining, Server.delayAfterRun]
  refine or_congr Iff.rfl ?_
  by_cases hrejected : prevAclCount < cur.aclRejectionCount
  · rw [if_pos hrejected]
    exact (and_iff_right hrejected).symm
  · rw [if_neg hrejected]
    exact iff_of_false (by decide) fun h => hrejected h.1

section Sample

open Sample

/-- This node connects to the peer that has already connected to it. -/
def dial : Connection where
  id := 1
  peerPubkey := key 1
  peerRole := .peer
  isInitiator := true
  connectAddress := some "peer:4200"

/-- A peer is connected, and the loop for its address connects to it too. -/
def dialled : List OutboundEvent :=
  [.ready ConnectionManager.hostEnv (ConnectionManager.visit 0 .peer),
    .server (.connectOnce "peer:4200"), .server (.resume 0 (.started 0)),
    .server (.resume 0 (.resolved true 0)), .server (.resume 0 (.connected true 1 0))]

/-- If the server is stopped before `run()` returns, the loop makes no attempt. -/
theorem dedup_backoff_stopped :
    Deduplicates primitives (run (step primitives) {} dialled) ConnectionManager.hostEnv dial 0
        "peer:4200" 0 ∧
      ∀ later e,
        let s' := run (step primitives) {} (dialled ++
          [.ready ConnectionManager.hostEnv dial, .server .stop, .server (.resume 0 (.ran true 0))])
        Attempts primitives 0 (run (step primitives) s' later) e →
          s'.server.now + MAX_BACKOFF_SEC ≤ (run (step primitives) s' later).server.now := by
  have hother (s : Outbound) (e : OutboundEvent)
      (h : ∀ i conn draw, e ≠ .server (.resume i (.connected true conn draw))) :
      FreshConnections s e :=
    fun i conn draw heq => absurd heq (h i conn draw)
  have hids : (run (step primitives) {} (dialled.take 4)).manager.peers.map (·.connection.id) =
    [0] := by decide
  have hfresh : AllSteps (step primitives) FreshConnections {}
      (dialled ++ .ready ConnectionManager.hostEnv dial :: [.server .stop]) := by
    refine ⟨hother _ _ (by simp), hother _ _ (by simp), hother _ _ (by simp),
      hother _ _ (by simp), ?_, hother _ _ (by simp), hother _ _ (by simp), trivial⟩
    intro i conn draw heq p hp
    obtain ⟨-, rfl, -⟩ : 0 = i ∧ 1 = conn ∧ 0 = draw := by simpa using heq
    have hid : p.connection.id ∈ [0] := hids ▸ List.mem_map_of_mem hp
    simp [List.mem_singleton.mp hid]
  have hdedup : Deduplicates primitives (run (step primitives) {} dialled)
      ConnectionManager.hostEnv dial 0 "peer:4200" 0 :=
    ⟨List.mem_cons_self, dial, true, List.mem_cons_of_mem _ List.mem_cons_self, by decide⟩
  refine ⟨hdedup, fun later e => ?_⟩
  have hstopped := (dedup_backoff_iff primitives dialled [.server .stop] ConnectionManager.hostEnv
    dial 0 "peer:4200" 0 true 0 hfresh hdedup (by simp)).mpr (.inl (by decide))
  exact hstopped later e

/-- **The delay is forgotten**: deduplication sets it to 60 s, the end of the connection resets it,
and the next attempt starts after one second. -/
theorem dedup_backoff_reset :
    let s := run (step primitives) {} (dialled ++ [.ready ConnectionManager.hostEnv dial])
    let s' := s.step primitives (.server (.resume 0 (.ran true 0)))
    let s'' := run (step primitives) s' [.server (.elapse 1), .server (.resume 0 .expired),
      .server (.resume 0 .woken)]
    ((run (step primitives) {} dialled).manager.onPeerConnected primitives
      ConnectionManager.hostEnv dial).2 =
        [.delayReconnect "peer:4200", .close dial] ∧
      s.server.stateOf "peer:4200" = { delaySec := 60 } ∧
      s.server.coroutines = [⟨"peer:4200", .running .reconnectLoop 1 0 true⟩] ∧
      s'.server.stateOf "peer:4200" = { delaySec := 1 } ∧
      s'.server.coroutines = [⟨"peer:4200", .sleeping .armed 1⟩] ∧
      s''.server.coroutines = [⟨"peer:4200", .resolving .reconnectLoop⟩] ∧ s''.server.now = 1 := by
  refine ⟨rfl, by decide, by decide, by decide, by decide, by decide, by decide⟩

end Sample

end Outbound

end Peer
