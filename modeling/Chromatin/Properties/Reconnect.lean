import Chromatin.Infra.Run
import Chromatin.Net.Server

/-!
# Reconnect loops

The entries of `reconnect_state_` are to say for which addresses a loop is running, but
`clear_reconnect_state` removes them all and cancels the timers. A loop that waits takes the
cancelled wait for a shutdown and returns; one that does not wait goes on without its entry, and the
next `connect_once` starts a second one beside it.

* `reconnect_loops_iff` — the loops survive a clear and stay unique exactly if `connect_once` finds
  the entry of every loop, `connect_to_peer` goes over to its loop beside no other, and no clear
  finds the only loop of an address waiting
-/

namespace Net

/-- The coroutine is in `reconnect_loop`, or will start in it. -/
def Point.inLoop : Point → Bool
  | .spawned routine | .resolving routine | .connecting routine | .running routine _ _ _ =>
    routine = .reconnectLoop
  | .sleeping _ _ => true
  | .returned => false

/-- The loop goes on. A loop whose wait was cancelled returns as soon as it is resumed. -/
def Point.goesOn : Point → Bool
  | .sleeping .aborted _ => false
  | p => p.inLoop

/-- `connect_to_peer` goes over to the loop. -/
def Point.entersLoop : Point → Resumption → Bool
  | .resolving .connectToPeer, .resolved ok _ => !ok
  | .connecting .connectToPeer, .connected ok _ _ => !ok
  | .running .connectToPeer _ _ _, .ran _ _ => true
  | _, _ => false

namespace Server

open Infra

variable {s : Server} {i j : Nat} {a address : String} {p : Point} {r : Resumption}
  {e : ServerEvent}
  {c : Coroutine}

/-! ## What a resumed coroutine does -/

/-- The next suspension of a resumed coroutine. -/
inductive Resumes (s : Server) (i : Nat) (address : String) :
    Point → Resumption → Server × Point → Prop
  | idle {p : Point} {r : Resumption} (hidle : p.entersLoop r = false) :
      Resumes s i address p r (s, p)
  | started {draw : Nat} :
    Resumes s i address (.spawned .connectToPeer) (.started draw) (s, .resolving .connectToPeer)
  | expired {deadline : Nat} (hdue : deadline ≤ s.now) :
    Resumes s i address (.sleeping .armed deadline) .expired (s, .sleeping .expired deadline)
  | woken {wait : Wait} {deadline : Nat} (hwait : wait ≠ .armed) :
    Resumes s i address (.sleeping wait deadline) .woken (s.awake address wait)
  | resolved {routine : Routine} {draw : Nat} :
    Resumes s i address (.resolving routine) (.resolved true draw) (s, .connecting routine)
  | connected {routine : Routine} {conn draw : Nat} :
    Resumes s i address (.connecting routine) (.connected true conn draw)
      (s.runConnection address routine conn)
  | drained {p : Point} {r : Resumption} {s' : Server} (hdraining : s.draining = true)
    (hs' : s' = s ∨ s' = s.modifyState address id) : Resumes s i address p r (s', .returned)
  /-- the loop comes to its head, with its entry in place -/
  | iterated {p : Point} {r : Resumption}
      {f : ReconnectState → ReconnectState} {first : Bool} {draw : Nat}
    (hloop : p.goesOn = true ∨ p.entersLoop r = true) :
    Resumes s i address p r ((s.modifyState address f).iterate i address first draw)

theorem modifyState_modifyState (f g : ReconnectState → ReconnectState) :
    (s.modifyState address f).modifyState address g = s.modifyState address (g ∘ f) := by
  simp [modifyState, stateOf]

theorem resumes {result : Server × Point} (h : s.resume i address p r = result) :
    Resumes s i address p r result := by
  subst h
  have hfailed (routine : Routine) (draw : Nat) (hloop : p.goesOn = true ∨ p.entersLoop r = true) :
      Resumes s i address p r (s.attemptFailed i address draw routine) := by
    cases routine <;> exact .iterated hloop
  unfold resume
  split
  case h_1 => exact .started
  case h_2 => exact .iterated (.inl rfl)
  case h_3 =>
    split_ifs with hdue
    · exact .expired hdue
    · exact .idle rfl
  case h_4 => exact .woken (by simp)
  case h_5 => exact .woken (by simp)
  case h_6 routine ok draw =>
    split_ifs with hdraining hok
    · exact .drained hdraining.2 (.inl rfl)
    · subst hok; exact .resolved
    · refine hfailed routine draw ?_
      cases routine <;> simp [Point.goesOn, Point.inLoop, Point.entersLoop, hok]
  case h_7 routine ok conn draw =>
    split_ifs with hdraining hok
    · exact .drained hdraining.2 (.inl rfl)
    · subst hok; exact .connected
    · refine hfailed routine draw ?_
      cases routine <;> simp [Point.goesOn, Point.inLoop, Point.entersLoop, hok]
  case h_8 =>
    unfold connectRan
    split_ifs with hdraining
    · exact .drained hdraining (.inr rfl)
    · rw [reconnectLoop, modifyState_modifyState]
      exact .iterated (.inr rfl)
  case h_9 =>
    unfold loopRan
    split
    · exact .drained ‹_› (.inl rfl)
    · dsimp only
      split_ifs
      · exact .iterated (.inl rfl)
      · exact .iterated (.inl rfl)
  case h_10 =>
    refine .idle ?_
    unfold Point.entersLoop
    split <;> grind

/-- Only the maps are written by the coroutine itself. -/
theorem iterate_frame (first : Bool) (draw : Nat) :
    (s.iterate i address first draw).1.coroutines = s.coroutines ∧
      (s.iterate i address first draw).1.draining = s.draining ∧
      (s.iterate i address first draw).1.now = s.now := by
  unfold iterate
  split
  · exact ⟨rfl, rfl, rfl⟩
  · split
    · exact ⟨rfl, rfl, rfl⟩
    · split_ifs <;> exact ⟨rfl, rfl, rfl⟩

theorem resume_frame (s : Server) (i : Nat) (address : String) (p : Point) (r : Resumption) :
    (s.resume i address p r).1.coroutines = s.coroutines ∧
      (s.resume i address p r).1.draining = s.draining ∧
          (s.resume i address p r).1.now = s.now := by
  generalize hresult : s.resume i address p r = result
  cases resumes hresult with
  | drained hdraining hs' => obtain rfl | rfl := hs' <;> exact ⟨rfl, rfl, rfl⟩
  | iterated hloop => exact iterate_frame ..
  | _ => exact ⟨rfl, rfl, rfl⟩

theorem inLoop_of_goesOn (h : p.goesOn = true) : p.inLoop = true := by
  unfold Point.goesOn at h
  split at h
  · exact absurd h (by simp)
  · exact h

/-- With its entry in place the loop waits or makes an attempt. -/
theorem point_iterate (hdraining : s.draining = false)
    (f : ReconnectState → ReconnectState) (first : Bool) (draw : Nat) :
    let cur := f (s.stateOf address)
    ((s.modifyState address f).iterate i address first draw).2 =
      if !first ∨ 1 < cur.delaySec ∨ ACL_REJECTION_THRESHOLD ≤ cur.aclRejectionCount then
        .sleeping .armed (s.now + cur.effectiveDelay draw)
      else .resolving .reconnectLoop := by
  intro cur
  have hentry : (s.modifyState address f).reconnectState address = some cur :=
    Function.update_self ..
  have hnot : ¬ (s.modifyState address f).draining = true := by
    show ¬ s.draining = true
    simp [hdraining]
  rw [iterate, if_neg hnot, hentry]
  dsimp only
  split_ifs <;> rfl

theorem goesOn_iterate (hdraining : s.draining = false)
    {f : ReconnectState → ReconnectState} (first : Bool)
    (draw : Nat) : ((s.modifyState address f).iterate i address first draw).2.goesOn = true := by
  rw [point_iterate hdraining]
  split_ifs <;> rfl

/-- A resumed loop goes on, and one that is entered does. -/
theorem goesOn_resume (hdraining : s.draining = false)
    (h : p.goesOn = true ∨ p.entersLoop r = true) :
    (s.resume i address p r).2.goesOn = true := by
  generalize hresult : s.resume i address p r = result
  cases resumes hresult with
  | idle hidle => exact h.resolve_right (by simp [hidle])
  | started => exact h.elim id id
  | expired hdue => rfl
  | @woken wait deadline hwait =>
    cases wait with
    | armed => exact absurd rfl hwait
    | expired => simp [awake, hdraining, Point.goesOn, Point.inLoop]
    | aborted => exact absurd h (by simp [Point.goesOn, Point.entersLoop])
  | @resolved routine draw =>
    cases routine with
    | connectToPeer => exact absurd h (by simp [Point.goesOn, Point.inLoop, Point.entersLoop])
    | reconnectLoop => rfl
  | @connected routine conn draw =>
    cases routine with
    | connectToPeer => exact absurd h (by simp [Point.goesOn, Point.inLoop, Point.entersLoop])
    | reconnectLoop => rfl
  | drained hdrained =>
    rw [hdraining] at hdrained
    exact absurd hdrained (by simp)
  | iterated hloop => exact goesOn_iterate hdraining ..

/-- Nothing else becomes a loop. -/
theorem inLoop_of_resume (h : (s.resume i address p r).2.inLoop = true) :
    p.inLoop = true ∨ p.entersLoop r = true := by
  generalize hresult : s.resume i address p r = result at h
  cases resumes hresult with
  | idle hidle => exact .inl h
  | started => exact .inl h
  | expired hdue => exact .inl rfl
  | woken hwait => exact .inl rfl
  | resolved => exact .inl h
  | connected => exact .inl h
  | drained hdrained => exact absurd h (by simp [Point.inLoop])
  | iterated hloop => exact hloop.imp_left inLoop_of_goesOn

/-! ## The loops of an address -/

/-- Coroutine `i` is a loop for the address that has not returned. -/
def LoopAt (s : Server) (a : String) (i : Nat) : Prop :=
  ∃ p, s.coroutines[i]? = some ⟨a, p⟩ ∧ p.inLoop = true

/-- Coroutine `i` is a loop for the address, and it goes on. -/
def GoesOnAt (s : Server) (a : String) (i : Nat) : Prop :=
  ∃ p, s.coroutines[i]? = some ⟨a, p⟩ ∧ p.goesOn = true

/-- Coroutine `i` waits at the timer that is registered for its address. -/
def WaitsAt (s : Server) (a : String) (i : Nat) : Prop :=
  (∃ deadline, s.coroutines[i]? = some ⟨a, .sleeping .armed deadline⟩) ∧
    s.reconnectTimers a = some i

theorem GoesOnAt.loopAt (h : GoesOnAt s a i) : LoopAt s a i := by
  obtain ⟨p, hp, hgoes⟩ := h
  exact ⟨p, hp, inLoop_of_goesOn hgoes⟩

/-- The loop that a step adds, by its coroutine and address. -/
def entered (s : Server) : ServerEvent → Option (Nat × String)
  | .connectOnce address =>
    if (s.reconnectState address).isSome then none else some (s.coroutines.length, address)
  | .resume i r =>
    match s.coroutines[i]? with
    | some c => if c.point.entersLoop r then some (i, c.address) else none
    | none => none
  | _ => none

/-- No shutdown, and no address is given up. -/
def StaysUp : ServerEvent → Prop
  | .stop | .stopReconnect _ => False
  | _ => True

/-- Where a coroutine is after a step. -/
def move (s : Server) (i : Nat) (c : Coroutine) : ServerEvent → Point
  | .resume j r => if i = j then (s.resume i c.address c.point r).2 else c.point
  | .ready conn => c.point.markReady conn
  | .stopReconnect address => if c.address = address then s.cancelWait i c else c.point
  | .clearReconnectState => s.cancelWait i c
  | .stop => if s.draining then c.point else s.cancelWait i c
  | .connectToPeer _ | .connectOnce _ | .notifyAclRejected _ | .delayReconnect _ | .elapse _ =>
    c.point

/-- The coroutine that a step spawns. -/
def spawned (s : Server) : ServerEvent → List Coroutine
  | .connectToPeer address => [⟨address, .spawned .connectToPeer⟩]
  | .connectOnce address =>
    if s.draining ∨ (s.reconnectState address).isSome then []
      else [⟨address, .spawned .reconnectLoop⟩]
  | _ => []

/-- **What a step does to the coroutines.** -/
theorem coroutines_step (s : Server) (e : ServerEvent) :
    (s.step e).coroutines =
      (s.coroutines.mapIdx fun i c => { c with point := s.move i c e }) ++ s.spawned e := by
  have hsame : (s.coroutines.mapIdx fun _ c => { c with point := c.point }) = s.coroutines :=
    List.ext_getElem? fun i => by simp
  cases e with
  | connectToPeer address => simp only [step, spawn, move, spawned, hsame]
  | connectOnce address =>
    simp only [step, connectOnce, move, spawned, hsame]
    by_cases hdraining : s.draining = true
    · simp [hdraining]
    · by_cases hentry : (s.reconnectState address).isSome = true
      · simp [hdraining, hentry]
      · simp [hdraining, hentry, spawn, modifyState]
  | resume i r =>
    simp only [spawned, List.append_nil]
    refine List.ext_getElem? fun j => ?_
    simp only [step, move, List.getElem?_mapIdx]
    cases hc : s.coroutines[i]? with
    | none =>
      by_cases hj : j = i
      · subst hj; simp [hc]
      · simp [hj]
    | some c =>
      simp only [setPoint, (resume_frame s i c.address c.point r).1, List.getElem?_modify]
      by_cases hj : j = i
      · subst hj; simp [hc]
      · simp [Ne.symm hj, hj]
  | ready conn => exact List.ext_getElem? fun i => by simp [step, move, spawned]
  | notifyAclRejected address =>
    simp only [step, modifyState, move, spawned, hsame, List.append_nil]
  | delayReconnect address =>
    simp only [step, move, spawned, hsame, List.append_nil]
    cases s.reconnectState address <;> rfl
  | stopReconnect address =>
    simp only [step, cancelTimers, move, spawned, List.append_nil, decide_eq_true_eq]
    congr 1
    funext i c
    split_ifs <;> rfl
  | clearReconnectState => simp [step, cancelTimers, move, spawned, cancelWait]
  | stop =>
    simp only [step, move, spawned, List.append_nil]
    split_ifs with hdraining
    · exact hsame.symm
    · simp [cancelTimers, cancelWait]
  | elapse seconds => simp only [step, move, spawned, hsame, List.append_nil]

/-- A coroutine stays where it is in the list, with its address. -/
theorem coroutine_step (h : s.coroutines[i]? = some c) :
    (s.step e).coroutines[i]? = some { c with point := s.move i c e } := by
  rw [coroutines_step,
    List.getElem?_append_left (by simpa using (List.getElem?_eq_some_iff.mp h).1)]
  simp [h]

theorem point_of_mem_spawned (h : c ∈ s.spawned e) : ∃ routine, c.point = .spawned routine := by
  unfold spawned at h
  split at h
  · exact ⟨_, congrArg Coroutine.point (List.mem_singleton.mp h)⟩
  · split_ifs at h
    · exact absurd h List.not_mem_nil
    · exact ⟨_, congrArg Coroutine.point (List.mem_singleton.mp h)⟩
  · exact absurd h List.not_mem_nil

theorem coroutine_of_step (h : (s.step e).coroutines[i]? = some c) :
    (∃ p, s.coroutines[i]? = some ⟨c.address, p⟩ ∧ c.point = s.move i ⟨c.address, p⟩ e) ∨
      (i = s.coroutines.length ∧ c ∈ s.spawned e) := by
  rw [coroutines_step] at h
  rcases Nat.lt_or_ge i s.coroutines.length with hlt | hge
  · rw [List.getElem?_append_left (by simpa using hlt)] at h
    simp only [List.getElem?_mapIdx, Option.map_eq_some_iff] at h
    obtain ⟨c', hc', rfl⟩ := h
    exact .inl ⟨c'.point, hc', rfl⟩
  · rw [List.getElem?_append_right (by simpa using hge), List.length_mapIdx] at h
    have hone : (s.spawned e).length ≤ 1 := by
      unfold spawned
      split <;> (try split_ifs) <;> simp
    have hlast := (List.getElem?_eq_some_iff.mp h).1
    exact .inr ⟨by omega, List.mem_of_getElem? h⟩

theorem step_resume_frame (s : Server) (i : Nat) (r : Resumption) :
    (s.step (.resume i r)).draining = s.draining ∧ (s.step (.resume i r)).now = s.now := by
  simp only [step]
  cases hc : s.coroutines[i]? with
  | none => exact ⟨rfl, rfl⟩
  | some c => exact (resume_frame s i c.address c.point r).2

/-! ## One step and the loops of an address -/

theorem goesOn_markReady (conn : Nat) : (p.markReady conn).goesOn = p.goesOn := by
  cases p <;> rfl

theorem inLoop_markReady (conn : Nat) : (p.markReady conn).inLoop = p.inLoop := by
  cases p <;> rfl

theorem inLoop_cancelWait (c : Coroutine) : (s.cancelWait i c).inLoop = c.point.inLoop := by
  unfold cancelWait
  split <;> simp_all [Point.inLoop]

/-- Loops that go on are only stopped by a call that cancels timers. -/
theorem GoesOnAt.step (h : GoesOnAt s a i) (hdraining : s.draining = false) (hup : StaysUp e)
    (hclear : e ≠ .clearReconnectState) : GoesOnAt (s.step e) a i := by
  obtain ⟨p, hp, hgoes⟩ := h
  refine ⟨_, coroutine_step hp, ?_⟩
  cases e with
  | resume j r =>
    simp only [move]
    split_ifs
    · exact goesOn_resume hdraining (.inl hgoes)
    · exact hgoes
  | ready conn => exact (goesOn_markReady conn).trans hgoes
  | stopReconnect address | stop => exact absurd hup not_false
  | clearReconnectState => exact absurd rfl hclear
  | _ => exact hgoes

theorem goesOn_cancelWait : (s.cancelWait i ⟨a, p⟩).goesOn = true ↔
    p.goesOn = true ∧ ¬ ((∃ deadline, p = .sleeping .armed deadline) ∧
        s.reconnectTimers a = some i) := by
  unfold cancelWait
  split
  next _ deadline hp =>
    obtain rfl : p = .sleeping .armed deadline := hp
    by_cases htimer : s.reconnectTimers a = some i <;> simp [htimer, Point.goesOn, Point.inLoop]
  next _ hp =>
    refine ⟨fun h => ⟨h, ?_⟩, And.left⟩
    rintro ⟨⟨deadline, rfl⟩, -⟩
    exact hp deadline rfl

/-- `clear_reconnect_state` stops the loops that wait at a registered timer. -/
theorem goesOnAt_clear : GoesOnAt (s.step .clearReconnectState) a i ↔
    GoesOnAt s a i ∧ ¬ WaitsAt s a i := by
  constructor
  · rintro ⟨p, hp, hgoes⟩
    obtain ⟨p', hp', hmove⟩ :=
      (coroutine_of_step hp).resolve_right fun h => absurd h.2 (by simp [spawned])
    rw [show p = s.cancelWait i ⟨a, p'⟩ from hmove, goesOn_cancelWait] at hgoes
    refine ⟨⟨p', hp', hgoes.1⟩, ?_⟩
    rintro ⟨⟨deadline, hdeadline⟩, htimer⟩
    rw [hdeadline] at hp'
    exact hgoes.2 ⟨⟨deadline, congrArg Coroutine.point (Option.some.inj hp'.symm)⟩, htimer⟩
  · rintro ⟨⟨p, hp, hgoes⟩, hwaits⟩
    refine ⟨_, coroutine_step hp, goesOn_cancelWait.mpr ⟨hgoes, ?_⟩⟩
    rintro ⟨⟨deadline, rfl⟩, htimer⟩
    exact hwaits ⟨⟨deadline, hp⟩, htimer⟩

/-- A loop was there before, or the step has entered it. -/
theorem LoopAt.of_step (h : LoopAt (s.step e) a i) : LoopAt s a i ∨ s.entered e = some (i, a) := by
  obtain ⟨p, hp, hloop⟩ := h
  rcases coroutine_of_step hp with ⟨p', hp', hmove⟩ | ⟨rfl, hspawned⟩
  · obtain rfl : p = s.move i ⟨a, p'⟩ e := hmove
    cases e with
    | resume j r =>
      simp only [move] at hloop
      split_ifs at hloop with hij
      · subst hij
        refine (inLoop_of_resume hloop).imp (fun hin => ⟨p', hp', hin⟩) fun henters => ?_
        simp only [entered, hp', if_pos henters]
      · exact .inl ⟨p', hp', hloop⟩
    | ready conn => exact .inl ⟨p', hp', (inLoop_markReady conn).symm.trans hloop⟩
    | clearReconnectState => exact .inl ⟨p', hp', (inLoop_cancelWait _).symm.trans hloop⟩
    | stopReconnect address =>
      simp only [move] at hloop
      split_ifs at hloop
      · exact .inl ⟨p', hp', (inLoop_cancelWait _).symm.trans hloop⟩
      · exact .inl ⟨p', hp', hloop⟩
    | stop =>
      simp only [move] at hloop
      split_ifs at hloop
      · exact .inl ⟨p', hp', hloop⟩
      · exact .inl ⟨p', hp', (inLoop_cancelWait _).symm.trans hloop⟩
    | _ => exact .inl ⟨p', hp', hloop⟩
  · cases e with
    | connectToPeer address =>
      obtain ⟨-, rfl⟩ : a = address ∧
        p = .spawned .connectToPeer := by simpa [spawned] using hspawned
      exact absurd hloop (by simp [Point.inLoop])
    | connectOnce address =>
      simp only [spawned] at hspawned
      split_ifs at hspawned with hentry
      · exact absurd hspawned List.not_mem_nil
      · obtain ⟨rfl, -⟩ : a = address ∧ p = .spawned .reconnectLoop := by simpa using hspawned
        exact .inr (if_neg fun h => hentry (.inr h))
    | _ => exact absurd hspawned List.not_mem_nil

theorem inLoop_of_entersLoop (h : p.entersLoop r = true) : p.inLoop = false := by
  unfold Point.entersLoop at h
  split at h <;> first | rfl | exact absurd h (by simp)

/-- The loop that a step enters is a new one; the others stay. -/
theorem entered_spec (h : s.entered e = some (i, a)) (hdraining : s.draining = false) :
    GoesOnAt (s.step e) a i ∧ ¬ LoopAt s a i ∧ ∀ b j, LoopAt s b j → LoopAt (s.step e) b j := by
  cases e with
  | connectOnce address =>
    simp only [entered] at h
    split_ifs at h with hentry
    obtain ⟨rfl, rfl⟩ : s.coroutines.length = i ∧ address = a := by simpa using h
    refine ⟨⟨.spawned .reconnectLoop, ?_, rfl⟩, ?_, fun b j ⟨p, hp, hin⟩ =>
      ⟨p, coroutine_step hp, hin⟩⟩
    · rw [coroutines_step]
      simp [spawned, hdraining, hentry]
    · rintro ⟨p, hp, -⟩
      simp at hp
  | resume j r =>
    simp only [entered] at h
    split at h
    next c hc =>
      split_ifs at h with henters
      obtain ⟨rfl, rfl⟩ : j = i ∧ c.address = a := by simpa using h
      have hnot : ¬ LoopAt s c.address j := by
        rintro ⟨p, hp, hin⟩
        rw [hc] at hp
        rw [Option.some.inj hp] at henters
        rw [inLoop_of_entersLoop henters] at hin
        exact absurd hin (by simp)
      refine ⟨⟨_, coroutine_step hc, ?_⟩, hnot, fun b k ⟨p, hp, hin⟩ => ⟨_, coroutine_step hp, ?_⟩⟩
      · simp only [move, if_true]
        exact goesOn_resume hdraining (.inr henters)
      · by_cases hk : k = j
        · subst hk
          rw [hc] at hp
          obtain rfl := Option.some.inj hp
          exact absurd ⟨p, hc, hin⟩ hnot
        · simpa only [move, if_neg hk] using hin
    next => exact absurd h (by simp)
  | _ => exact absurd h (by simp [entered])

theorem draining_step (hdraining : s.draining = false) (hup : StaysUp e) :
    (s.step e).draining = false := by
  cases e with
  | connectOnce address =>
    simp only [step, connectOnce]
    split_ifs <;> exact hdraining
  | resume i r => exact (step_resume_frame s i r).1.trans hdraining
  | delayReconnect address =>
    simp only [step]
    cases s.reconnectState address <;> exact hdraining
  | stop | stopReconnect address => exact absurd hup not_false
  | _ => exact hdraining

/-! ## Whole runs -/

/-- When `connect_once` is called, an address with a loop has its entry; `connect_to_peer`, which
does not look for one, goes over to its loop only for an address that has none; and when the state
is cleared, every address with a loop has one that does not wait at a registered timer. -/
def KeepsLoops (s : Server) : ServerEvent → Prop
  | .connectOnce a => ∀ j, LoopAt s a j → (s.reconnectState a).isSome = true
  | .resume i r => ∀ c, s.coroutines[i]? = some c → c.point.entersLoop r = true →
      ∀ j, ¬ LoopAt s c.address j
  | .clearReconnectState => ∀ a j, LoopAt s a j → ∃ i, GoesOnAt s a i ∧ ¬ WaitsAt s a i
  | _ => True

/-- No loop is entered beside another one. -/
theorem keepsLoops_iff : KeepsLoops s e ↔
    (∀ i a, s.entered e = some (i, a) → ∀ j, ¬ LoopAt s a j) ∧
      (e = .clearReconnectState → ∀ a j, LoopAt s a j → ∃ i, GoesOnAt s a i ∧ ¬ WaitsAt s a i) := by
  cases e with
  | connectOnce a =>
    by_cases hentry : (s.reconnectState a).isSome = true
    · simp [KeepsLoops, entered, hentry]
    · simp [KeepsLoops, entered, hentry]
  | resume i r =>
    cases hc : s.coroutines[i]? with
    | none => simp [KeepsLoops, entered, hc]
    | some c =>
      by_cases henters : c.point.entersLoop r = true
      · simp [KeepsLoops, entered, hc, henters]
      · simp [KeepsLoops, entered, hc, henters]
  | clearReconnectState => simp [KeepsLoops, entered]
  | _ => simp [KeepsLoops, entered]

/-- An address that has a loop before `clear_reconnect_state` has one ever after. -/
def SurvivesClear (events : List ServerEvent) : Prop :=
  ∀ before after, events = before ++ .clearReconnectState :: after →
    ∀ a i, LoopAt (run step {} before) a i → ∀ later, later <+: after →
      ∃ j, GoesOnAt (run step {} (before ++ .clearReconnectState :: later)) a j

/-- No two loops are for the same address. -/
def UniqueLoops (s : Server) : Prop := ∀ a i j, LoopAt s a i → LoopAt s a j → i = j

theorem UniqueLoops.step (h : UniqueLoops s) (hkeeps : KeepsLoops s e) :
    UniqueLoops (s.step e) := by
  intro a i j hi hj
  rcases hi.of_step with hi | hi <;> rcases hj.of_step with hj | hj
  · exact h a i j hi hj
  · exact absurd hi ((keepsLoops_iff.mp hkeeps).1 j a hj i)
  · exact absurd hj ((keepsLoops_iff.mp hkeeps).1 i a hi j)
  · rw [hi] at hj
    exact congrArg Prod.fst (Option.some.inj hj)

theorem exists_goesOnAt_step (h : ∃ i, GoesOnAt s a i) (hdraining : s.draining = false)
    (hup : StaysUp e) (hkeeps : KeepsLoops s e) : ∃ i, GoesOnAt (s.step e) a i := by
  obtain ⟨i, hi⟩ := h
  by_cases hclear : e = .clearReconnectState
  · obtain ⟨j, hgoes⟩ := (keepsLoops_iff.mp hkeeps).2 hclear a i hi.loopAt
    exact ⟨j, hclear ▸ goesOnAt_clear.mpr hgoes⟩
  · exact ⟨i, hi.step hdraining hup hclear⟩

/-- **The loops survive and stay unique exactly if** no call finds the entry of a loop missing, none
goes over to a loop beside another one, and the state is never cleared while the only loop of an
address waits for its timer. -/
theorem reconnect_loops_iff (events : List ServerEvent) (hup : ∀ e ∈ events, StaysUp e) :
    (SurvivesClear events ∧ ∀ before, before <+: events → UniqueLoops (run step {} before)) ↔
      AllSteps step KeepsLoops {} events := by
  have hdraining (before : List ServerEvent) (hbefore : before <+: events) :
      (run step {} before).draining = false := by
    refine run_invariant (I := fun s : Server => s.draining = false) (C := fun _ e => StaysUp e)
      (fun s e hdraining hup =>
        draining_step hdraining hup) rfl (allSteps_of_forall fun _ e _ hsplit => ?_)
    exact hup e (hbefore.subset (by simp [hsplit]))
  constructor
  · rintro ⟨hsurvives, hunique⟩
    refine allSteps_iff_forall.mpr fun before e after hsplit =>
      keepsLoops_iff.mpr ⟨fun i a hentered j hj => ?_, ?_⟩
    · -- the new loop and the old one are both there after the step
      obtain ⟨hnew, hnot, hothers⟩ :=
        entered_spec hentered (hdraining before ⟨e :: after, hsplit.symm⟩)
      have hnext := hunique (before ++ [e]) ⟨after, by simp [hsplit]⟩
      rw [run_append, run_cons, run_nil] at hnext
      exact hnot (hnext a i j hnew.loopAt (hothers a j hj) ▸ hj)
    · rintro rfl a j hj
      obtain ⟨i, hi⟩ := hsurvives before after hsplit a j hj [] (List.nil_prefix)
      rw [run_append, run_cons, run_nil] at hi
      exact ⟨i, goesOnAt_clear.mp hi⟩
  · intro hkeeps
    have hall : AllSteps step (fun s e => StaysUp e ∧ KeepsLoops s e) {} events :=
      hkeeps.imp fun s e he hkeeps => ⟨hup e he, hkeeps⟩
    constructor
    · rintro before after hsplit a j hj later ⟨rest, rfl⟩
      rw [hsplit, allSteps_append] at hall
      obtain ⟨⟨-, hclear⟩, hafter⟩ := hall.2
      obtain ⟨i, hi⟩ := hclear a j hj
      -- from the clear on, one loop of the address always goes on
      have hstart := hdraining (before ++ [.clearReconnectState]) ⟨later ++ rest, by simp [hsplit]⟩
      rw [run_append] at hstart ⊢
      refine (run_invariant (I := fun s => s.draining = false ∧ ∃ i, GoesOnAt s a i)
        (C := fun s e => StaysUp e ∧ KeepsLoops s e) ?_ ⟨hstart, i, goesOnAt_clear.mpr hi⟩
        (allSteps_append.mp hafter).1).2
      rintro s e ⟨hdraining, hgoes⟩ ⟨hup, hkeeps⟩
      exact ⟨draining_step hdraining hup, exists_goesOnAt_step hgoes hdraining hup hkeeps⟩
    · rintro before ⟨after, rfl⟩
      refine run_invariant (fun s e hunique hkeeps =>
        hunique.step hkeeps) ?_ (allSteps_append.mp hkeeps).1
      rintro a i j ⟨p, hp, -⟩
      simp at hp

section Sample

theorem keepsLoops_resume (h : (s.coroutines[i]?).any (·.point.entersLoop r) = false) :
    KeepsLoops s (.resume i r) := by
  intro c hc henters
  simp [hc, henters] at h

theorem loopAt_singleton (hs : s.coroutines = [c]) :
    LoopAt s a i ↔ i = 0 ∧ c.address = a ∧ c.point.inLoop = true := by
  unfold LoopAt
  rw [hs]
  constructor
  · rintro ⟨p, hp, hin⟩
    cases i with
    | zero => obtain rfl := Option.some.inj hp; exact ⟨rfl, rfl, hin⟩
    | succ i => simp at hp
  · rintro ⟨rfl, rfl, hin⟩
    exact ⟨c.point, rfl, hin⟩

/-- The state is cleared while a connection runs. -/
def clearedWhileRunning : List ServerEvent :=
  [.connectOnce "peer:4200", .resume 0 (.started 0), .resume 0 (.resolved true 0),
    .resume 0 (.connected true 7 0), .clearReconnectState, .resume 0 (.ran true 0)]

theorem reconnect_loops_clearedWhileRunning :
    (∀ e ∈ clearedWhileRunning, StaysUp e) ∧ SurvivesClear clearedWhileRunning ∧
      ∀ before, before <+: clearedWhileRunning → UniqueLoops (run step {} before) := by
  have hup : ∀ e ∈ clearedWhileRunning, StaysUp e := by simp [clearedWhileRunning, StaysUp]
  refine ⟨hup, (reconnect_loops_iff clearedWhileRunning hup).mpr
    ⟨?_, keepsLoops_resume (by decide), keepsLoops_resume (by decide),
      keepsLoops_resume (by decide), ?_, keepsLoops_resume (by decide), trivial⟩⟩
  · rintro j ⟨p, hp, -⟩
    simp at hp
  · intro a j hj
    obtain ⟨rfl, rfl, -⟩ := (loopAt_singleton
      (c := ⟨"peer:4200", .running .reconnectLoop 7 0 false⟩) (by decide)).mp hj
    refine ⟨0, ⟨.running .reconnectLoop 7 0 false, by decide, rfl⟩, ?_⟩
    rintro ⟨⟨deadline, hdeadline⟩, -⟩
    exact absurd (hdeadline.symm.trans (by decide :
      _ = some (⟨"peer:4200", .running .reconnectLoop 7 0 false⟩ : Coroutine))) (by simp)

/-- The first attempt fails in the resolve, and the loop waits for two seconds. -/
def retrying : List ServerEvent :=
  [.connectOnce "peer:4200", .resume 0 (.started 0), .resume 0 (.resolved false 0)]

/-- The state is cleared while the loop waits, and the loop is resumed. -/
def clearedWhileWaiting : List ServerEvent := retrying ++ [.clearReconnectState, .resume 0 .woken]

/-- The state is cleared during a resolve, and the address is connected to once more. -/
def clearedWhileResolving : List ServerEvent :=
  [.connectOnce "peer:4200", .resume 0 (.started 0), .clearReconnectState, .connectOnce "peer:4200"]

/-- **The only loop returns in the first run, there are two loops after the second.** -/
theorem reconnect_loops_lost_and_doubled :
    (∀ e ∈ clearedWhileWaiting ++ clearedWhileResolving, StaysUp e) ∧
      (run step {} retrying).coroutines = [⟨"peer:4200", .sleeping .armed 2⟩] ∧
      (run step {} clearedWhileWaiting).coroutines = [⟨"peer:4200", .returned⟩] ∧
      ¬ SurvivesClear clearedWhileWaiting ∧
      (run step {} clearedWhileResolving).coroutines =
        [⟨"peer:4200", .resolving .reconnectLoop⟩, ⟨"peer:4200", .spawned .reconnectLoop⟩] ∧
      ¬ UniqueLoops (run step {} clearedWhileResolving) := by
  have hwaiting : (run step {} retrying).coroutines =
      [⟨"peer:4200", .sleeping .armed 2⟩] := by decide
  have hlost : (run step {} clearedWhileWaiting).coroutines =
      [⟨"peer:4200", .returned⟩] := by decide
  have hdoubled : (run step {} clearedWhileResolving).coroutines =
      [⟨"peer:4200", .resolving .reconnectLoop⟩, ⟨"peer:4200", .spawned .reconnectLoop⟩] := by
    decide
  refine ⟨by simp [clearedWhileWaiting, clearedWhileResolving, retrying, StaysUp], hwaiting, hlost,
    ?_, hdoubled, ?_⟩
  · intro hsurvives
    obtain ⟨j, hj⟩ := hsurvives retrying [.resume 0 .woken] rfl "peer:4200" 0
      ((loopAt_singleton hwaiting).mpr ⟨rfl, rfl, rfl⟩) [.resume 0 .woken] (List.prefix_refl _)
    exact absurd ((loopAt_singleton hlost).mp hj.loopAt).2.2 (by simp [Point.inLoop])
  · intro hunique
    have hsame := hunique "peer:4200" 0 1 ⟨.resolving .reconnectLoop, by rw [hdoubled]; rfl, rfl⟩
      ⟨.spawned .reconnectLoop, by rw [hdoubled]; rfl, rfl⟩
    exact absurd hsame (by decide)

end Sample

end Server

end Net
