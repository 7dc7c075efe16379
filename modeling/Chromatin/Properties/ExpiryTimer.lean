import Chromatin.Peer.ExpiryTimer
import Chromatin.Properties.Deletion
import Chromatin.Properties.SequenceIndex
import Chromatin.Properties.StoreIndexes

/-!
# What the expiry timer covers

An entry of the expiry index is covered if the target of the timer is not behind it; then a loop
exists. The callback of a stored blob sees to that, except when the blob has expired before the
callback: then the entry stays until another blob or the loop brings the target forward.

* `armed_step` — as long as there is a target there is a loop
* `covers_step_iff` — only a late callback can leave an entry without cover
* `expiry_coverage_iff` — coverage in every state exactly if no late callback does, and then in
  every state without an unfinished ingest the timer covers the whole index -/

namespace Wire

theorem saturatingExpiry_pos (timestamp : UInt64) {ttl : UInt32} (h : ttl ≠ 0) :
    0 < (saturatingExpiry timestamp ttl).toNat := by
  have hpos : 0 < ttl.toNat := Nat.pos_of_ne_zero fun h0 => h (UInt32.toNat_inj.mp h0)
  have hlt := ttl.toNat_lt
  unfold saturatingExpiry
  rw [if_neg h]
  split_ifs with hsum
  · decide
  · have hle : ttl.toUInt64 ≤ 0xFFFFFFFFFFFFFFFF := UInt64.le_iff_toNat_le.mpr (by
      rw [UInt32.toNat_toUInt64]
      change ttl.toNat ≤ 18446744073709551615
      omega)
    rw [gt_iff_lt, UInt64.lt_iff_toNat_lt, UInt64.toNat_sub_of_le _ _ hle,
      UInt32.toNat_toUInt64] at hsum
    rw [UInt64.toNat_add, UInt32.toNat_toUInt64]
    change ¬18446744073709551615 - ttl.toNat < timestamp.toNat at hsum
    omega

end Wire

namespace Storage

open Infra Util Wire

variable {P : Primitives} {t : Tables}

theorem getEarliestExpiry_eq_none : t.getEarliestExpiry = none ↔ t.expiryEntries = [] := by
  simp [Tables.getEarliestExpiry]

theorem getEarliestExpiry_eq_some {earliest : Nat} (h : t.getEarliestExpiry = some earliest) :
    (∃ entry ∈ t.expiryEntries, entry.time = earliest) ∧
    ∀ entry ∈ t.expiryEntries, earliest ≤ entry.time := by
  obtain ⟨first, hfirst, rfl⟩ := Option.map_eq_some_iff.mp h
  obtain ⟨rest, hrest⟩ := List.head?_eq_some_iff.mp hfirst
  have hsorted := pairwise_expiryEntries t
  rw [hrest, List.pairwise_cons] at hsorted
  refine ⟨⟨first, List.mem_of_head? hfirst, rfl⟩, fun entry hentry => ?_⟩
  rw [hrest] at hentry
  rcases List.mem_cons.mp hentry with rfl | hmem
  · exact Nat.le_refl _
  · exact hsorted.1 entry hmem

theorem mem_expiryEntries_runExpiryScan {now : UInt64} {entry : ExpiryEntry}
    (h : entry ∈ (runExpiryScan P t now).1.expiryEntries) : entry ∈ t.expiryEntries := by
  rw [mem_expiryEntries, expiry_runExpiryScan] at h
  split_ifs at h
  exact mem_expiryEntries.mpr h

/-- The times in the index, none of which is the 0 of a permanent blob. -/
def PositiveTimes (t : Tables) : Prop := ∀ entry ∈ t.expiryEntries, 0 < entry.time

end Storage

namespace Engine

open Infra Util Wire Storage Peer.ExpiryTimer

variable {P : Primitives} {node : Node} {event : Event} {i : Nat} {task : Task}

/-- A call that has stored its blob is over. -/
theorem tasks_step_of_hasStored (event : Event) (hi : node.tasks[i]? = some task)
    (hstored : hasStored task = true) : (node.step P event).tasks[i]? = some task := by
  have hlt := (List.getElem?_eq_some_iff.mp hi).1
  cases event with
  | call entry ns blob => exact (List.getElem?_append_left hlt).trans hi
  | expiryScan now => exact hi
  | resume j env =>
    by_cases hij : j = i
    · subst hij
      rw [getElem?_tasks_resume env hi]
      obtain ⟨entry, ns, blob, pc⟩ := task
      cases pc with
      | done result => cases entry <;> rfl
      | _ => simp [hasStored] at hstored
    · rw [Node.step]
      cases hj : node.tasks[j]? with
      | none => exact hi
      | some other => exact (List.getElem?_set_ne hij).trans hi

/-- A new entry of the index is that of a blob that a call has just stored. -/
theorem mem_expiryEntries_step (hsound : node.Sound) {entry : ExpiryEntry}
    (h : entry ∈ (node.step P event).tables.expiryEntries) :
    entry ∈ node.tables.expiryEntries ∨
    ∃ (i : Nat) (before task : Task), node.tasks[i]? = some before ∧ hasStored before = false ∧
      (node.step P event).tasks[i]? = some task ∧ hasStored task = true ∧ task.blob.ttl ≠ 0 ∧
      (saturatingExpiry task.blob.timestamp task.blob.ttl).toNat = entry.time := by
  rcases tables_step_cases (P := P) hsound event with
    hsame | ⟨now, -, hscan⟩ | ⟨i, env, task, signer, result, -, hi, hafter, hpc, -, hcommit⟩
  · exact .inl (hsame ▸ h)
  · rw [hscan] at h
    exact .inl (mem_expiryEntries_runExpiryScan h)
  · rcases getExpiry_committed hcommit (mem_expiryEntries.mp h)
      with hold | ⟨-, httl, htime, ack, rfl, hstatus⟩
    · exact .inl (mem_expiryEntries.mpr hold)
    · exact .inr ⟨i, task, _,
        hi, by simp [hasStored, hpc], hafter, by simp [hasStored, hstatus], httl, htime⟩

theorem PositiveTimes.step (hsound : node.Sound) (h : PositiveTimes node.tables) (event : Event) :
    PositiveTimes (node.step P event).tables := by
  intro entry hentry
  rcases mem_expiryEntries_step hsound hentry with hold | ⟨i, _, task, -, -, -, -, httl, htime⟩
  · exact h entry hold
  · exact htime ▸ saturatingExpiry_pos _ httl

theorem positiveTimes_run (P : Primitives) (events : List Event) :
    PositiveTimes (run (Node.step P) {} events).tables := by
  induction events using List.reverseRecOn with
  | nil =>
    intro entry hentry
    rw [mem_expiryEntries] at hentry
    simp [get₂] at hentry
  | append_singleton events event ih =>
    rw [run_append]
    exact PositiveTimes.step (sound_run events) ih event

end Engine

namespace Peer.ExpiryTimer

open Infra Util Wire Storage Engine

variable {P : Primitives} {s s' : ExpiryTimer} {i : Nat} {time : Nat}

/-- A loop is running or spawned. -/
def Live (s : ExpiryTimer) : Prop := ∃ p ∈ s.loops, p ≠ .ended

/-- The calls between their store and the callback. -/
def awaiting (s : ExpiryTimer) : List Nat :=
  (List.range s.node.tasks.length).filter fun i => s.node.tasks[i]?.any hasStored && i ∉ s.completed

/-- The callback of a call is to come, for a blob that expires at the time. -/
def Awaits (s : ExpiryTimer) (i time : Nat) : Prop :=
  i ∉ s.completed ∧ ∃ task, s.node.tasks[i]? = some task ∧ hasStored task = true ∧
    (saturatingExpiry task.blob.timestamp task.blob.ttl).toNat = time

/-- The loop scans by that time. -/
def Covered (s : ExpiryTimer) (time : Nat) : Prop :=
  s.nextExpiryTarget ≠ 0 ∧ s.nextExpiryTarget ≤ time

/-- Every entry is covered, or its callback is to come. -/
def Covers (s : ExpiryTimer) : Prop :=
  s.stopping = false → ∀ entry ∈ s.node.tables.expiryEntries, s.Covered entry.time ∨
    ∃ i, s.Awaits i entry.time

/-- A callback that comes when the blob has expired leaves no entry behind: it is covered, or there
is another callback to come. -/
def Harmless (s : ExpiryTimer) : TimerEvent → Prop
  | .ingested i now => s.stopping = false →
      ∀ entry ∈ s.node.tables.expiryEntries, s.Awaits i entry.time →
      entry.time ≤ now.toNat → s.Covered entry.time ∨ ∃ j, j ≠ i ∧ s.Awaits j entry.time
  | _ => True

theorem not_awaits_of_awaiting (h : s.awaiting = []) : ¬s.Awaits i time := by
  rintro ⟨hcompleted, task, htask, hstored, -⟩
  have hlt := (List.getElem?_eq_some_iff.mp htask).1
  have hmem : i ∈ s.awaiting :=
    List.mem_filter.mpr ⟨List.mem_range.mpr hlt, by simp [htask, hstored, hcompleted]⟩
  rw [h] at hmem
  exact absurd hmem List.not_mem_nil

/-! ## Parts that are left alone -/

@[simp] theorem node_cancel : s.cancel.node = s.node := by unfold cancel; split <;> rfl

@[simp] theorem nextExpiryTarget_cancel : s.cancel.nextExpiryTarget = s.nextExpiryTarget := by
  unfold cancel; split <;> rfl

@[simp] theorem completed_cancel :
    s.cancel.completed = s.completed := by unfold cancel; split <;> rfl

@[simp] theorem stopping_cancel : s.cancel.stopping = s.stopping := by unfold cancel; split <;> rfl

@[simp] theorem expiryLoopRunning_cancel : s.cancel.expiryLoopRunning = s.expiryLoopRunning := by
  unfold cancel; split <;> rfl

/-- What the timer does by itself: the engine, the target and the callers are as before. -/
structure SameOutside (s s' : ExpiryTimer) : Prop where
  node : s'.node = s.node
  nextExpiryTarget : s'.nextExpiryTarget = s.nextExpiryTarget
  completed : s'.completed = s.completed
  stopping : s'.stopping = s.stopping

theorem sameOutside_loopHead : SameOutside s (s.loopHead i) := by
  unfold loopHead
  split_ifs <;> exact ⟨rfl, rfl, rfl, rfl⟩

theorem SameOutside.covers (h : SameOutside s s') (hcovers : s.Covers) : s'.Covers := by
  obtain ⟨hnode, htarget, hcompleted, hstopping⟩ := h
  unfold Covers Covered Awaits
  rw [hnode, htarget, hcompleted, hstopping]
  exact hcovers

/-! ## Loops -/

theorem live_of_getElem? {p : LoopPoint} (h : s.loops[i]? = some p) (hp : p ≠ .ended) : s.Live :=
  ⟨p, List.mem_of_getElem? h, hp⟩

theorem Live.cancel (h : s.Live) : s.cancel.Live := by
  obtain ⟨p, hmem, hp⟩ := h
  obtain ⟨j, hj⟩ := List.mem_iff_getElem?.mp hmem
  unfold ExpiryTimer.cancel
  split
  · exact ⟨p, hmem, hp⟩
  · rename_i i _
    by_cases hij : i = j
    · subst hij
      refine live_of_getElem? (i := i) (p := if p = .waiting then .woken true else p) ?_ ?_
      · simp [hj]
      · split_ifs
        · simp
        · exact hp
    · exact live_of_getElem? (i := j) (by simp [hij, hj]) hp

/-- **As long as there is a target there is a loop.** The flag is only set by a loop that goes on.
-/
structure Armed (s : ExpiryTimer) : Prop where
  flagged : s.expiryLoopRunning = true → s.Live
  live : s.stopping = false → s.nextExpiryTarget ≠ 0 → s.Live

theorem Armed.cancel (h : s.Armed) : s.cancel.Armed where
  flagged hrunning := (h.flagged (by simpa using hrunning)).cancel
  live hstopping htarget := (h.live (by simpa using hstopping) (by simpa using htarget)).cancel

theorem Armed.rearmExpiryTimer (h : s.Armed) (expiryTime : Nat) :
    (s.rearmExpiryTimer expiryTime).Armed := by
  unfold ExpiryTimer.rearmExpiryTimer
  dsimp only
  split_ifs with hearlier hrunning
  · have hlive : s.Live := h.flagged hrunning
    exact Armed.cancel ⟨fun _ => hlive, fun _ _ => hlive⟩
  · have hlive : Live { s with nextExpiryTarget := expiryTime, loops := s.loops ++ [.spawned] } :=
      ⟨.spawned, by simp, by simp⟩
    exact ⟨fun _ => hlive, fun _ _ => hlive⟩
  · exact h

theorem armed_endLoop (i : Nat) (h : s.stopping = true ∨ s.nextExpiryTarget = 0) :
    (s.endLoop i).Armed := by
  refine ⟨fun hrunning => absurd hrunning (by simp [endLoop]), fun hstopping htarget => ?_⟩
  rcases h with h | h
  · exact absurd (h.symm.trans hstopping) (by simp)
  · exact absurd h htarget

theorem armed_loopHead (hi : i < s.loops.length) : (s.loopHead i).Armed := by
  unfold loopHead
  split_ifs with hend
  · exact armed_endLoop i hend
  · have hlive : Live { s with expiryTimer := some i, loops := s.loops.set i .waiting } :=
      live_of_getElem? (i := i) (List.getElem?_set_self hi) (by simp)
    exact ⟨fun _ => hlive, fun _ _ => hlive⟩

theorem armed_wake (hi : i < s.loops.length) (cancelled : Bool) (now : UInt64) :
    (s.wake P i cancelled now).Armed := by
  unfold wake
  dsimp only
  split_ifs with hstopping
  · exact armed_endLoop i (.inl hstopping)
  · exact armed_loopHead hi
  · split
    · exact armed_loopHead hi
    · exact armed_endLoop i (.inr rfl)

theorem Armed.onBlobIngested (h : s.Armed) (now expiryTime : UInt64) :
    (s.onBlobIngested now expiryTime).Armed := by
  unfold ExpiryTimer.onBlobIngested
  split_ifs
  · exact h
  · exact h.rearmExpiryTimer _
  · exact h

theorem armed_step (h : s.Armed) (e : TimerEvent) : (s.step P e).Armed := by
  cases e with
  | call entry ns blob => exact ⟨h.flagged, h.live⟩
  | turn i env => exact ⟨h.flagged, h.live⟩
  | ingested i now =>
    rw [step]
    split
    · exact h
    · split_ifs
      · have hgone : Armed { s with completed := s.completed ++ [i] } := ⟨h.flagged, h.live⟩
        exact hgone.onBlobIngested _ _
      · exact h
  | started i =>
    rw [step]
    split_ifs with hspawned
    · exact armed_loopHead (s := { s with expiryLoopRunning := true })
        (List.getElem?_eq_some_iff.mp hspawned).1
    · exact h
  | expired i =>
    rw [step]
    split_ifs with hwaiting
    · have hlive : Live { s with loops := s.loops.set i (.woken false) } :=
        live_of_getElem? (i := i)
          (List.getElem?_set_self (List.getElem?_eq_some_iff.mp hwaiting).1) (by simp)
      exact ⟨fun _ => hlive, fun _ _ => hlive⟩
    · exact h
  | resumed i now =>
    rw [step]
    split
    · rename_i cancelled hwoken
      exact armed_wake (List.getElem?_eq_some_iff.mp hwoken).1 cancelled now
    · exact h
  | stop => exact Armed.cancel ⟨h.flagged, fun hstopping => absurd hstopping (by simp)⟩

/-! ## Callers -/

/-- What the engine and its callers leave: calls are sound, times are not 0, and whoever has gone on
had a stored blob. -/
structure Grounded (s : ExpiryTimer) : Prop where
  sound : s.node.Sound
  positive : PositiveTimes s.node.tables
  heard : ∀ i ∈ s.completed, ∃ task, s.node.tasks[i]? = some task ∧ hasStored task = true

theorem Grounded.engine (h : s.Grounded) (event : Event) :
    Grounded { s with node := s.node.step P event } where
  sound := h.sound.step event
  positive := PositiveTimes.step h.sound h.positive event
  heard i hi := by
    obtain ⟨task, htask, hstored⟩ := h.heard i hi
    exact ⟨task, tasks_step_of_hasStored event htask hstored, hstored⟩

theorem Covers.engine (h : s.Covers) (hgrounded : s.Grounded) (event : Event) :
    Covers { s with node := s.node.step P event } := by
  intro hstopping entry hentry
  rcases mem_expiryEntries_step hgrounded.sound hentry with
    hold | ⟨i, before, task, hbefore, hopen, htask, hstored, -, htime⟩
  · refine (h hstopping entry hold).imp id ?_
    rintro ⟨i, hcompleted, task, htask, hstored, htime⟩
    exact ⟨i, hcompleted, task, tasks_step_of_hasStored event htask hstored, hstored, htime⟩
  · refine .inr ⟨i, fun hcompleted => ?_, task, htask, hstored, htime⟩
    obtain ⟨heard, hheard, hover⟩ := hgrounded.heard i hcompleted
    rw [hbefore] at hheard
    rw [← Option.some.inj hheard, hopen] at hover
    exact absurd hover (by simp)

/-! ## Callbacks -/

@[simp] theorem node_rearmExpiryTimer (expiryTime : Nat) :
    (s.rearmExpiryTimer expiryTime).node = s.node := by
  unfold rearmExpiryTimer; dsimp only; split_ifs <;> simp

@[simp] theorem completed_rearmExpiryTimer (expiryTime : Nat) :
    (s.rearmExpiryTimer expiryTime).completed = s.completed := by
  unfold rearmExpiryTimer; dsimp only; split_ifs <;> simp

@[simp] theorem stopping_rearmExpiryTimer (expiryTime : Nat) :
    (s.rearmExpiryTimer expiryTime).stopping = s.stopping := by
  unfold rearmExpiryTimer; dsimp only; split_ifs <;> simp

theorem nextExpiryTarget_rearmExpiryTimer (expiryTime : Nat) :
    (s.rearmExpiryTimer expiryTime).nextExpiryTarget =
    if s.nextExpiryTarget = 0 ∨ expiryTime < s.nextExpiryTarget then expiryTime
    else s.nextExpiryTarget := by
  unfold rearmExpiryTimer; dsimp only; split_ifs <;> simp

/-- The target is brought forward to a time, if it is not already before it. -/
theorem covered_rearmExpiryTimer {expiryTime : Nat} (hpos : 0 < expiryTime) :
    (s.rearmExpiryTimer expiryTime).Covered time ↔ s.Covered time ∨ expiryTime ≤ time := by
  unfold Covered
  rw [nextExpiryTarget_rearmExpiryTimer]
  split_ifs <;> omega

theorem awaits_rearmExpiryTimer {expiryTime : Nat} :
    (s.rearmExpiryTimer expiryTime).Awaits i time ↔ s.Awaits i time := by
  unfold Awaits
  simp

/-- A caller that has gone on is no longer waited for. -/
theorem awaits_completed {j : Nat} : Awaits { s with completed := s.completed ++ [i] } j time ↔
    j ≠ i ∧ s.Awaits j time := by
  unfold Awaits
  simp only [List.mem_append, List.mem_singleton, not_or]
  tauto

/-- A late callback only takes the caller away. -/
theorem covers_late_iff {now : UInt64} {task : Task} (hcovers : s.Covers)
    (htask : s.node.tasks[i]? = some task)
    (hlate : (saturatingExpiry task.blob.timestamp task.blob.ttl).toNat ≤ now.toNat) :
    Covers { s with completed := s.completed ++ [i] } ↔ s.Harmless (.ingested i now) := by
  constructor
  · intro hafter hstopping entry hentry _ _
    refine (hafter hstopping entry hentry).imp id ?_
    rintro ⟨j, hj⟩
    exact ⟨j, awaits_completed.mp hj⟩
  · intro hharmless hstopping entry hentry
    rcases hcovers hstopping entry hentry with hcovered | ⟨j, hj⟩
    · exact .inl hcovered
    · by_cases hij : j = i
      · subst hij
        have hdue : entry.time ≤ now.toNat := by
          obtain ⟨-, task', htask', -, htime⟩ := hj
          rw [htask] at htask'
          rw [← htime, ← Option.some.inj htask']
          exact hlate
        refine (hharmless hstopping entry hentry hj hdue).imp id ?_
        rintro ⟨k, hk⟩
        exact ⟨k, awaits_completed.mpr hk⟩
      · exact .inr ⟨j, awaits_completed.mpr ⟨hij, hj⟩⟩

/-- A callback in time covers the entries of its blob. -/
theorem Covers.rearmExpiryTimer {task : Task} (hcovers : s.Covers)
    (htask : s.node.tasks[i]? = some task)
    (hpos : 0 < (saturatingExpiry task.blob.timestamp task.blob.ttl).toNat) :
    Covers (ExpiryTimer.rearmExpiryTimer { s with completed := s.completed ++ [i] }
      (saturatingExpiry task.blob.timestamp task.blob.ttl).toNat) := by
  intro hstopping entry hentry
  simp only [stopping_rearmExpiryTimer, node_rearmExpiryTimer] at hstopping hentry
  rw [covered_rearmExpiryTimer hpos]
  simp only [awaits_rearmExpiryTimer]
  rcases hcovers hstopping entry hentry with hcovered | ⟨j, hj⟩
  · exact .inl (.inl hcovered)
  · by_cases hij : j = i
    · subst hij
      obtain ⟨-, task', htask', -, htime⟩ := hj
      rw [htask] at htask'
      rw [← Option.some.inj htask'] at htime
      exact .inl (.inr htime.le)
    · exact .inr ⟨j, awaits_completed.mpr ⟨hij, hj⟩⟩

theorem covers_ingested_iff (hcovers : s.Covers) (now : UInt64) :
    (s.step P (.ingested i now)).Covers ↔ s.Harmless (.ingested i now) := by
  have hidle (hnone : ∀ time, ¬s.Awaits i time) : s.Covers ↔ s.Harmless (.ingested i now) :=
    ⟨fun _ _ _ _ hawaits => absurd hawaits (hnone _), fun _ => hcovers⟩
  rw [step]
  cases htask : s.node.tasks[i]? with
  | none => exact hidle fun _ ⟨_, _, hsome, _⟩ => by simp [htask] at hsome
  | some task =>
    dsimp only
    split_ifs with hawaits
    · unfold onBlobIngested
      split_ifs with hlate hpos
      · exact covers_late_iff hcovers htask (UInt64.le_iff_toNat_le.mp hlate.2)
      · have htime : 0 < (saturatingExpiry task.blob.timestamp task.blob.ttl).toNat :=
          UInt64.lt_iff_toNat_lt.mp hpos
        refine ⟨fun _ _ entry hentry hthis hdue => ?_, fun _ =>
          hcovers.rearmExpiryTimer htask htime⟩
        -- the blob has not expired
        obtain ⟨-, task', htask', -, heq⟩ := hthis
        rw [htask] at htask'
        rw [← Option.some.inj htask'] at heq
        refine absurd ⟨hpos, UInt64.le_iff_toNat_le.mpr ?_⟩ hlate
        rw [heq]
        exact hdue
      · -- the time 0 of a permanent blob is before every other
        have hzero : (saturatingExpiry task.blob.timestamp task.blob.ttl).toNat = 0 := by
          by_contra hne
          exact hpos (UInt64.lt_iff_toNat_lt.mpr (Nat.pos_of_ne_zero hne))
        have hnone : (saturatingExpiry task.blob.timestamp task.blob.ttl).toNat ≤ now.toNat := by
          rw [hzero]
          exact Nat.zero_le _
        exact covers_late_iff hcovers htask hnone
    · refine hidle fun _ ⟨hcompleted, task', hsome, hstored, _⟩ => hawaits ⟨?_, hcompleted⟩
      rw [htask] at hsome
      rwa [Option.some.inj hsome]

/-! ## Steps -/

theorem Grounded.congr (h : s.Grounded) (hnode : s'.node = s.node)
    (hcompleted : s'.completed = s.completed) :
    s'.Grounded := by
  obtain ⟨hsound, hpositive, hheard⟩ := h
  refine ⟨?_, ?_, ?_⟩
  · rwa [hnode]
  · rwa [hnode]
  · rwa [hnode, hcompleted]

/-- A scan leaves a target before everything that is left. -/
theorem wake_spec (hgrounded : s.Grounded) (hcovers : s.Covers) (i : Nat) (cancelled : Bool)
    (now : UInt64) :
    (s.wake P i cancelled now).Grounded ∧ (s.wake P i cancelled now).Covers := by
  have hscanned : Grounded { s with
      expiryTimer := none, node :=
      { s.node with tables := (runExpiryScan P s.node.tables now).1 } } :=
    ⟨hgrounded.sound, fun entry hentry =>
      hgrounded.positive entry (mem_expiryEntries_runExpiryScan hentry), hgrounded.heard⟩
  unfold wake
  dsimp only
  split_ifs with hstopping
  · exact ⟨hgrounded.congr rfl rfl, fun hopen => absurd (hstopping.symm.trans hopen) (by simp)⟩
  · have hsame := sameOutside_loopHead (s := { s with expiryTimer := none }) (i := i)
    exact ⟨hgrounded.congr hsame.node hsame.completed, hsame.covers hcovers⟩
  · split
    · rename_i next hnext
      obtain ⟨⟨first, hfirst, rfl⟩, hleast⟩ := getEarliestExpiry_eq_some hnext
      have hsame := sameOutside_loopHead (i := i) (s := { s with
        expiryTimer := none
        node := { s.node with tables := (runExpiryScan P s.node.tables now).1 }
        nextExpiryTarget := first.time })
      refine ⟨hscanned.congr hsame.node hsame.completed, hsame.covers fun _ entry hentry =>
        .inl ⟨?_, hleast entry hentry⟩⟩
      exact (hscanned.positive first hfirst).ne'
    · rename_i hnone
      refine ⟨hscanned.congr rfl rfl, fun _ entry hentry => ?_⟩
      change entry ∈ (runExpiryScan P s.node.tables now).1.expiryEntries at hentry
      rw [getEarliestExpiry_eq_none.mp hnone] at hentry
      exact absurd hentry List.not_mem_nil

theorem grounded_step (hgrounded : s.Grounded) (hcovers : s.Covers) (e : TimerEvent) :
    (s.step P e).Grounded := by
  cases e with
  | call entry ns blob => exact hgrounded.engine _
  | turn i env => exact hgrounded.engine _
  | ingested i now =>
    rw [step]
    split
    · exact hgrounded
    · rename_i task htask
      split_ifs with hawaits
      · have hheard : Grounded { s with completed := s.completed ++ [i] } := by
          refine ⟨hgrounded.sound, hgrounded.positive, fun j hj => ?_⟩
          rcases List.mem_append.mp hj with hj | hj
          · exact hgrounded.heard j hj
          · rw [List.mem_singleton.mp hj]
            exact ⟨task, htask, hawaits.1⟩
        unfold onBlobIngested
        split_ifs
        · exact hheard
        · exact hheard.congr (by simp) (by simp)
        · exact hheard
      · exact hgrounded
  | started i =>
    rw [step]
    split_ifs
    · have hsame := sameOutside_loopHead (s := { s with expiryLoopRunning := true }) (i := i)
      exact hgrounded.congr hsame.node hsame.completed
    · exact hgrounded
  | expired i =>
    rw [step]
    split_ifs <;> exact hgrounded.congr rfl rfl
  | resumed i now =>
    rw [step]
    split
    · exact (wake_spec hgrounded hcovers i _ now).1
    · exact hgrounded
  | stop => exact hgrounded.congr (by simp [step]) (by simp [step])

/-- **Only a late callback can leave an entry without cover.** -/
theorem covers_step_iff (hgrounded : s.Grounded) (hcovers : s.Covers) (e : TimerEvent) :
    (s.step P e).Covers ↔ s.Harmless e := by
  cases e with
  | call entry ns blob => exact iff_of_true (hcovers.engine hgrounded _) trivial
  | turn i env => exact iff_of_true (hcovers.engine hgrounded _) trivial
  | ingested i now => exact covers_ingested_iff hcovers now
  | started i =>
    refine iff_of_true ?_ trivial
    rw [step]
    split_ifs
    · exact (sameOutside_loopHead (s := { s with expiryLoopRunning := true })).covers hcovers
    · exact hcovers
  | expired i =>
    refine iff_of_true ?_ trivial
    rw [step]
    split_ifs <;> exact hcovers
  | resumed i now =>
    refine iff_of_true ?_ trivial
    rw [step]
    split
    · exact (wake_spec hgrounded hcovers i _ now).2
    · exact hcovers
  | stop => exact iff_of_true (fun hopen => absurd hopen (by simp [step])) trivial

/-! ## Runs -/

structure Running (s : ExpiryTimer) : Prop where
  grounded : s.Grounded
  armed : s.Armed
  covers : s.Covers

theorem Running.step (h : s.Running) {e : TimerEvent} (hcovers : (s.step P e).Covers) :
    (s.step P e).Running :=
  ⟨grounded_step h.grounded h.covers e, armed_step h.armed e, hcovers⟩

theorem running_start {t : Tables} (hpositive : PositiveTimes t) : (start t).Running := by
  have hgrounded : Grounded { node := { tables := t } } :=
    ⟨fun task htask => absurd htask List.not_mem_nil, hpositive, fun i hi =>
      absurd hi List.not_mem_nil⟩
  have harmed : Armed { node := { tables := t } } :=
    ⟨fun h => absurd h (by simp), fun _ h => absurd rfl h⟩
  unfold start
  cases hearliest : t.getEarliestExpiry with
  | none =>
    refine ⟨hgrounded, harmed, fun _ entry hentry => ?_⟩
    change entry ∈ t.expiryEntries at hentry
    rw [getEarliestExpiry_eq_none.mp hearliest] at hentry
    exact absurd hentry List.not_mem_nil
  | some earliest =>
    obtain ⟨⟨first, hfirst, rfl⟩, hleast⟩ := getEarliestExpiry_eq_some hearliest
    refine ⟨hgrounded.congr (by simp) (by simp), harmed.rearmExpiryTimer _,
      fun _ entry hentry => .inl ?_⟩
    rw [node_rearmExpiryTimer] at hentry
    exact (covered_rearmExpiryTimer (hpositive first hfirst)).mpr (.inr (hleast entry hentry))

/-- In every state of a run of the node, every entry of the expiry index is covered by the timer or
its callback is to come, exactly if no callback that comes after the blob has expired leaves an
entry behind. If none does, then in every state without an ingest between its store and its callback
a loop is running or spawned, and its target is not 0 and not behind the earliest entry. -/
theorem expiry_coverage_iff (P : Primitives) (earlier : List Event) (events : List TimerEvent) :
    let first := start (run (Node.step P) {} earlier).tables
    (AllSteps (step P) (fun s e => (s.step P e).Covers) first events ↔
      AllSteps (step P) Harmless first events) ∧
    (AllSteps (step P) Harmless first events →
      let s := run (step P) first events
      s.stopping = false → s.awaiting = [] →
      ∀ earliest, s.node.tables.getEarliestExpiry = some earliest →
        s.Live ∧ s.nextExpiryTarget ≠ 0 ∧ s.nextExpiryTarget ≤ earliest) := by
  intro first
  have hfirst : first.Running := running_start (positiveTimes_run P earlier)
  refine ⟨allSteps_congr (I := Running) (fun s e h => covers_step_iff h.grounded h.covers e)
    (fun s e h hcovers => h.step hcovers) hfirst, fun hharmless => ?_⟩
  intro s hstopping hquiet earliest hearliest
  have h : s.Running := run_invariant
    (fun s e h hharmless => h.step ((covers_step_iff h.grounded h.covers e).mpr hharmless))
      hfirst hharmless
  obtain ⟨⟨entry, hentry, rfl⟩, -⟩ := getEarliestExpiry_eq_some hearliest
  rcases h.covers hstopping entry hentry with ⟨hne, hle⟩ | ⟨i, hawaits⟩
  · exact ⟨h.armed.live hstopping hne, hne, hle⟩
  · exact absurd hawaits (not_awaits_of_awaiting hquiet)

section Sample

open Wire.Sample

/-- The owner of a namespace has published its key before. -/
def publishing : List Event := ownerEvents [pubk 1 (owned 1) 2999999]

/-- A blob that expires at 3000010 is stored at 3000009, and its caller goes on at another time. -/
def lastSecond (now : UInt64) : List TimerEvent :=
  .call .ingest (owned 1) (shortLived 3000000) :: List.replicate callTurns
    (.turn 0 { sampleEnv with now := 3000009 }) ++
    [.ingested 0 now]

theorem expiry_coverage_inTime :
    let s :=
    run (step primitives) (start (run (Node.step primitives) {} publishing).tables)
      (lastSecond 3000009)
    s.node.tables.getEarliestExpiry = some 3000010 ∧ s.Live ∧ s.nextExpiryTarget ≠ 0 ∧
        s.nextExpiryTarget ≤ 3000010 := by
  have hearliest : (run (step primitives) (start (run (Node.step primitives) {} publishing).tables)
      (lastSecond 3000009)).node.tables.getEarliestExpiry = some 3000010 := by decide +kernel
  refine ⟨hearliest, (expiry_coverage_iff primitives publishing (lastSecond 3000009)).2 ?_
    (by decide +kernel) (by decide +kernel) _ hearliest⟩
  have hlater : ∀ entry ∈
    (run (step primitives) (start (run (Node.step primitives) {} publishing).tables)
      ((lastSecond 3000009).take 6)).node.tables.expiryEntries, ¬entry.time ≤ 3000009 :=
      by decide +kernel
  exact ⟨trivial, trivial, trivial, trivial, trivial, trivial,
    fun _ entry hentry _ hdue => absurd hdue (hlater entry hentry), trivial⟩

/-- The caller goes on a second later: the entry is there, and nobody is waiting for its time. -/
theorem expiry_coverage_missed :
    let s :=
    run (step primitives) (start (run (Node.step primitives) {} publishing).tables)
      (lastSecond 3000010)
    s.stopping = false ∧ s.awaiting = [] ∧ s.node.tables.getEarliestExpiry = some 3000010 ∧
      s.loops = [] ∧ s.nextExpiryTarget = 0 := by
  decide +kernel

end Sample

end Peer.ExpiryTimer
