import Mathlib.Data.List.Induction
import Mathlib.Tactic.Common

/-!
# Runs of a deterministic step function

A run is a list of events. `run` is the state it ends in, `AllSteps` says that every step of the
run meets a condition on the state it starts from and its event, and `Happened` that some step
does. Every state of a run is the end of one of its prefixes, so a property of the last state of
every run is a property of every state.
-/

namespace Infra

variable {σ ε : Type*} (step : σ → ε → σ)

/-- The state a run ends in. -/
def run (s : σ) (events : List ε) : σ := events.foldl step s

/-- Every step of the run from `s` meets the condition. -/
def AllSteps (C : σ → ε → Prop) : σ → List ε → Prop
  | _, [] => True
  | s, e :: rest => C s e ∧ AllSteps C (step s e) rest

/-- Some step of the run from `s` meets the condition. -/
def Happened (C : σ → ε → Prop) (s : σ) (events : List ε) : Prop :=
  ∃ before e after, events = before ++ e :: after ∧ C (run step s before) e

variable {step} {C D : σ → ε → Prop} {s : σ} {events : List ε} {e : ε} {I : σ → Prop}

instance [∀ s e, Decidable (C s e)] :
    ∀ (s : σ) (events : List ε), Decidable (AllSteps step C s events)
  | _, [] => .isTrue trivial
  | s, e :: rest =>
    have : Decidable (AllSteps step C (step s e) rest) := instDecidableAllSteps (step s e) rest
    inferInstanceAs (Decidable (C s e ∧ AllSteps step C (step s e) rest))

@[simp] theorem run_nil : run step s [] = s := rfl

@[simp] theorem run_cons : run step s (e :: events) = run step (step s e) events := rfl

theorem run_append (s : σ) (before after : List ε) :
    run step s (before ++ after) = run step (run step s before) after :=
  List.foldl_append

theorem allSteps_append : ∀ {s : σ} {before after : List ε},
    AllSteps step C s (before ++ after) ↔
      AllSteps step C s before ∧ AllSteps step C (run step s before) after
  | _, [], _ => by simp [AllSteps]
  | s, e :: before, after => by
    rw [List.cons_append, AllSteps, AllSteps, allSteps_append, run_cons, and_assoc]

/-- A condition on the steps of a run is one on its prefixes. -/
theorem allSteps_of_forall (h : ∀ before e after, events = before ++ e :: after →
    C (run step s before) e) : AllSteps step C s events := by
  induction events generalizing s with
  | nil => trivial
  | cons e rest ih =>
    refine ⟨h [] e rest rfl, ih fun before e' after hrest => ?_⟩
    exact h (e :: before) e' after (by rw [hrest, List.cons_append])

theorem allSteps_iff_forall : AllSteps step C s events ↔
    ∀ before e after, events = before ++ e :: after → C (run step s before) e := by
  refine ⟨?_, allSteps_of_forall⟩
  rintro h before e after rfl
  exact (allSteps_append.mp h).2.1

/-- A condition may be weakened for the events that occur. -/
theorem AllSteps.imp : ∀ {s : σ} {events : List ε}, AllSteps step C s events →
    (∀ s, ∀ e ∈ events, C s e → D s e) → AllSteps step D s events
  | _, [], _, _ => trivial
  | s, e :: _, h, himp =>
    ⟨himp s e List.mem_cons_self h.1,
      h.2.imp fun s e' he' => himp s e' (List.mem_cons_of_mem _ he')⟩

/-- **Invariant rule.** What holds first and is kept by every step that meets the condition holds
at the end of every run all of whose steps do. -/
theorem run_invariant (hstep : ∀ s e, I s → C s e → I (step s e)) :
    ∀ {s : σ} {events : List ε}, I s → AllSteps step C s events → I (run step s events)
  | _, [], h, _ => h
  | s, e :: events, h, hall => by
    rw [run_cons]
    exact run_invariant hstep (hstep s e h hall.1) hall.2

/-- It holds after each of the steps. -/
theorem AllSteps.after (hstep : ∀ s e, I s → C s e → I (step s e)) :
    ∀ {s : σ} {events : List ε}, I s → AllSteps step C s events →
      AllSteps step (fun s e => I (step s e)) s events
  | _, [], _, _ => trivial
  | s, e :: _, h, hall => ⟨hstep s e h hall.1, hall.2.after hstep (hstep s e h hall.1)⟩

/-- Two conditions that agree wherever an invariant holds are the same condition on runs, if the
first one keeps the invariant. -/
theorem allSteps_congr (hiff : ∀ s e, I s → (C s e ↔ D s e))
    (hkeep : ∀ s e, I s → C s e → I (step s e)) :
    ∀ {s : σ} {events : List ε}, I s → (AllSteps step C s events ↔ AllSteps step D s events)
  | _, [], _ => Iff.rfl
  | s, e :: events, h => by
    constructor
    · rintro ⟨hC, hrest⟩
      exact ⟨(hiff s e h).mp hC, (allSteps_congr hiff hkeep (hkeep s e h hC)).mp hrest⟩
    · rintro ⟨hD, hrest⟩
      have hC := (hiff s e h).mpr hD
      exact ⟨hC, (allSteps_congr hiff hkeep (hkeep s e h hC)).mpr hrest⟩

theorem not_happened_nil : ¬ Happened step C s [] := by
  rintro ⟨before, e, rest, heq, -⟩
  simp at heq

/-- What happened in a run happened at its first step or later. -/
theorem happened_cons : Happened step C s (e :: events) ↔
    C s e ∨ Happened step C (step s e) events := by
  constructor
  · rintro ⟨before, e', rest, heq, hC⟩
    cases before with
    | nil =>
      obtain ⟨rfl, rfl⟩ := List.cons.inj heq
      exact .inl hC
    | cons first before =>
      obtain ⟨rfl, rfl⟩ := List.cons.inj heq
      exact .inr ⟨before, e', rest, rfl, hC⟩
  · rintro (h | ⟨before, e', rest, rfl, hC⟩)
    · exact ⟨[], e, events, rfl, h⟩
    · exact ⟨e :: before, e', rest, rfl, hC⟩

/-- What happened stays in the history. -/
theorem Happened.append (h : Happened step C s events) (after : List ε) :
    Happened step C s (events ++ after) := by
  obtain ⟨before, e, rest, rfl, hC⟩ := h
  exact ⟨before, e, rest ++ after, by simp, hC⟩

theorem Happened.last (h : C (run step s events) e) : Happened step C s (events ++ [e]) :=
  ⟨events, e, [], rfl, h⟩

/-- What happened in a run happened before its last step or at it. -/
theorem happened_append_singleton : Happened step C s (events ++ [e]) ↔
    Happened step C s events ∨ C (run step s events) e := by
  constructor
  · rintro ⟨before, e', rest, heq, hC⟩
    rcases List.eq_nil_or_concat rest with rfl | ⟨rest, last, rfl⟩
    · obtain ⟨rfl, hlast⟩ := List.append_inj' heq rfl
      obtain rfl := (List.cons.inj hlast).1
      exact .inr hC
    · rw [List.concat_eq_append, ← List.cons_append, ← List.append_assoc] at heq
      obtain ⟨rfl, -⟩ := List.append_inj' heq rfl
      exact .inl ⟨before, e', rest, rfl, hC⟩
  · rintro (h | h)
    · exact h.append [e]
    · exact Happened.last h

/-- **What a cell holds was written last.** `effect` says whether a step writes the cell, and what.
-/
theorem read_run_eq_some {α : Type*} (read : σ → Option α) {effect : σ → ε → Option (Option α)}
    (hread : ∀ s e, read (step s e) = (effect s e).getD (read s)) (hstart : read s = none) {v : α} :
    read (run step s events) = some v ↔ ∃ before e after, events = before ++ e :: after ∧
      effect (run step s before) e = some (some v) ∧
      AllSteps step (fun s e => effect s e = none) (run step s (before ++ [e])) after := by
  induction events using List.reverseRecOn with
  | nil => simp [hstart]
  | append_singleton events last ih =>
    rw [run_append, run_cons, run_nil, hread]
    constructor
    · intro h
      cases heffect : effect (run step s events) last with
      | some written =>
        rw [heffect, Option.getD_some] at h
        exact ⟨events, last, [], rfl, by rw [heffect, h], trivial⟩
      | none =>
        rw [heffect, Option.getD_none] at h
        obtain ⟨before, e, after, rfl, hwrite, hkeep⟩ := ih.mp h
        refine ⟨before, e, after ++
          [last], by simp, hwrite, allSteps_append.mpr ⟨hkeep, ?_, trivial⟩⟩
        rw [← run_append]
        simpa using heffect
    · rintro ⟨before, e, after, heq, hwrite, hkeep⟩
      rcases List.eq_nil_or_concat after with rfl | ⟨after, final, rfl⟩
      · obtain ⟨rfl, hlast⟩ := List.append_inj' heq rfl
        obtain rfl := (List.cons.inj hlast).1
        rw [hwrite, Option.getD_some]
      · rw [List.concat_eq_append, ← List.cons_append, ← List.append_assoc] at heq
        obtain ⟨rfl, hlast⟩ := List.append_inj' heq rfl
        obtain rfl := (List.cons.inj hlast).1
        rw [List.concat_eq_append] at hkeep
        obtain ⟨hkeep, hlastKeep, -⟩ := allSteps_append.mp hkeep
        rw [← run_append] at hlastKeep
        simp only [List.append_assoc, List.singleton_append] at hlastKeep
        rw [hlastKeep, Option.getD_none]
        exact ih.mpr ⟨before, e, after, rfl, hwrite, hkeep⟩

/-- **Induction along a run**, with its history: a property of runs that holds of the empty run and
is kept by every step that meets the condition. -/
theorem run_induction {motive : List ε → Prop} (hnil : motive [])
    (hstep : ∀ before e, motive before → C (run step s before) e → motive (before ++ [e]))
    (hall : AllSteps step C s events) : motive events := by
  induction events using List.reverseRecOn with
  | nil => exact hnil
  | append_singleton events e ih =>
    obtain ⟨hbefore, hlast⟩ := allSteps_append.mp hall
    exact hstep events e (ih hbefore) hlast.1

end Infra
