import Mathlib.Data.List.Nodup
import Mathlib.Data.List.Lookmap
import Mathlib.Tactic.Common

/-!
# Association lists with one entry per key

`assign` is `map[key] = value`, `unbind` is `map.erase(key)`. What the proofs need of them is which
entry a look-up finds and what is left without it (`lookup_split`).
-/

namespace Infra.Assoc

variable {κ α : Type*} [DecidableEq κ]

def unbind (key : κ) (l : List (κ × α)) : List (κ × α) := l.filter (·.1 != key)

def assign (key : κ) (value : α) (l : List (κ × α)) : List (κ × α) := (key, value) :: unbind key l

variable {key : κ} {value : α} {l : List (κ × α)}

theorem unbind_sublist (key : κ) (l : List (κ × α)) : (unbind key l).Sublist l :=
  List.filter_sublist

@[simp] theorem mem_unbind {entry : κ × α} : entry ∈ unbind key l ↔ entry ∈ l ∧ entry.1 ≠ key := by
  simp [unbind]

theorem unbind_of_notMem (h : key ∉ l.map Prod.fst) : unbind key l = l := by
  rw [unbind, List.filter_eq_self]
  intro entry hentry
  rw [bne_iff_ne]
  rintro rfl
  exact h (List.mem_map_of_mem hentry)

theorem nodup_keys_unbind (h : (l.map Prod.fst).Nodup) : ((unbind key l).map Prod.fst).Nodup :=
  h.sublist ((unbind_sublist key l).map _)

/-- The entry a look-up finds. -/
theorem lookup_split : ∀ {l : List (κ × α)}, l.lookup key = some value →
    ∃ before after, l = before ++ (key, value) :: after ∧
      (unbind key l).Sublist (before ++ after)
  | [], h => by simp at h
  | (k, v) :: l, h => by
    by_cases hk : key = k
    · subst hk
      have hv : v = value := by simpa using h
      subst hv
      refine ⟨[], l, rfl, ?_⟩
      rw [unbind, List.filter_cons_of_neg (by simp)]
      exact unbind_sublist key l
    · rw [List.lookup_cons, beq_eq_false_iff_ne.mpr hk] at h
      obtain ⟨before, after, rfl, hsub⟩ := lookup_split h
      refine ⟨(k, v) :: before, after, rfl, ?_⟩
      rw [unbind, List.filter_cons_of_pos (by simpa using Ne.symm hk)]
      exact hsub.cons_cons (k, v)

theorem mem_of_lookup (h : l.lookup key = some value) : (key, value) ∈ l := by
  obtain ⟨before, after, rfl, -⟩ := lookup_split h
  simp

/-- With one entry per key, the look-up finds the entry. -/
theorem lookup_of_mem (hnodup : (l.map Prod.fst).Nodup) (h : (key, value) ∈ l) :
    l.lookup key = some value := by
  induction l with
  | nil => simp at h
  | cons entry l ih =>
    obtain ⟨k, v⟩ := entry
    rw [List.map_cons, List.nodup_cons] at hnodup
    rcases List.mem_cons.mp h with heq | hmem
    · obtain ⟨rfl, rfl⟩ := Prod.mk.inj heq
      simp
    · have hne : key ≠ k := by
        rintro rfl
        exact hnodup.1 (List.mem_map.mpr ⟨(key, value), hmem, rfl⟩)
      rw [List.lookup_cons, beq_eq_false_iff_ne.mpr hne]
      exact ih hnodup.2 hmem

theorem length_unbind (hnodup : (l.map Prod.fst).Nodup) (h : (key, value) ∈ l) :
    (unbind key l).length + 1 = l.length := by
  induction l with
  | nil => simp at h
  | cons entry l ih =>
    rw [List.map_cons, List.nodup_cons] at hnodup
    by_cases hkey : entry.1 = key
    · have habsent : key ∉ l.map Prod.fst := hkey ▸ hnodup.1
      have hunbind : unbind key (entry :: l) = unbind key l := by
        rw [unbind, List.filter_cons_of_neg (by simp [hkey])]
        rfl
      rw [hunbind, unbind_of_notMem habsent, List.length_cons]
    · have hmem : (key, value) ∈ l := by
        rcases List.mem_cons.mp h with rfl | hmem
        · exact absurd rfl hkey
        · exact hmem
      have hunbind : unbind key (entry :: l) = entry :: unbind key l := by
        rw [unbind, List.filter_cons_of_pos (by simpa using hkey)]
        rfl
      rw [hunbind, List.length_cons, List.length_cons, ih hnodup.2 hmem]

/-- Taking an entry out moves its value to the front. -/
theorem nodup_values_of_lookup {done rest : List α} (h : l.lookup key = some value)
    (hnodup : (done ++ (l.map Prod.snd ++ rest)).Nodup) :
    ((value :: done) ++ ((unbind key l).map Prod.snd ++ rest)).Nodup := by
  obtain ⟨before, after, rfl, hsub⟩ := lookup_split h
  have hperm : (done ++ ((before ++ (key, value) :: after).map Prod.snd ++ rest)).Perm
      ((value :: done) ++ ((before ++ after).map Prod.snd ++ rest)) := by
    simp only [List.map_append, List.map_cons, List.append_assoc, List.cons_append]
    rw [← List.append_assoc, ← List.append_assoc done]
    exact List.perm_middle
  have hmoved := hperm.nodup hnodup
  refine hmoved.sublist ?_
  exact (List.Sublist.refl _).append ((hsub.map _).append (List.Sublist.refl _))

end Infra.Assoc
