import Mathlib.Algebra.GroupWithZero.Nat
import Mathlib.Algebra.Order.BigOperators.Group.List
import Mathlib.Algebra.Order.Group.Nat
import Mathlib.Data.List.Perm.Basic
import Mathlib.Order.Compare
import Mathlib.Tactic.Common

/-!
# Ordered tables

`Std.ExtTreeMap` over a linear order, with the look-up lemmas stated as equality of keys, and
tables with two-part keys: `get₂`, `insert₂` and `erase₂` look up and change the entry `(a, b)` of
a table of tables. `tally` sums a weight over the entries of a table.
-/

namespace Infra

variable {α β γ : Type*} [LinearOrder α] [LinearOrder β]

instance lawfulEqCmp_compare : Std.LawfulEqCmp (compare : α → α → Ordering) where
  compare_self := by simp
  eq_of_compare h := compare_eq_iff_eq.mp h

/-- A finite table ordered by its keys. -/
abbrev Table (α : Type*) [LinearOrder α] (γ : Type*) := Std.ExtTreeMap α γ

theorem getElem?_insert_eq (t : Table α γ) (k a : α) (v : γ) [Decidable (k = a)] :
    (t.insert k v)[a]? = if k = a then some v else t[a]? := by
  by_cases h : k = a <;> simp [Std.ExtTreeMap.getElem?_insert, h]

theorem getElem?_erase_eq (t : Table α γ) (k a : α) [Decidable (k = a)] :
    (t.erase k)[a]? = if k = a then none else t[a]? := by
  by_cases h : k = a <;> simp [Std.ExtTreeMap.getElem?_erase, h]

/-- Tables with the same keys list them in the same order. -/
theorem keys_eq_of_mem_iff {t t' : Table α γ} (h : ∀ k, k ∈ t ↔ k ∈ t') : t.keys = t'.keys := by
  have hnodup : ∀ t : Table α γ, t.keys.Nodup := fun t =>
    t.distinct_keys.imp fun hne heq => hne (compare_eq_iff_eq.mpr heq)
  have hperm : t.keys.Perm t'.keys := by
    refine (List.perm_ext_iff_of_nodup (hnodup t) (hnodup t')).mpr fun k => ?_
    rw [Std.ExtTreeMap.mem_keys, Std.ExtTreeMap.mem_keys, h]
  refine hperm.eq_of_pairwise (fun a b _ _ hab hba => ?_) t.ordered_keys t'.ordered_keys
  exact absurd (compare_lt_iff_lt.mp hba) (compare_lt_iff_lt.mp hab).asymm

/-! ## Two-part keys -/

/-- The entry `(a, b)`. -/
def get₂ (t : Table α (Table β γ)) (a : α) (b : β) : Option γ := t[a]?.bind fun row => row[b]?

/-- Set the entry `(a, b)`. -/
def insert₂ (t : Table α (Table β γ)) (a : α) (b : β) (v : γ) : Table α (Table β γ) :=
  t.insert a ((t[a]?.getD ∅).insert b v)

/-- Remove the entry `(a, b)`, and the row `a` with its last entry. -/
def erase₂ (t : Table α (Table β γ)) (a : α) (b : β) : Table α (Table β γ) :=
  match t[a]? with
  | none => t
  | some row => if (row.erase b).isEmpty then t.erase a else t.insert a (row.erase b)

theorem get₂_insert₂ (t : Table α (Table β γ)) (a a' : α) (b b' : β) (v : γ)
    [Decidable (a = a' ∧ b = b')] :
    get₂ (insert₂ t a b v) a' b' = if a = a' ∧ b = b' then some v else get₂ t a' b' := by
  unfold get₂ insert₂
  rw [getElem?_insert_eq]
  by_cases ha : a = a'
  · subst ha
    by_cases hb : b = b'
    · subst hb
      simp
    · cases t[a]? with
      | none => simp [hb]
      | some row => simp [getElem?_insert_eq, hb]
  · simp [ha]

theorem get₂_erase₂ (t : Table α (Table β γ)) (a a' : α) (b b' : β)
    [Decidable (a = a' ∧ b = b')] :
    get₂ (erase₂ t a b) a' b' = if a = a' ∧ b = b' then none else get₂ t a' b' := by
  unfold get₂ erase₂
  cases hrow : t[a]? with
  | none =>
    by_cases ha : a = a'
    · subst ha
      simp [hrow]
    · simp [ha]
  | some row =>
    by_cases ha : a = a'
    · subst ha
      by_cases hempty : (row.erase b).isEmpty = true
      · have hnone : (row.erase b)[b']? = none := by
          rw [Std.ExtTreeMap.isEmpty_iff] at hempty
          rw [hempty]
          simp
        rw [getElem?_erase_eq] at hnone
        simp only [hempty, if_true, getElem?_erase_eq, true_and, Option.bind_none, hrow,
          Option.bind_some]
        by_cases hb : b = b'
        · simp [hb]
        · simpa [hb] using hnone.symm
      · simp [hempty, getElem?_erase_eq, hrow]
    · by_cases hempty : (row.erase b).isEmpty = true
      · simp [hempty, getElem?_erase_eq, ha]
      · simp [hempty, getElem?_insert_eq, ha]

/-! ## Sums over the entries -/

/-- What is listed row by row are the entries. -/
theorem mem_cells {δ : Type*} {f : α → β → γ → δ} {x : δ} {t : Table α (Table β γ)} :
    x ∈ (t.toList.flatMap fun row => row.2.toList.map fun cell => f row.1 cell.1 cell.2) ↔
      ∃ a b v, get₂ t a b = some v ∧ f a b v = x := by
  simp only [List.mem_flatMap, List.mem_map, Prod.exists, get₂, Option.bind_eq_some_iff,
    Std.ExtTreeMap.mem_toList_iff_getElem?_eq_some]
  constructor
  · rintro ⟨a, row, hrow, b, v, hcell, rfl⟩
    exact ⟨a, b, v, ⟨row, hrow, hcell⟩, rfl⟩
  · rintro ⟨a, b, v, ⟨row, hrow, hcell⟩, rfl⟩
    exact ⟨a, row, hrow, b, v, hcell, rfl⟩

theorem any_toList_iff {t : Table α γ} {p : α × γ → Bool} :
    t.toList.any p = true ↔ ∃ k v, t[k]? = some v ∧ p (k, v) = true := by
  simp [Std.ExtTreeMap.mem_toList_iff_getElem?_eq_some]

section Tally

variable {t : Table α γ} {k : α} {v : γ}

theorem nodup_toList (t : Table α γ) : t.toList.Nodup := by
  refine t.distinct_keys_toList.imp fun hne heq => hne ?_
  rw [heq]
  exact Std.ReflCmp.compare_self

theorem perm_toList_insert (h : t[k]? = none) :
    (t.insert k v).toList.Perm ((k, v) :: t.toList) := by
  have hnew : (k, v) ∉ t.toList := by
    rw [Std.ExtTreeMap.mem_toList_iff_getElem?_eq_some, h]
    simp
  refine (List.perm_ext_iff_of_nodup (nodup_toList _)
    (List.nodup_cons.mpr ⟨hnew, nodup_toList _⟩)).mpr ?_
  rintro ⟨a, b⟩
  rw [List.mem_cons, Std.ExtTreeMap.mem_toList_iff_getElem?_eq_some,
    Std.ExtTreeMap.mem_toList_iff_getElem?_eq_some, getElem?_insert_eq, Prod.mk.injEq]
  by_cases hk : k = a
  · subst hk
    simp [h, eq_comm]
  · simp [hk, Ne.symm hk]

theorem perm_toList_erase (h : t[k]? = some v) : t.toList.Perm ((k, v) :: (t.erase k).toList) := by
  have hback : (t.erase k).insert k v = t := by
    refine Std.ExtTreeMap.ext_getElem? fun a => ?_
    rw [getElem?_insert_eq, getElem?_erase_eq]
    split_ifs with hk
    · rw [← hk, h]
    · rfl
  have hperm := perm_toList_insert (t := t.erase k) (k := k) (v := v) (by simp)
  rwa [hback] at hperm

/-- The sum of a weight over the entries of a table. -/
def tally (weight : α → γ → Nat) (t : Table α γ) : Nat := (t.toList.map fun e => weight e.1 e.2).sum

variable {weight : α → γ → Nat}

@[simp] theorem tally_empty : tally weight (∅ : Table α γ) = 0 := by
  have hnil : (∅ : Table α γ).toList = [] := by
    rw [← List.isEmpty_iff, Std.ExtTreeMap.isEmpty_toList, Std.ExtTreeMap.isEmpty_empty]
  rw [tally, hnil, List.map_nil, List.sum_nil]

theorem tally_insert (h : t[k]? = none) :
    tally weight (t.insert k v) = tally weight t + weight k v := by
  have hperm := (perm_toList_insert (v := v) h).map fun e => weight e.1 e.2
  rw [tally, hperm.sum_eq, List.map_cons, List.sum_cons, tally, Nat.add_comm]

theorem tally_erase (h : t[k]? = some v) :
    tally weight (t.erase k) + weight k v = tally weight t := by
  have hperm := (perm_toList_erase h).map fun e => weight e.1 e.2
  rw [tally, tally, hperm.sum_eq, List.map_cons, List.sum_cons, Nat.add_comm]

theorem tally_congr {weight' : α → γ → Nat}
    (h : ∀ k v, t[k]? = some v → weight k v = weight' k v) : tally weight t = tally weight' t := by
  refine congrArg List.sum (List.map_congr_left ?_)
  rintro ⟨k, v⟩ hmem
  exact h k v (Std.ExtTreeMap.mem_toList_iff_getElem?_eq_some.mp hmem)

theorem tally_le_tally {weight' : α → γ → Nat} (h : ∀ k v, weight k v ≤ weight' k v) :
    tally weight t ≤ tally weight' t :=
  List.sum_le_sum fun e _ => h e.1 e.2

/-- A weight that only counts the key `k`. -/
theorem tally_single [DecidableEq α] (weight : γ → Nat) (t : Table α γ) (k : α) :
    tally (fun k' v => if k' = k then weight v else 0) t = (t[k]?.map weight).getD 0 := by
  have hrest : ∀ t : Table α γ, t[k]? = none →
      tally (fun k' v => if k' = k then weight v else 0) t = 0 := by
    intro t hnone
    have hzero : tally (fun k' v => if k' = k then weight v else 0) t =
        tally (fun _ _ => 0) t := by
      refine tally_congr fun k' v hv => if_neg ?_
      rintro rfl
      simp [hnone] at hv
    rw [hzero]
    simp [tally]
  cases hk : t[k]? with
  | none => exact hrest t hk
  | some v =>
    rw [← tally_erase hk, hrest _ (by simp), if_pos rfl]
    simp

end Tally

end Infra
