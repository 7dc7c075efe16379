import Mathlib.Order.Lattice
import Mathlib.Data.List.Basic
import Mathlib.Tactic.Common

/-!
# Binary search in sorted lists

`lowerBound` is `std::lower_bound` on a sorted sequence, as an index. Two lower bounds cut out
the elements between two keys:

* `slice_lowerBound` — for `lo ≤ hi` the slice between the two indices holds exactly the
  elements in `[lo, hi)`
* `lowerBound_le_lowerBound_iff` — the indices are in order exactly when no element of the list
  witnesses that the keys are not
-/

namespace Infra

variable {α : Type*} {l : List α} {lo hi : α}

/-- The elements at the indices `b, …, e - 1`. -/
def slice (l : List α) (b e : Nat) : List α := (l.take e).drop b

theorem length_slice {b e : Nat} (h : e ≤ l.length) :
    (slice l b e).length = e - b := by
  rw [slice, List.length_drop, List.length_take, Nat.min_eq_left h]

theorem slice_append {b m e : Nat} (hbm : b ≤ m) (hme : m ≤ e) (hm : m ≤ l.length) :
    slice l b m ++ slice l m e = slice l b e := by
  have hsplit : l.take m ++ (l.take e).drop m = l.take e := by
    have htake : (l.take e).take m = l.take m := by rw [List.take_take, Nat.min_eq_left hme]
    rw [← htake, List.take_append_drop]
  have hdrop : (l.take e).drop b = (l.take m).drop b ++ (l.take e).drop m := by
    conv_lhs => rw [← hsplit]
    exact List.drop_append_of_le_length (by rw [List.length_take]; omega)
  exact hdrop.symm

/-- Two disjoint predicates count together what their disjunction counts. -/
theorem length_filter_add {p q r : α → Bool} (hr : ∀ x, r x = (p x || q x))
    (hd : ∀ x, p x = true → q x = false) (l : List α) :
    (l.filter p).length + (l.filter q).length = (l.filter r).length := by
  induction l with
  | nil => rfl
  | cons x rest ih =>
    have hrx := hr x
    have hdx := hd x
    cases hp : p x <;> cases hq : q x <;> simp_all <;> omega

variable [LinearOrder α]

/-- The number of leading elements below `x`: the index of the first element not below it. -/
def lowerBound (l : List α) (x : α) : Nat := (l.takeWhile (· < x)).length

/-- The elements in the half-open interval `[lo, hi)`. -/
def between (l : List α) (lo hi : α) : List α := l.filter fun x => lo ≤ x ∧ x < hi

@[simp] theorem mem_between {x : α} :
    x ∈ between l lo hi ↔ x ∈ l ∧ lo ≤ x ∧ x < hi := by
  simp [between]

theorem lowerBound_le_length (l : List α) (x : α) : lowerBound l x ≤ l.length :=
  (List.takeWhile_prefix _).length_le

/-! ## The index as a count -/

/-- In a sorted list the leading elements below `x` are all the elements below `x`. -/
theorem takeWhile_lt_eq_filter (x : α) : ∀ {l : List α}, l.Pairwise (· ≤ ·) →
    l.takeWhile (· < x) = l.filter (· < x)
  | [], _ => rfl
  | y :: rest, hs => by
    obtain ⟨hy, hrest⟩ := List.pairwise_cons.mp hs
    by_cases hyx : y < x
    · rw [List.takeWhile_cons_of_pos (by simpa using hyx),
        List.filter_cons_of_pos (by simpa using hyx), takeWhile_lt_eq_filter x hrest]
    · rw [List.takeWhile_cons_of_neg (by simpa using hyx),
        List.filter_cons_of_neg (by simpa using hyx), eq_comm, List.filter_eq_nil_iff]
      intro z hz
      simpa using le_trans (not_lt.mp hyx) (hy z hz)

theorem take_lowerBound (l : List α) (x : α) :
    l.take (lowerBound l x) = l.takeWhile (· < x) :=
  (List.prefix_iff_eq_take.mp (List.takeWhile_prefix _)).symm

theorem lowerBound_eq_countP (hs : l.Pairwise (· ≤ ·)) (x : α) :
    lowerBound l x = l.countP (· < x) := by
  rw [lowerBound, takeWhile_lt_eq_filter x hs, List.countP_eq_length_filter]

theorem drop_lowerBound (x : α) : ∀ {l : List α}, l.Pairwise (· ≤ ·) →
    l.drop (lowerBound l x) = l.filter (x ≤ ·)
  | [], _ => rfl
  | y :: rest, hs => by
    obtain ⟨hy, hrest⟩ := List.pairwise_cons.mp hs
    by_cases hyx : y < x
    · rw [lowerBound, List.takeWhile_cons_of_pos (by simpa using hyx), List.length_cons,
        List.drop_succ_cons, List.filter_cons_of_neg (by simpa using hyx)]
      exact drop_lowerBound x hrest
    · rw [lowerBound, List.takeWhile_cons_of_neg (by simpa using hyx), List.length_nil,
        List.drop_zero, eq_comm, List.filter_eq_self]
      intro z hz
      rcases List.mem_cons.mp hz with rfl | hz
      · simpa using hyx
      · simpa using le_trans (not_lt.mp hyx) (hy z hz)

/-- The elements of an interval, counted piecewise. -/
theorem length_between_add {mid : α} (h₁ : lo ≤ mid) (h₂ : mid ≤ hi) (l : List α) :
    (between l lo mid).length + (between l mid hi).length = (between l lo hi).length := by
  refine length_filter_add (fun x => ?_) (fun x hx => ?_) l
  · rw [← Bool.decide_or, decide_eq_decide]
    constructor
    · rintro ⟨hlo, hhi⟩
      exact (lt_or_ge x mid).imp (fun h => ⟨hlo, h⟩) (fun h => ⟨h, hhi⟩)
    · rintro (⟨hlo, hm⟩ | ⟨hm, hhi⟩)
      · exact ⟨hlo, lt_of_lt_of_le hm h₂⟩
      · exact ⟨le_trans h₁ hm, hhi⟩
  · exact decide_eq_false fun h => absurd (of_decide_eq_true hx).2 (not_lt.mpr h.1)

theorem between_sublist (l : List α) (lo hi : α) : (between l lo hi).Sublist l :=
  List.filter_sublist

theorem lowerBound_eq_add (hs : l.Pairwise (· ≤ ·)) (h : lo ≤ hi) :
    lowerBound l hi = lowerBound l lo + (between l lo hi).length := by
  rw [lowerBound_eq_countP hs, lowerBound_eq_countP hs, List.countP_eq_length_filter,
    List.countP_eq_length_filter, eq_comm]
  refine length_filter_add (fun x => ?_) (fun x hx => ?_) l
  · rw [← Bool.decide_or, decide_eq_decide]
    constructor
    · intro hhi
      exact (lt_or_ge x lo).imp id (fun hlo => ⟨hlo, hhi⟩)
    · rintro (hlo | ⟨_, hhi⟩)
      · exact lt_of_lt_of_le hlo h
      · exact hhi
  · exact decide_eq_false fun h' => absurd (of_decide_eq_true hx) (not_lt.mpr h'.1)

/-- **The index pair is in order exactly when no element lies between the keys the wrong way
round.** -/
theorem lowerBound_le_lowerBound_iff (hs : l.Pairwise (· ≤ ·)) (a b : α) :
    lowerBound l a ≤ lowerBound l b ↔ ∀ x ∈ l, ¬(b ≤ x ∧ x < a) := by
  rcases le_total a b with hab | hba
  · refine ⟨fun _ x _ hx => absurd (lt_of_lt_of_le hx.2 hab) (not_lt.mpr hx.1), fun _ => ?_⟩
    rw [lowerBound_eq_add hs hab]
    exact Nat.le_add_right _ _
  · rw [lowerBound_eq_add hs hba]
    constructor
    · intro h x hx hbx
      have hpos := List.length_pos_of_mem (mem_between.mpr ⟨hx, hbx⟩)
      omega
    · intro h
      have hnil : between l b a = [] := by
        rw [List.eq_nil_iff_forall_not_mem]
        intro x hx
        rw [mem_between] at hx
        exact h x hx.1 hx.2
      rw [hnil]
      exact Nat.le_refl _

/-! ## Slices between two lower bounds -/

/-- **The slice between two lower bounds holds exactly the elements of the interval.** -/
theorem slice_lowerBound (hs : l.Pairwise (· ≤ ·)) (h : lo ≤ hi) :
    slice l (lowerBound l lo) (lowerBound l hi) = between l lo hi := by
  have hsub : (l.filter (· < hi)).Pairwise (· ≤ ·) := hs.filter _
  have hidx : lowerBound l lo = lowerBound (l.filter (· < hi)) lo := by
    rw [lowerBound_eq_countP hs, lowerBound_eq_countP hsub, List.countP_filter]
    congr 1
    funext x
    simpa using fun hx => lt_of_lt_of_le hx h
  rw [slice, take_lowerBound, takeWhile_lt_eq_filter hi hs, hidx, drop_lowerBound lo hsub,
    List.filter_filter, between]
  congr 1
  funext x
  simp

/-- The elements of an interval, listed piecewise. -/
theorem between_append (hs : l.Pairwise (· ≤ ·)) {mid : α} (h₁ : lo ≤ mid)
    (h₂ : mid ≤ hi) : between l lo mid ++ between l mid hi = between l lo hi := by
  have hlo := lowerBound_eq_add hs h₁
  have hhi := lowerBound_eq_add hs h₂
  rw [← slice_lowerBound hs h₁, ← slice_lowerBound hs h₂, ← slice_lowerBound hs (le_trans h₁ h₂)]
  exact slice_append (by omega) (by omega) (lowerBound_le_length l mid)

/-- In a strictly sorted list an element's lower bound is its own index. -/
theorem lowerBound_getElem (hs : l.Pairwise (· < ·)) {i : Nat} (hi : i < l.length) :
    lowerBound l l[i] = i := by
  have hsplit : l = l.take i ++ l[i] :: l.drop (i + 1) := by simp
  have hbelow : ∀ y ∈ l.take i, decide (y < l[i]) = true := by
    intro y hy
    obtain ⟨j, hj, rfl⟩ := List.mem_take_iff_getElem.mp hy
    exact decide_eq_true (List.pairwise_iff_getElem.mp hs j i (by omega) hi (by omega))
  have htake : l.takeWhile (· < l[i]) = l.take i := by
    generalize l[i] = x at hsplit hbelow
    rw [hsplit, List.takeWhile_append_of_pos hbelow, List.takeWhile_cons_of_neg (by simp),
      List.append_nil, ← hsplit]
  rw [lowerBound, htake, List.length_take, Nat.min_eq_left (Nat.le_of_lt hi)]

end Infra
