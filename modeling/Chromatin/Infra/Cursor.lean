import Chromatin.Infra.Bytes
import Chromatin.Infra.TreeMap

/-!
# Cursors over ordered keys

An ordered map is a list in ascending order of the keys. A cursor that was put at a lower bound
cuts it in two: the part the cursor has passed, and the part from the cursor on.

* `passed_append_seek`, `mem_passed` and `mem_seek` describe the two parts
* `takeWhile_seek` — a walk from a lower bound that stops at the first key of another kind visits
  all keys of its kind
* `increment` is the next byte string of the same length; `increment_le` says that nothing lies
  between it and its argument
-/

namespace Infra

variable {α κ : Type*}

/-! ## Leading parts of ordered lists -/

section Leading

variable {p : α → Bool} {l : List α}

theorem takeWhile_eq_filter : ∀ {l : List α}, l.Pairwise (fun a b => p b = true → p a = true) →
    l.takeWhile p = l.filter p
  | [], _ => rfl
  | x :: rest, h => by
    obtain ⟨hx, hrest⟩ := List.pairwise_cons.mp h
    by_cases hp : p x = true
    · rw [List.takeWhile_cons_of_pos hp, List.filter_cons_of_pos hp, takeWhile_eq_filter hrest]
    · rw [List.takeWhile_cons_of_neg hp, List.filter_cons_of_neg hp, eq_comm,
        List.filter_eq_nil_iff]
      intro y hy hpy
      exact hp (hx y hy hpy)

theorem dropWhile_eq_filter : ∀ {l : List α}, l.Pairwise (fun a b => p b = true → p a = true) →
    l.dropWhile p = l.filter (fun x => !p x)
  | [], _ => rfl
  | x :: rest, h => by
    obtain ⟨hx, hrest⟩ := List.pairwise_cons.mp h
    by_cases hp : p x = true
    · rw [List.dropWhile_cons_of_pos hp, List.filter_cons_of_neg (by simp [hp]),
        dropWhile_eq_filter hrest]
    · rw [List.dropWhile_cons_of_neg hp, eq_comm, List.filter_eq_self]
      intro y hy
      rcases List.mem_cons.mp hy with rfl | hy
      · simpa using hp
      · simpa using fun hpy => hp (hx y hy hpy)

end Leading

/-! ## The two sides of a cursor -/

section Seek

variable [LinearOrder κ] (key : α → κ)

/-- The rows from the first one whose key is not below the bound. -/
def seek (rows : List α) (bound : κ) : List α := rows.dropWhile fun row => key row < bound

/-- The rows before that one. -/
def passed (rows : List α) (bound : κ) : List α := rows.takeWhile fun row => key row < bound

/-- The keys ascend. -/
abbrev Ascending (rows : List α) : Prop := rows.Pairwise fun a b => key a < key b

variable {rows : List α} {bound : κ} {row : α}

theorem passed_append_seek (rows : List α) (bound : κ) :
    passed key rows bound ++ seek key rows bound = rows :=
  List.takeWhile_append_dropWhile

/-- Nothing is below the bound. -/
theorem seek_eq_self (h : ∀ row ∈ rows, bound ≤ key row) : seek key rows bound = rows := by
  cases rows with
  | nil => rfl
  | cons row rest =>
    refine List.dropWhile_cons_of_neg ?_
    simpa using h row List.mem_cons_self

theorem seek_sublist (rows : List α) (bound : κ) : (seek key rows bound).Sublist rows :=
  List.dropWhile_sublist _

theorem passed_sublist (rows : List α) (bound : κ) : (passed key rows bound).Sublist rows :=
  List.takeWhile_sublist _

variable {key}

theorem Ascending.passed_below (h : Ascending key rows) (bound : κ) :
    rows.Pairwise fun a b => decide (key b < bound) = true → decide (key a < bound) = true :=
  h.imp fun hlt hb => decide_eq_true (hlt.trans (of_decide_eq_true hb))

theorem mem_passed (h : Ascending key rows) : row ∈ passed key rows bound ↔
    row ∈ rows ∧ key row < bound := by
  rw [passed, takeWhile_eq_filter (h.passed_below bound), List.mem_filter, decide_eq_true_iff]

theorem mem_seek (h : Ascending key rows) : row ∈ seek key rows bound ↔
    row ∈ rows ∧ bound ≤ key row := by
  rw [seek, dropWhile_eq_filter (h.passed_below bound), List.mem_filter]
  simp

/-- Ordered rows are determined by what they hold. -/
theorem Ascending.ext {rows' : List α} (h : Ascending key rows) (h' : Ascending key rows')
    (hmem : ∀ row, row ∈ rows ↔ row ∈ rows') : rows = rows' := by
  have hnodup {l : List α} (hl : Ascending key l) : l.Nodup :=
    hl.imp fun hlt heq => absurd (heq ▸ hlt) (lt_irrefl _)
  refine ((List.perm_ext_iff_of_nodup (hnodup h) (hnodup h')).mpr hmem).eq_of_pairwise
    (fun a b _ _ hab hba => ?_) h h'
  exact absurd hab (lt_asymm hba)

section Rows

variable {β : Type*}

theorem ascending_toList (t : Table κ β) : Ascending Prod.fst t.toList :=
  t.ordered_keys_toList.imp fun hlt => compare_lt_iff_lt.mp hlt

/-- The table with given ordered rows. -/
theorem toList_ofList {rows : List (κ × β)} (h : Ascending Prod.fst rows) :
    (Std.ExtTreeMap.ofList rows : Table κ β).toList = rows := by
  have hdistinct : rows.Pairwise fun a b => ¬ compare a.1 b.1 = .eq :=
    h.imp fun hlt heq => absurd (compare_eq_iff_eq.mp heq) (ne_of_lt hlt)
  have hget {k : κ} {v : β} (hmem : (k, v) ∈ rows) :
    (Std.ExtTreeMap.ofList rows : Table κ β)[k]? = some v :=
    Std.ExtTreeMap.getElem?_ofList_of_mem (compare_eq_iff_eq.mpr rfl) hdistinct hmem
  refine (ascending_toList _).ext h fun ⟨k, v⟩ => ?_
  rw [Std.ExtTreeMap.mem_toList_iff_getElem?_eq_some]
  refine ⟨fun hsome => ?_, hget⟩
  by_cases hkey : k ∈ rows.map Prod.fst
  · obtain ⟨⟨k', v'⟩, hmem, rfl⟩ := List.mem_map.mp hkey
    obtain rfl := Option.some.inj ((hget hmem).symm.trans hsome)
    exact hmem
  · rw [Std.ExtTreeMap.getElem?_ofList_of_contains_eq_false (by simpa using hkey)] at hsome
    exact absurd hsome (by simp)

end Rows

/-- A walk from a lower bound that stops at the first row of another kind visits the rows of its
kind from the bound on, if no key of another kind lies between them. -/
theorem takeWhile_seek {p : α → Bool} (h : Ascending key rows)
    (hconvex : ∀ a b, bound ≤ key a → key a < key b → p b = true → p a = true) :
    (seek key rows bound).takeWhile p = rows.filter fun row =>
    decide (bound ≤ key row) && p row := by
  have hsorted : (seek key rows bound).Pairwise fun a b => p b = true → p a = true := by
    refine (h.sublist (seek_sublist key rows bound)).imp_of_mem fun {a b} ha _ hlt hb => ?_
    exact hconvex a b ((mem_seek h).mp ha).2 hlt hb
  rw [takeWhile_eq_filter hsorted, seek, dropWhile_eq_filter (h.passed_below bound),
    List.filter_filter]
  refine List.filter_congr fun row _ => ?_
  rw [Bool.and_comm, ← decide_not, decide_eq_decide.mpr not_lt]

/-- It visits exactly the rows of one kind, if their keys start at the bound. -/
theorem mem_takeWhile_seek {p : α → Bool} (h : Ascending key rows)
    (hbound : ∀ row, p row = true → bound ≤ key row)
    (hconvex : ∀ a b, bound ≤ key a → key a < key b → p b = true → p a = true) :
    row ∈ (seek key rows bound).takeWhile p ↔ row ∈ rows ∧ p row = true := by
  rw [takeWhile_seek h hconvex, List.mem_filter, Bool.and_eq_true, decide_eq_true_iff]
  constructor
  · rintro ⟨hmem, -, hp⟩
    exact ⟨hmem, hp⟩
  · rintro ⟨hmem, hp⟩
    exact ⟨hmem, hbound row hp, hp⟩

end Seek

/-! ## The next byte string -/

/-- Add one to a big-endian number; `none` when the carry leaves the first byte. -/
def increment : Bytes → Option Bytes
  | [] => none
  | x :: rest =>
    match increment rest with
    | some rest' => some (x :: rest')
    | none => if x < 0xFF then some ((x + 1) :: List.replicate rest.length 0) else none

theorem length_increment : ∀ {l l' : Bytes}, increment l = some l' → l'.length = l.length
  | [], _, h => absurd h (by simp [increment])
  | x :: rest, l', h => by
    rw [increment] at h
    split at h
    · rename_i hrest
      obtain rfl := Option.some.inj h
      rw [List.length_cons, List.length_cons, length_increment hrest]
    · split_ifs at h
      obtain rfl := Option.some.inj h
      simp

theorem byte_lt_add_one {x : UInt8} (h : x < 0xFF) : x < x + 1 := by
  have hlt : x.toNat < 255 := UInt8.lt_iff_toNat_lt.mp h
  rw [UInt8.lt_iff_toNat_lt, UInt8.toNat_add]
  have hone : (1 : UInt8).toNat = 1 := rfl
  omega

theorem byte_add_one_le {x y : UInt8} (h : x < y) : x + 1 ≤ y := by
  have hlt := UInt8.lt_iff_toNat_lt.mp h
  have hy := y.toNat_lt
  rw [UInt8.le_iff_toNat_le, UInt8.toNat_add]
  have hone : (1 : UInt8).toNat = 1 := rfl
  omega

theorem lt_increment : ∀ {l l' : Bytes}, increment l = some l' → l < l'
  | [], _, h => absurd h (by simp [increment])
  | x :: rest, l', h => by
    rw [increment] at h
    split at h
    · rename_i hrest
      obtain rfl := Option.some.inj h
      exact List.cons_lt_cons_iff.mpr (.inr ⟨rfl, lt_increment hrest⟩)
    · split_ifs at h with hx
      obtain rfl := Option.some.inj h
      exact List.cons_lt_cons_iff.mpr (.inl (byte_lt_add_one hx))

/-- Every greater string of the same length is at least the next one. -/
theorem increment_le : ∀ {l m : Bytes}, l.length = m.length → l < m →
    ∃ l', increment l = some l' ∧ l' ≤ m
  | [], [], _, h => absurd h (lt_irrefl _)
  | x :: rest, y :: more, hlength, h => by
    have htails : rest.length = more.length := Nat.succ.inj hlength
    rw [increment]
    rcases List.cons_lt_cons_iff.mp h with hxy | ⟨rfl, hrest⟩
    · cases hnext : increment rest with
      | some rest' => exact ⟨_, rfl, le_of_lt (List.cons_lt_cons_iff.mpr (.inl hxy))⟩
      | none =>
        have hx : x < 0xFF := by
          have hlt := UInt8.lt_iff_toNat_lt.mp hxy
          have hy := y.toNat_lt
          rw [UInt8.lt_iff_toNat_lt]
          have hmax : (0xFF : UInt8).toNat = 255 := rfl
          omega
        refine ⟨(x + 1) :: List.replicate rest.length 0,
          by simp only [hx, if_true], not_lt.mp fun hlt => ?_⟩
        -- a string below the next one would have to start with a byte between `x` and `x + 1`
        rcases List.cons_lt_cons_iff.mp hlt with hbyte | ⟨-, htail⟩
        · exact absurd hbyte (not_lt.mpr (byte_add_one_le hxy))
        · rw [htails] at htail
          exact absurd htail (not_lt.mpr (replicate_zero_le more))
    · obtain ⟨rest', hnext, hle⟩ := increment_le htails hrest
      refine ⟨x :: rest', by rw [hnext], not_lt.mp fun hlt => ?_⟩
      rcases List.cons_lt_cons_iff.mp hlt with hbyte | ⟨-, htail⟩
      · exact absurd hbyte (lt_irrefl _)
      · exact absurd htail (not_lt.mpr hle)

/-- The next array; `none` after the last one. -/
def FixedBytes.increment {n : Nat} (a : FixedBytes n) : Option (FixedBytes n) :=
  match h : Infra.increment a.toList with
  | none => none
  | some l => some ⟨l, (length_increment h).trans a.toList_length⟩

/-- The next array is the least one above. -/
theorem FixedBytes.increment_eq_some {n : Nat} {a a' : FixedBytes n}
    (h : a.increment = some a') (b : FixedBytes n) :
    a' ≤ b ↔ a < b := by
  obtain ⟨l, hl⟩ := a
  obtain ⟨l', hl'⟩ := a'
  obtain ⟨m, hm⟩ := b
  have hnext : Infra.increment l = some l' := by
    unfold FixedBytes.increment at h
    split at h
    · exact absurd h (by simp)
    · rename_i hstep
      obtain rfl : _ = l' := congrArg Subtype.val (Option.some.inj h)
      exact hstep
  constructor
  · intro hle
    exact lt_of_lt_of_le (lt_increment hnext) hle
  · intro hlt
    obtain ⟨l'', hnext', hle⟩ := increment_le (hl.trans hm.symm) hlt
    rw [hnext] at hnext'
    obtain rfl := Option.some.inj hnext'
    exact hle

theorem FixedBytes.increment_eq_none {n : Nat} {a : FixedBytes n}
    (h : a.increment = none) (b : FixedBytes n) :
    b ≤ a := by
  obtain ⟨l, hl⟩ := a
  obtain ⟨m, hm⟩ := b
  refine not_lt.mp fun hlt => ?_
  obtain ⟨l', hnext, -⟩ := increment_le (hl.trans hm.symm) hlt
  unfold FixedBytes.increment at h
  split at h
  · rename_i hstep
    rw [show Infra.increment l = none from hstep] at hnext
    exact absurd hnext (by simp)
  · exact absurd h (by simp)

end Infra
