import Mathlib.Data.List.Basic
import Mathlib.Tactic.Common

/-!
# Slices of a list and positioned writes

`pwrite` puts a list into another one at an offset, as a write into a file does; behind the end the
list is filled up first. A list that is written slice by slice is known by its slices
(`eq_of_slices`).
-/

namespace Infra

variable {α : Type*}

/-- `n` elements from `offset` on, fewer at the end of the list. -/
def sliceAt (l : List α) (offset n : Nat) : List α := (l.drop offset).take n

theorem getElem?_sliceAt (l : List α) (offset n k : Nat) :
    (sliceAt l offset n)[k]? = if k < n then l[offset + k]? else none := by
  rw [sliceAt, List.getElem?_take]
  split_ifs
  · rw [List.getElem?_drop]
  · rfl

theorem length_sliceAt (l : List α) (offset n : Nat) :
    (sliceAt l offset n).length = min n (l.length - offset) := by
  rw [sliceAt, List.length_take, List.length_drop]

/-- A slice ends with the list. -/
theorem sliceAt_min (l : List α) (offset n : Nat) :
    sliceAt l offset (min n (l.length - offset)) = sliceAt l offset n := by
  rw [sliceAt, sliceAt, ← List.take_take, List.take_of_length_le (Nat.le_of_eq List.length_drop)]

theorem sliceAt_append_left {l : List α} {offset n : Nat}
    (h : offset + n ≤ l.length) (post : List α) :
    sliceAt (l ++ post) offset n = sliceAt l offset n := by
  rw [sliceAt, sliceAt, List.drop_append_of_le_length (by omega),
    List.take_append_of_le_length (by rw [List.length_drop]; omega)]

theorem sliceAt_append_right (pre l : List α) (offset n : Nat) :
    sliceAt (pre ++ l) (pre.length + offset) n = sliceAt l offset n := by
  rw [sliceAt, sliceAt, ← List.drop_drop, List.drop_left]

@[simp] theorem sliceAt_skip {a rest : List α} {offset n : Nat} (h : a.length ≤ offset) :
    sliceAt (a ++ rest) offset n = sliceAt rest (offset - a.length) n := by
  rw [← sliceAt_append_right a rest, Nat.add_sub_cancel' h]

@[simp] theorem sliceAt_zero (l post : List α) : sliceAt (l ++ post) 0 l.length = l :=
  List.take_left

/-- The parts of a concatenation of parts of one size are its slices. -/
theorem sliceAt_flatten {size i : Nat} {part : List α} : ∀ {parts : List (List α)},
    (∀ part ∈ parts, part.length = size) → parts[i]? = some part →
    sliceAt parts.flatten (i * size) size = part
  | [], _, hi => absurd hi (by simp)
  | first :: rest, hsize, hi => by
    have hfirst : first.length = size := hsize first List.mem_cons_self
    cases i with
    | zero =>
      obtain rfl := Option.some.inj hi
      rw [Nat.zero_mul, List.flatten_cons, sliceAt, List.drop_zero, List.take_left' hfirst]
    | succ i =>
      rw [List.flatten_cons, Nat.succ_mul, Nat.add_comm, ← hfirst, sliceAt_append_right, hfirst]
      exact sliceAt_flatten (fun part hpart => hsize part (List.mem_cons_of_mem _ hpart)) hi

theorem sliceAt_add (l : List α) (offset n m : Nat) :
    sliceAt l offset (n + m) = sliceAt l offset n ++ sliceAt l (offset + n) m := by
  rw [sliceAt, sliceAt, sliceAt, List.take_add, List.drop_drop]

/-- A list is known by its slices. -/
theorem eq_of_slices {l l' : List α} {size count : Nat} (hlength : l.length = l'.length)
    (hcover : l.length ≤ count * size)
    (h : ∀ i < count, sliceAt l (i * size) size = sliceAt l' (i * size) size) : l = l' := by
  refine List.ext_getElem? fun k => ?_
  by_cases hk : k < l.length
  · have hsize : 0 < size := by
      rcases Nat.eq_zero_or_pos size with rfl | hpos
      · omega
      · exact hpos
    have hindex : k / size < count := Nat.div_lt_of_lt_mul (by rw [Nat.mul_comm]; omega)
    have hrest : k % size < size := Nat.mod_lt _ hsize
    have hposition : k / size * size + k % size = k := Nat.div_add_mod' k size
    have hget := congrArg (fun s => s[k % size]?) (h (k / size) hindex)
    simpa only [getElem?_sliceAt, if_pos hrest, hposition] using hget
  · rw [List.getElem?_eq_none (by omega), List.getElem?_eq_none (by omega)]

/-- The file after a write at an offset; a hole in front of it is filled. -/
def pwrite (fill : α) (content : List α) (offset : Nat) (data : List α) : List α :=
  let padded := content ++ List.replicate (offset - content.length) fill
  padded.take offset ++ (data ++ padded.drop (offset + data.length))

section Within

variable {fill : α} {content data : List α} {offset : Nat}
  (h : offset + data.length ≤ content.length)

include h

theorem pwrite_of_le :
    pwrite fill content offset data =
        content.take offset ++ (data ++ content.drop (offset + data.length)) := by
  have hpad : offset - content.length = 0 := by omega
  simp [pwrite, hpad]

theorem length_pwrite : (pwrite fill content offset data).length = content.length := by
  rw [pwrite_of_le h]
  simp only [List.length_append, List.length_take, List.length_drop]
  omega

theorem sliceAt_pwrite_self :
    sliceAt (pwrite fill content offset data) offset data.length = data := by
  have htake : (content.take offset).length = offset := by
    rw [List.length_take]
    omega
  rw [pwrite_of_le h, sliceAt, List.drop_left' htake, List.take_left]

/-- Other slices stay. -/
theorem sliceAt_pwrite_of_disjoint {a n : Nat}
    (hapart : a + n ≤ offset ∨ offset + data.length ≤ a) :
    sliceAt (pwrite fill content offset data) a n = sliceAt content a n := by
  have htake : (content.take offset).length = offset := by
    rw [List.length_take]
    omega
  refine List.ext_getElem? fun k => ?_
  rw [getElem?_sliceAt, getElem?_sliceAt]
  split_ifs with hk
  · rw [pwrite_of_le h]
    rcases hapart with hbefore | hbehind
    · rw [List.getElem?_append_left (by omega), List.getElem?_take_of_lt (by omega)]
    · rw [List.getElem?_append_right (by omega), List.getElem?_append_right (by omega),
        List.getElem?_drop, htake]
      congr 1
      omega
  · rfl

end Within

end Infra
