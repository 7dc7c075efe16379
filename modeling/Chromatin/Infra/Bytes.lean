import Mathlib.Algebra.GroupWithZero.Nat
import Mathlib.Data.Vector.Basic
import Mathlib.Data.List.Lex
import Mathlib.Order.Lattice

/-!
# Byte strings

Byte strings, fixed-size byte arrays with their lexicographic order, and big-endian integers.

* `FixedBytes n` is ordered as `std::array<uint8_t, n>` is: the first differing byte decides.
* `readFixed` is the bounds-checked read every decoder is built from; a round trip needs that a read
  skips what stands in front of it (`readFixed_skip`) and finds what was written (`readFixed_zero`).
* `toBigEndian` / `ofBigEndian` are the big-endian digits of a number and their value.
-/

namespace Infra

variable {n : Nat} {offset : Nat} {payload : Bytes}

instance linearOrderUInt8 : LinearOrder UInt8 where
  le_refl a := UInt8.le_refl a
  le_trans _ _ _ := UInt8.le_trans
  le_antisymm _ _ := UInt8.le_antisymm
  le_total a b := UInt8.le_total a b
  lt_iff_le_not_ge a b := by
    constructor
    · intro h
      exact ⟨UInt8.le_of_lt h, UInt8.not_le.mpr h⟩
    · rintro ⟨_, h⟩
      exact UInt8.not_le.mp h
  toDecidableLE := inferInstance
  toDecidableLT := inferInstance

/-- A byte string. -/
abbrev Bytes := List UInt8

/-- A byte array whose size is part of its type. -/
abbrev FixedBytes (n : Nat) := List.Vector UInt8 n

instance (n : Nat) : LinearOrder (FixedBytes n) :=
  inferInstanceAs (LinearOrder {l : List UInt8 // l.length = n})

instance transCmp_bytes : Std.TransCmp (@compare Bytes LinearOrder.toOrd) := inferInstance

/-! ## Constant arrays and XOR -/

/-- The array every byte of which is `x`. -/
def FixedBytes.fill (n : Nat) (x : UInt8) : FixedBytes n := List.Vector.replicate n x

/-- Bytewise XOR. -/
def FixedBytes.xor {n : Nat} (a b : FixedBytes n) : FixedBytes n :=
  List.Vector.map₂ (· ^^^ ·) a b

theorem replicate_zero_le : ∀ l : Bytes, List.replicate l.length 0 ≤ l
  | [] => le_refl _
  | x :: rest => by
    rw [List.length_cons, List.replicate_succ, ← not_lt, List.cons_lt_cons_iff]
    rintro (h | ⟨_, h⟩)
    · exact absurd h UInt8.not_lt_zero
    · exact absurd h (not_lt.mpr (replicate_zero_le rest))

theorem le_replicate_max : ∀ l : Bytes, l ≤ List.replicate l.length 0xFF
  | [] => le_refl _
  | x :: rest => by
    rw [List.length_cons, List.replicate_succ, ← not_lt, List.cons_lt_cons_iff]
    rintro (h | ⟨_, h⟩)
    · have hx := x.toNat_lt
      have hlt : 255 < x.toNat := UInt8.lt_iff_toNat_lt.mp h
      omega
    · exact absurd h (not_lt.mpr (le_replicate_max rest))

/-- The all-zero array is the least one. -/
theorem FixedBytes.fill_zero_le (a : FixedBytes n) : FixedBytes.fill n 0 ≤ a := by
  obtain ⟨l, rfl⟩ := a
  exact replicate_zero_le l

/-- The all-`0xFF` array is the greatest one. -/
theorem FixedBytes.le_fill_max (a : FixedBytes n) : a ≤ FixedBytes.fill n 0xFF := by
  obtain ⟨l, rfl⟩ := a
  exact le_replicate_max l

/-! ## Reads -/

/-- `n` bytes of the payload from `offset` on; `none` when the read would leave the payload. -/
def readFixed (n : Nat) (payload : Bytes) (offset : Nat) : Option (FixedBytes n) :=
  if h : ((payload.drop offset).take n).length = n then some ⟨(payload.drop offset).take n, h⟩
  else none

theorem exists_readFixed (h : offset + n ≤ payload.length) :
    ∃ a, readFixed n payload offset = some a := by
  have hlength : ((payload.drop offset).take n).length = n := by
    rw [List.length_take, List.length_drop]
    omega
  exact ⟨_, dif_pos hlength⟩

theorem readFixed_eq_none (hn : 0 < n) (h : payload.length < offset + n) :
    readFixed n payload offset = none := by
  refine dif_neg ?_
  rw [List.length_take, List.length_drop]
  omega

/-- A read lands on the array that was written at that offset. -/
theorem readFixed_append (pre : Bytes) (a : FixedBytes n) (post : Bytes) :
    readFixed n (pre ++ (a.toList ++ post)) pre.length = some a := by
  have htake : ((pre ++ (a.toList ++ post)).drop pre.length).take n = a.toList := by
    rw [List.drop_left, List.take_left' a.toList_length]
  unfold readFixed
  simp only [htake, a.toList_length, dite_true]
  rfl

/-! A decoder is evaluated on what was encoded by skipping the fields in front of each read. -/

theorem drop_skip {α : Type} {a rest : List α} {k : Nat} (h : a.length ≤ k) :
    (a ++ rest).drop k = rest.drop (k - a.length) := by
  rw [List.drop_append, List.drop_of_length_le h, List.nil_append]

@[simp] theorem readFixed_skip {a rest : Bytes} (h : a.length ≤ offset) :
    readFixed n (a ++ rest) offset = readFixed n rest (offset - a.length) := by
  simp only [readFixed, drop_skip h]

@[simp] theorem readFixed_skip_cons {b : UInt8} {rest : Bytes} (h : 1 ≤ offset) :
    readFixed n (b :: rest) offset = readFixed n rest (offset - 1) :=
  readFixed_skip (a := [b]) h

@[simp] theorem readFixed_zero (a : FixedBytes n) (post : Bytes) :
    readFixed n (a.toList ++ post) 0 = some a :=
  readFixed_append [] a post

@[simp] theorem readFixed_toList (a : FixedBytes n) : readFixed n a.toList 0 = some a := by
  have h := readFixed_zero a []
  rwa [List.append_nil] at h

/-- Bytes behind the read do not change it. -/
theorem readFixed_extend {a : FixedBytes n}
    (h : readFixed n payload offset = some a) (more : Bytes) :
    readFixed n (payload ++ more) offset = some a := by
  unfold readFixed at h
  split_ifs at h with hlen
  obtain rfl := Option.some.inj h
  have htake : ((payload ++ more).drop offset).take n = (payload.drop offset).take n := by
    rw [List.length_take, List.length_drop] at hlen
    rw [List.drop_append, List.take_append_of_le_length (by rw [List.length_drop]; omega)]
  unfold readFixed
  simp only [htake, hlen, dite_true]

/-- A size check that passes disappears from a decoder. -/
theorem guard_bind {β : Type} {p : Prop} [Decidable p] (h : p) (f : Unit → Option β) :
    (guard p >>= f) = f () := by
  simp [guard, h]

theorem guard_eq_some {p : Prop} [Decidable p] {u : Unit} :
    (guard p : Option Unit) = some u ↔ p := by
  by_cases h : p <;> simp [guard, h]

/-! ## Records -/

/-- Read `n` records one after the other; a record tells where the next one begins. -/
def decodeMany {α : Type} (decode : Bytes → Nat → Option (α × Nat)) (payload : Bytes) :
    Nat → Nat → Option (List α)
  | 0, _ => some []
  | n + 1, offset => do
    let (record, next) ← decode payload offset
    let rest ← decodeMany decode payload n next
    some (record :: rest)

/-- `decode` reads the record wherever `encode` wrote it, and stops behind it. -/
def ReadsBack {α : Type} (decode : Bytes → Nat → Option (α × Nat))
    (encode : α → Bytes) (record : α) : Prop :=
  ∀ pre post, decode (pre ++ (encode record ++ post)) pre.length =
    some (record, pre.length + (encode record).length)

theorem decodeMany_append {α : Type}
    {decode : Bytes → Nat → Option (α × Nat)} {encode : α → Bytes} :
    ∀ {records : List α}, (∀ record ∈ records, ReadsBack decode encode record) → ∀ pre post,
      decodeMany decode (pre ++ (records.flatMap encode ++ post)) records.length pre.length =
        some records
  | [], _, _, _ => rfl
  | record :: rest, h, pre, post => by
    have hrecord := h record List.mem_cons_self pre (rest.flatMap encode ++ post)
    have ih :=
      decodeMany_append (fun r hr => h r (List.mem_cons_of_mem _ hr)) (pre ++ encode record) post
    rw [List.append_assoc, List.length_append] at ih
    rw [List.flatMap_cons, List.append_assoc, List.length_cons, decodeMany, hrecord]
    simp only [Option.bind_eq_bind, Option.bind_some, ih]

/-! ## Big-endian integers -/

/-- The `k` least significant base-256 digits of `v`, most significant first. -/
def toBigEndian : Nat → Nat → Bytes
  | 0, _ => []
  | k + 1, v => UInt8.ofNat (v / 256 ^ k) :: toBigEndian k v

/-- The number a big-endian byte string denotes. -/
def ofBigEndian : Bytes → Nat
  | [] => 0
  | b :: rest => b.toNat * 256 ^ rest.length + ofBigEndian rest

@[simp] theorem length_toBigEndian : ∀ k v : Nat, (toBigEndian k v).length = k
  | 0, _ => rfl
  | k + 1, v => by rw [toBigEndian, List.length_cons, length_toBigEndian k v]

theorem ofBigEndian_toBigEndian_mod : ∀ k v : Nat, ofBigEndian (toBigEndian k v) = v % 256 ^ k
  | 0, v => by simp [toBigEndian, ofBigEndian, Nat.mod_one]
  | k + 1, v => by
    have hdigit : (UInt8.ofNat (v / 256 ^ k)).toNat = v / 256 ^ k % 256 := by simp
    rw [toBigEndian, ofBigEndian, length_toBigEndian, ofBigEndian_toBigEndian_mod k v,
      hdigit, Nat.mul_comm, Nat.pow_succ, Nat.mod_mul, Nat.add_comm]

/-- Writing a number that fits and reading it back returns it. -/
theorem ofBigEndian_toBigEndian {k v : Nat} (h : v < 256 ^ k) :
    ofBigEndian (toBigEndian k v) = v := by
  rw [ofBigEndian_toBigEndian_mod, Nat.mod_eq_of_lt h]

theorem ofBigEndian_lt : ∀ l : Bytes, ofBigEndian l < 256 ^ l.length
  | [] => Nat.one_pos
  | b :: rest => by
    have hrest := ofBigEndian_lt rest
    have hb : b.toNat + 1 ≤ 256 := b.toNat_lt
    rw [ofBigEndian, List.length_cons, Nat.pow_succ, Nat.mul_comm (256 ^ rest.length)]
    calc b.toNat * 256 ^ rest.length + ofBigEndian rest
        < (b.toNat + 1) * 256 ^ rest.length := by rw [Nat.succ_mul]; omega
      _ ≤ 256 * 256 ^ rest.length := Nat.mul_le_mul_right _ hb

/-- **The byte order of big-endian numbers is their order.** -/
theorem ofBigEndian_lt_iff : ∀ {a b : Bytes}, a.length = b.length →
    (a < b ↔ ofBigEndian a < ofBigEndian b)
  | [], [], _ => by simp [ofBigEndian]
  | x :: a, y :: b, h => by
    have hlength : a.length = b.length := Nat.succ.inj h
    have ha := ofBigEndian_lt a
    have hb := ofBigEndian_lt b
    rw [List.cons_lt_cons_iff, ofBigEndian_lt_iff hlength, ofBigEndian, ofBigEndian, hlength,
      UInt8.lt_iff_toNat_lt, ← UInt8.toNat_inj]
    rw [hlength] at ha
    -- the first byte decides, unless the two are equal
    rcases Nat.lt_trichotomy x.toNat y.toNat with hlt | heq | hgt
    · have hle := Nat.mul_le_mul_right (256 ^ b.length) (Nat.succ_le_of_lt hlt)
      rw [Nat.succ_mul] at hle
      exact iff_of_true (.inl hlt) (by omega)
    · rw [heq]
      omega
    · have hle := Nat.mul_le_mul_right (256 ^ b.length) (Nat.succ_le_of_lt hgt)
      rw [Nat.succ_mul] at hle
      exact iff_of_false (by omega) (by omega)

theorem ofBigEndian_inj {a b : Bytes} (hlength : a.length = b.length)
    (h : ofBigEndian a = ofBigEndian b) : a = b := by
  have hab : ¬ a < b := fun hlt => absurd ((ofBigEndian_lt_iff hlength).mp hlt) (by omega)
  have hba : ¬ b < a := fun hlt => absurd ((ofBigEndian_lt_iff hlength.symm).mp hlt) (by omega)
  exact le_antisymm (not_lt.mp hba) (not_lt.mp hab)

end Infra
