import Chromatin.Infra.Bytes

/-!
# Big-endian wire integers (`util/endian.h`)

The writers append the bytes of a fixed-width integer, most significant first; the readers take
an offset into a payload and fail when the integer would leave it.
-/

namespace Util

open Infra

variable {a b : Nat}

/-- 32-byte hashes: blob hashes, namespaces, key hashes. -/
abbrev Hash32 := FixedBytes 32

instance transCmp_hash32 : Std.TransCmp (compare : Hash32 → Hash32 → Ordering) := inferInstance

instance lawfulBEq_hash32 : LawfulBEq Hash32 := inferInstance

def writeU16Be (v : UInt16) : Bytes := toBigEndian 2 v.toNat

def writeU32Be (v : UInt32) : Bytes := toBigEndian 4 v.toNat

def writeU64Be (v : UInt64) : Bytes := toBigEndian 8 v.toNat

def readU16Be (payload : Bytes) (offset : Nat) : Option UInt16 :=
  (readFixed 2 payload offset).map fun b => UInt16.ofNat (ofBigEndian b.toList)

def readU32Be (payload : Bytes) (offset : Nat) : Option UInt32 :=
  (readFixed 4 payload offset).map fun b => UInt32.ofNat (ofBigEndian b.toList)

def readU64Be (payload : Bytes) (offset : Nat) : Option UInt64 :=
  (readFixed 8 payload offset).map fun b => UInt64.ofNat (ofBigEndian b.toList)

@[simp] theorem length_writeU16Be (v : UInt16) : (writeU16Be v).length = 2 :=
  length_toBigEndian _ _

@[simp] theorem length_writeU32Be (v : UInt32) : (writeU32Be v).length = 4 :=
  length_toBigEndian _ _

@[simp] theorem length_writeU64Be (v : UInt64) : (writeU64Be v).length = 8 :=
  length_toBigEndian _ _

theorem readU16Be_append (pre : Bytes) (v : UInt16) (post : Bytes) :
    readU16Be (pre ++ (writeU16Be v ++ post)) pre.length = some v := by
  obtain ⟨a, ha⟩ : ∃ a : FixedBytes 2, a.toList = writeU16Be v :=
    ⟨⟨_, length_writeU16Be v⟩, rfl⟩
  have hvalue : ofBigEndian (writeU16Be v) = v.toNat := ofBigEndian_toBigEndian v.toNat_lt
  rw [readU16Be, ← ha, readFixed_append, Option.map_some, ha, hvalue, UInt16.ofNat_toNat]

theorem readU32Be_append (pre : Bytes) (v : UInt32) (post : Bytes) :
    readU32Be (pre ++ (writeU32Be v ++ post)) pre.length = some v := by
  obtain ⟨a, ha⟩ : ∃ a : FixedBytes 4, a.toList = writeU32Be v :=
    ⟨⟨_, length_writeU32Be v⟩, rfl⟩
  have hvalue : ofBigEndian (writeU32Be v) = v.toNat := ofBigEndian_toBigEndian v.toNat_lt
  rw [readU32Be, ← ha, readFixed_append, Option.map_some, ha, hvalue, UInt32.ofNat_toNat]

@[simp] theorem readU32Be_skip {a rest : Bytes} {offset : Nat} (h : a.length ≤ offset) :
    readU32Be (a ++ rest) offset = readU32Be rest (offset - a.length) := by
  rw [readU32Be, readFixed_skip h, readU32Be]

@[simp] theorem readU32Be_skip_cons {byte : UInt8} {rest : Bytes} {offset : Nat} (h : 1 ≤ offset) :
    readU32Be (byte :: rest) offset = readU32Be rest (offset - 1) :=
  readU32Be_skip (a := [byte]) h

@[simp] theorem readU32Be_zero (v : UInt32) (post : Bytes) :
    readU32Be (writeU32Be v ++ post) 0 = some v :=
  readU32Be_append [] v post

@[simp] theorem readU32Be_writeU32Be (v : UInt32) : readU32Be (writeU32Be v) 0 = some v := by
  have h := readU32Be_zero v []
  rwa [List.append_nil] at h

theorem readU32Be_extend {payload : Bytes} {offset : Nat} {v : UInt32}
    (h : readU32Be payload offset = some v) (more : Bytes) :
    readU32Be (payload ++ more) offset = some v := by
  rw [readU32Be, Option.map_eq_some_iff] at h
  obtain ⟨a, ha, rfl⟩ := h
  rw [readU32Be, readFixed_extend ha, Option.map_some]

theorem readU64Be_append (pre : Bytes) (v : UInt64) (post : Bytes) :
    readU64Be (pre ++ (writeU64Be v ++ post)) pre.length = some v := by
  obtain ⟨a, ha⟩ : ∃ a : FixedBytes 8, a.toList = writeU64Be v :=
    ⟨⟨_, length_writeU64Be v⟩, rfl⟩
  have hvalue : ofBigEndian (writeU64Be v) = v.toNat := ofBigEndian_toBigEndian v.toNat_lt
  rw [readU64Be, ← ha, readFixed_append, Option.map_some, ha, hvalue, UInt64.ofNat_toNat]

@[simp] theorem readU64Be_skip {a rest : Bytes} {offset : Nat} (h : a.length ≤ offset) :
    readU64Be (a ++ rest) offset = readU64Be rest (offset - a.length) := by
  rw [readU64Be, readFixed_skip h, readU64Be]

@[simp] theorem readU64Be_skip_cons {byte : UInt8} {rest : Bytes} {offset : Nat} (h : 1 ≤ offset) :
    readU64Be (byte :: rest) offset = readU64Be rest (offset - 1) :=
  readU64Be_skip (a := [byte]) h

@[simp] theorem readU64Be_zero (v : UInt64) (post : Bytes) :
    readU64Be (writeU64Be v ++ post) 0 = some v :=
  readU64Be_append [] v post

@[simp] theorem readU64Be_writeU64Be (v : UInt64) : readU64Be (writeU64Be v) 0 = some v := by
  have h := readU64Be_zero v []
  rwa [List.append_nil] at h

/-! ## Sizes

`size_t` has 64 bits; a sum or a product that does not fit wraps. -/

def addSize (a b : Nat) : Nat := (a + b) % 2 ^ 64

/-- The product, unless it has wrapped. -/
def checkedMul (a b : Nat) : Option Nat :=
  if a = 0 ∨ b = 0 then some 0
  else
    let result := a * b % 2 ^ 64
    if result / a ≠ b then none else some result

/-- The sum, unless it has wrapped. -/
def checkedAdd (a b : Nat) : Option Nat :=
  let result := addSize a b
  if result < a then none else some result

theorem addSize_of_lt (h : a + b < 2 ^ 64) : addSize a b = a + b := Nat.mod_eq_of_lt h

theorem checkedMul_of_lt (h : a * b < 2 ^ 64) : checkedMul a b = some (a * b) := by
  unfold checkedMul
  split_ifs with hzero
  · rcases hzero with rfl | rfl <;> simp
  · obtain ⟨ha, -⟩ := not_or.mp hzero
    have hdiv : a * b / a = b := Nat.mul_div_cancel_left b (Nat.pos_of_ne_zero ha)
    simp only [Nat.mod_eq_of_lt h, hdiv, ne_eq, not_true_eq_false, if_false]

theorem checkedAdd_of_lt (h : a + b < 2 ^ 64) : checkedAdd a b = some (a + b) := by
  rw [checkedAdd, addSize_of_lt h, if_neg (by omega)]

/-! ## Hash lists -/

/-- Hashes one after the other. -/
def encodeHashes (items : List Hash32) : Bytes := items.flatMap List.Vector.toList

/-- Read `n` consecutive hashes from `offset` on. -/
def decodeHashes (payload : Bytes) : Nat → Nat → Option (List Hash32)
  | 0, _ => some []
  | n + 1, offset => do
    let item ← readFixed 32 payload offset
    let rest ← decodeHashes payload n (offset + 32)
    some (item :: rest)

@[simp] theorem length_encodeHashes : ∀ items : List Hash32,
    (encodeHashes items).length = items.length * 32
  | [] => rfl
  | h :: rest => by
    have ih := length_encodeHashes rest
    rw [encodeHashes] at ih ⊢
    rw [List.flatMap_cons, List.length_append, h.toList_length, ih, List.length_cons]
    omega

@[simp] theorem decodeHashes_skip {a rest : Bytes} : ∀ {n offset : Nat}, a.length ≤ offset →
    decodeHashes (a ++ rest) n offset = decodeHashes rest n (offset - a.length)
  | 0, _, _ => rfl
  | n + 1, offset, h => by
    rw [decodeHashes, decodeHashes, readFixed_skip h, decodeHashes_skip (by omega),
      Nat.sub_add_comm h]

@[simp] theorem decodeHashes_zero : ∀ (items : List Hash32) (post : Bytes),
    decodeHashes (encodeHashes items ++ post) items.length 0 = some items
  | [], _ => rfl
  | h :: rest, post => by
    have hcons : encodeHashes (h :: rest) ++ post = h.toList ++ (encodeHashes rest ++ post) := by
      simp [encodeHashes]
    rw [hcons, List.length_cons, decodeHashes]
    simp [decodeHashes_zero rest post]

@[simp] theorem decodeHashes_encodeHashes (items : List Hash32) :
    decodeHashes (encodeHashes items) items.length 0 = some items := by
  have h := decodeHashes_zero items []
  rwa [List.append_nil] at h

theorem readFixed_encodeHashes {items : List Hash32} {i : Nat} {item : Hash32}
    (h : items[i]? = some item) : readFixed 32 (encodeHashes items) (i * 32) = some item := by
  obtain ⟨hi, rfl⟩ := List.getElem?_eq_some_iff.mp h
  have hsplit : encodeHashes items = encodeHashes (items.take i) ++
      (items[i].toList ++ encodeHashes (items.drop (i + 1))) := by
    unfold encodeHashes
    rw [← List.flatMap_cons, ← List.drop_eq_getElem_cons hi, ← List.flatMap_append,
      List.take_append_drop]
  have hlength : (encodeHashes (items.take i)).length = i * 32 := by
    rw [length_encodeHashes, List.length_take_of_le hi.le]
  rw [hsplit, ← hlength]
  exact readFixed_append _ _ _

end Util
