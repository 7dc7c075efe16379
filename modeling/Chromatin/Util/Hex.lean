import Chromatin.Infra.Bytes

/-!
# Hexadecimal texts (`util/hex.h`, `cli/src/wire.h`)

A text is the byte string of its characters. `to_hex` writes lower case; `from_hex` reads both
cases. -/

namespace Util

open Infra

/-- `hex_chars`. -/
def hexChar (n : Nat) : UInt8 := UInt8.ofNat (if n < 10 then 0x30 + n else 0x61 + (n - 10))

def toHex (bytes : Bytes) : Bytes :=
  bytes.flatMap fun b => [hexChar (b.toNat / 16), hexChar (b.toNat % 16)]

/-- The value of a digit; `none` for any other character. -/
def nibble (c : UInt8) : Option Nat :=
  if 0x30 ≤ c.toNat ∧ c.toNat ≤ 0x39 then some (c.toNat - 0x30)
  else if 0x61 ≤ c.toNat ∧ c.toNat ≤ 0x66 then some (c.toNat - 0x61 + 10)
  else if 0x41 ≤ c.toNat ∧ c.toNat ≤ 0x46 then some (c.toNat - 0x41 + 10)
  else none

/-- `none` for a text of odd length, or with another character. -/
def fromHex : Bytes → Option Bytes
  | [] => some []
  | [_] => none
  | hi :: lo :: rest => do
    let hi ← nibble hi
    let lo ← nibble lo
    let bytes ← fromHex rest
    some (UInt8.ofNat (hi * 16 + lo) :: bytes)

theorem nibble_hexChar : ∀ n < 16, nibble (hexChar n) = some n := by decide

@[simp] theorem length_toHex : ∀ bytes : Bytes, (toHex bytes).length = bytes.length * 2
  | [] => rfl
  | b :: rest => by
    have ih := length_toHex rest
    rw [toHex] at ih ⊢
    rw [List.flatMap_cons, List.length_append, ih, List.length_cons]
    simp only [List.length_cons, List.length_nil]
    omega

/-- **What is written in hexadecimal is read back.** -/
theorem fromHex_toHex : ∀ bytes : Bytes, fromHex (toHex bytes) = some bytes
  | [] => rfl
  | b :: rest => by
    have ih := fromHex_toHex rest
    have hb : b.toNat < 256 := b.toNat_lt
    have hhi := nibble_hexChar (b.toNat / 16) (by omega)
    have hlo := nibble_hexChar (b.toNat % 16) (by omega)
    have hcons : toHex (b :: rest) =
      hexChar (b.toNat / 16) :: hexChar (b.toNat % 16) :: toHex rest := rfl
    have hvalue : b.toNat / 16 * 16 + b.toNat % 16 = b.toNat := by omega
    rw [hcons, fromHex, hhi, hlo, ih]
    simp only [Option.bind_eq_bind, Option.bind_some, hvalue, UInt8.ofNat_toNat]

/-- A text of digits is read, and has two of them for each byte. -/
theorem length_of_fromHex : ∀ {text bytes : Bytes}, fromHex text = some bytes →
    text.length = bytes.length * 2
  | [], bytes, h => by
    obtain rfl := Option.some.inj h
    rfl
  | [_], _, h => by simp [fromHex] at h
  | hi :: lo :: rest, bytes, h => by
    simp only [fromHex, Option.bind_eq_bind, Option.bind_eq_some_iff] at h
    obtain ⟨_, -, _, -, read, hread, hbytes⟩ := h
    obtain rfl := Option.some.inj hbytes
    have ih := length_of_fromHex hread
    simp only [List.length_cons]
    omega

end Util
