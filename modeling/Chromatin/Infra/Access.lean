import Chromatin.Infra.Bytes

/-!
# Reads through a pointer

A `Span` is a pointer into memory with a size. A read through it copies the bytes at an offset,
whatever the size is; a decoder that reads outside has an outcome of its own (`Stop.outside`), apart
from that of a decoder that refuses its input.

* `Access` is a decoder of such reads, and `lift` a decoder that cannot read outside
* `fetch_eq_lift` — a read inside the span is a bounds-checked one
* `require_eq_lift` and `bind_eq_lift` compare the two kinds of decoders step by step
-/

namespace Infra

/-- How a decoder ends without a value. -/
inductive Stop
  | refused
  | outside

abbrev Access := Except Stop

/-- No object has more than `PTRDIFF_MAX` bytes. -/
structure Span where
  bytes : Bytes
  size_lt : bytes.length < 2 ^ 63

namespace Span

def size (s : Span) : Nat := s.bytes.length

theorem length_bytes (s : Span) : s.bytes.length = s.size := rfl

/-- `memcpy` of `n` bytes from an offset. -/
def fetch (s : Span) (n offset : Nat) : Access (FixedBytes n) :=
  match readFixed n s.bytes offset with
  | some a => .ok a
  | none => .error .outside

def byte (s : Span) (offset : Nat) : Access UInt8 :=
  match s.bytes[offset]? with
  | some b => .ok b
  | none => .error .outside

end Span

namespace Access

variable {α β : Type}

/-- A check of the decoder. -/
def require (p : Prop) [Decidable p] : Access Unit := if p then .ok () else .error .refused

/-- A decoder that can only refuse. -/
def lift : Option α → Access α
  | some a => .ok a
  | none => .error .refused

@[simp] theorem lift_some (a : α) : lift (some a) = .ok a := rfl

theorem ok_bind (a : α) (f : α → Access β) : ((.ok a : Access α) >>= f) = f a := rfl

/-- What follows a check may use it. -/
theorem require_eq_lift {p : Prop} [Decidable p] {f : Unit → Access α} {g : Unit → Option α}
    (h : p → f () = lift (g ())) : (require p >>= f) = lift (guard p >>= g) := by
  unfold require guard
  split_ifs with hp
  · exact h hp
  · rfl

/-- What follows a step that both decoders take. -/
theorem bind_eq_lift {x : Access α} {y : Option α} {f : α → Access β}
    {g : α → Option β} (h : x = lift y)
    (hnext : ∀ a, y = some a → f a = lift (g a)) : (x >>= f) = lift (y >>= g) := by
  subst h
  cases y with
  | none => rfl
  | some a => exact hnext a rfl

end Access

/-- **A read inside the span is a bounds-checked read.** -/
theorem Span.fetch_eq_lift {s : Span} {n offset : Nat} (h : offset + n ≤ s.size) :
    s.fetch n offset = Access.lift (readFixed n s.bytes offset) := by
  obtain ⟨a, ha⟩ := exists_readFixed h
  rw [fetch, ha]
  rfl

theorem Span.byte_eq_lift {s : Span} {offset : Nat} (h : offset < s.size) :
    s.byte offset = Access.lift s.bytes[offset]? := by
  rw [byte]
  cases hbyte : s.bytes[offset]? with
  | some b => rfl
  | none => exact absurd (List.getElem?_eq_none_iff.mp hbyte) (Nat.not_le.mpr h)

end Infra
