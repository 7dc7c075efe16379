import Mathlib.Algebra.GroupWithZero.Nat
import Mathlib.Order.Lattice
import Mathlib.Data.List.Basic
import Mathlib.Tactic.Common

/-!
# Chained ranges

A list of entries each of which carries only its upper bound; the lower bound of an entry is the
upper bound of the one before it. `Tiles upper P hi lo l` says that `l` cuts `[lo, hi)` into
consecutive ranges and that `P` holds of every entry on its own range. A pass that answers every
entry with a tiling of that entry's range keeps the tiling (`Tiles.append`).
-/

namespace Infra

variable {α ε : Type*}

/-- Every entry with its implicit lower bound. -/
def withLower (upper : ε → α) : α → List ε → List (α × ε)
  | _, [] => []
  | lo, r :: rest => (lo, r) :: withLower upper (upper r) rest

@[simp] theorem length_withLower (upper : ε → α) :
    ∀ (lo : α) (l : List ε), (withLower upper lo l).length = l.length
  | _, [] => rfl
  | _, r :: rest => by rw [withLower, List.length_cons, length_withLower upper (upper r) rest,
      List.length_cons]

theorem mem_of_mem_withLower {upper : ε → α} {p : α × ε} :
    ∀ {lo : α} {l : List ε}, p ∈ withLower upper lo l → p.2 ∈ l
  | _, [], h => by simp [withLower] at h
  | _, r :: rest, h => by
    rcases List.mem_cons.mp h with rfl | h
    · exact List.mem_cons_self ..
    · exact List.mem_cons_of_mem _ (mem_of_mem_withLower h)

variable [LinearOrder α] {upper : ε → α} {P Q : α → ε → Prop} {lo mid hi x : α} {l l₁ l₂ : List ε}

/-- The entries cut `[lo, hi)` into consecutive ranges, and each satisfies `P` on its range. -/
def Tiles (upper : ε → α) (P : α → ε → Prop) (hi : α) : α → List ε → Prop
  | lo, [] => lo = hi
  | lo, r :: rest => lo ≤ upper r ∧ P lo r ∧ Tiles upper P hi (upper r) rest

theorem Tiles.le : ∀ {lo : α} {l : List ε}, Tiles upper P hi lo l → lo ≤ hi
  | _, [], h => le_of_eq h
  | _, _ :: _, ⟨hle, _, hrest⟩ => le_trans hle hrest.le

theorem Tiles.append : ∀ {lo : α} {l₁ : List ε}, Tiles upper P mid lo l₁ →
    Tiles upper P hi mid l₂ → Tiles upper P hi lo (l₁ ++ l₂)
  | _, [], h₁, h₂ => by
    cases h₁
    exact h₂
  | _, _ :: _, ⟨hle, hp, hrest⟩, h₂ => ⟨hle, hp, hrest.append h₂⟩

/-- A single entry tiles its own range. -/
theorem Tiles.single {r : ε} (hle : lo ≤ upper r) (hp : P lo r) : Tiles upper P (upper r) lo [r] :=
  ⟨hle, hp, rfl⟩

/-- Every entry satisfies the predicate on its range. -/
theorem Tiles.forall_mem : ∀ {lo : α} {l : List ε}, Tiles upper P hi lo l →
    ∀ p ∈ withLower upper lo l, p.1 ≤ upper p.2 ∧ P p.1 p.2
  | _, [], _, p, hp => by simp [withLower] at hp
  | _, _ :: _, ⟨hle, hpr, hrest⟩, p, hp => by
    rcases List.mem_cons.mp hp with rfl | hp
    · exact ⟨hle, hpr⟩
    · exact hrest.forall_mem p hp

/-- A predicate that follows on every range of the tiling may replace the tiling's own. -/
theorem Tiles.imp : ∀ {lo : α} {l : List ε}, Tiles upper P hi lo l →
    (∀ p ∈ withLower upper lo l, p.1 ≤ upper p.2 → P p.1 p.2 → Q p.1 p.2) → Tiles upper Q hi lo l
  | _, [], h, _ => h
  | _, _ :: _, ⟨hle, hp, hrest⟩, himp =>
    ⟨hle, himp _ (List.mem_cons_self ..) hle hp,
      hrest.imp fun p hp => himp p (List.mem_cons_of_mem _ hp)⟩

/-- Every point of the tiled interval lies in the range of some entry. -/
theorem Tiles.exists_mem : ∀ {lo : α} {l : List ε}, Tiles upper P hi lo l → lo ≤ x → x < hi →
    ∃ p ∈ withLower upper lo l, p.1 ≤ x ∧ x < upper p.2 ∧ P p.1 p.2
  | _, [], h, hlo, hhi => by
    cases h
    exact absurd hhi (not_lt.mpr hlo)
  | lo, r :: _, ⟨_, hp, hrest⟩, hlo, hhi => by
    rcases lt_or_ge x (upper r) with hx | hx
    · exact ⟨(lo, r), List.mem_cons_self .., hlo, hx, hp⟩
    · obtain ⟨p, hmem, h⟩ := hrest.exists_mem hx hhi
      exact ⟨p, List.mem_cons_of_mem _ hmem, h⟩

/-- What every range contributes adds up to at most the measure of the tiled interval. -/
theorem Tiles.sum_le {f : α → α → Nat} {g : α × ε → Nat}
    (hadd : ∀ {a b c : α}, a ≤ b → b ≤ c → f a b + f b c = f a c) :
    ∀ {lo : α} {l : List ε}, Tiles upper P hi lo l →
    (∀ p ∈ withLower upper lo l, g p ≤ f p.1 (upper p.2)) →
    ((withLower upper lo l).map g).sum ≤ f lo hi
  | _, [], _, _ => Nat.zero_le _
  | lo, r :: _, ⟨hle, _, hrest⟩, hg => by
    have hhead : g (lo, r) ≤ f lo (upper r) := hg (lo, r) (List.mem_cons_self ..)
    have htail := hrest.sum_le hadd fun p hp => hg p (List.mem_cons_of_mem _ hp)
    have hsplit := hadd hle hrest.le
    rw [withLower, List.map_cons, List.sum_cons]
    omega

end Infra
