import Chromatin.Util.Endian
import Chromatin.Infra.SortedList
import Chromatin.Infra.Tiling
import Mathlib.Data.Finset.Sort

/-!
# Range-based set reconciliation (`sync/reconciliation.cpp`)

Two nodes find the symmetric difference of their sorted hash lists by exchanging range
fingerprints. A received range is answered by `Skip` when count and XOR fingerprint agree, by the
local items when there are at most `SPLIT_THRESHOLD` of them, and by the fingerprints of its two
halves otherwise.

`rangeAction` is the decision `process_ranges` takes for one received range, with every index it
obtains from `range_indices`; `performAction` carries it out. Copying an iterator range or
dereferencing an index outside the local list is undefined in the source and is `none` here.
-/

namespace Sync

open Infra Util

/-- Protocol version of `ReconcileInit` messages. -/
def RECONCILE_VERSION : UInt8 := 0x01

/-- Up to this many items a range is answered by the items themselves. -/
def SPLIT_THRESHOLD : UInt32 := 16

/-- Safety limit on reconciliation rounds. -/
def MAX_RECONCILE_ROUNDS : Nat := 64

inductive RangeMode
  | skip
  | fingerprint
  | itemList
  deriving DecidableEq, Repr

def minHash : Hash32 := FixedBytes.fill 32 0

def maxHash : Hash32 := FixedBytes.fill 32 0xFF

theorem minHash_le (h : Hash32) : minHash ≤ h := FixedBytes.fill_zero_le h

theorem lt_maxHash {h : Hash32} (hne : h ≠ maxHash) : h < maxHash :=
  lt_of_le_of_ne (FixedBytes.le_fill_max h) hne

/-- A range of the protocol; its lower bound is the upper bound of the entry before it. -/
structure RangeEntry where
  upperBound : Hash32
  mode : RangeMode
  count : UInt32 := 0
  fingerprint : Hash32 := minHash
  items : List Hash32 := []
  deriving DecidableEq

structure ReconcileResult where
  responseRanges : List RangeEntry
  haveItems : List Hash32
  complete : Bool

/-! ## Index arithmetic

`size_t` is 64 bits wide: a difference whose subtrahend is the larger one wraps around.
-/

def sizeSub (a b : Nat) : Nat := (a + 2 ^ 64 - b) % 2 ^ 64

def sizeAdd (a b : Nat) : Nat := (a + b) % 2 ^ 64

/-- XOR of the hashes at the indices `b, …, e - 1`. The loop of the source does not run at all
when `e ≤ b`. -/
def xorFingerprint (sorted : List Hash32) (b e : Nat) : Hash32 :=
  (slice sorted b e).foldl FixedBytes.xor minHash

/-- The indices of the items in `[lower, upper)`. -/
def rangeIndices (sorted : List Hash32) (lower upper : Hash32) : Nat × Nat :=
  (Infra.lowerBound sorted lower, Infra.lowerBound sorted upper)

/-- `std::vector::assign` from an iterator range of the local list. -/
def assignRange (sorted : List Hash32) (b e : Nat) : Option (List Hash32) :=
  if b ≤ e ∧ e ≤ sorted.length then some (slice sorted b e) else none

/-! ## One received range -/

/-- What `process_ranges` does with one received range, and the indices it uses for it. -/
inductive RangeAction
  /-- the peer already confirmed the range: echo the skip -/
  | echoSkip
  /-- the peer sent items: collect them and answer with the items at `b, …, e - 1` -/
  | answerItems (b e : Nat)
  /-- fingerprint and count of `b, …, e - 1` agree with the peer's -/
  | confirmMatch (b e : Nat)
  /-- they differ and the range is small: send its items -/
  | sendItems (b e : Nat)
  /-- they differ and the range is large: send the fingerprints of both sides of `mid` -/
  | split (b e mid : Nat)
  deriving DecidableEq, Repr

def rangeAction (ourSorted : List Hash32) (lower : Hash32) (range : RangeEntry) : RangeAction :=
  match range.mode with
  | .skip => .echoSkip
  | .itemList =>
    let (b, e) := rangeIndices ourSorted lower range.upperBound
    .answerItems b e
  | .fingerprint =>
    let (b, e) := rangeIndices ourSorted lower range.upperBound
    let ourCount := UInt32.ofNat (sizeSub e b)
    let ourFp := xorFingerprint ourSorted b e
    if ourFp = range.fingerprint ∧ ourCount = range.count then .confirmMatch b e
    else if ourCount ≤ SPLIT_THRESHOLD then .sendItems b e
    else .split b e (sizeAdd b (sizeSub e b / 2))

/-- The fingerprint entry for the local items `b, …, e - 1` below `upper`. -/
def fingerprintEntry (ourSorted : List Hash32) (b e : Nat) (upper : Hash32) : RangeEntry :=
  { upperBound := upper, mode := .fingerprint, count := UInt32.ofNat (sizeSub e b),
    fingerprint := xorFingerprint ourSorted b e }

/-- The item entry for the local items `b, …, e - 1` below `upper`. -/
def itemEntry (b e : Nat) (upper : Hash32) (items : List Hash32) : RangeEntry :=
  { upperBound := upper, mode := .itemList, count := UInt32.ofNat (sizeSub e b), items := items }

def skipEntry (upper : Hash32) : RangeEntry := { upperBound := upper, mode := .skip }

/-- Carry out the decision; `none` is an access outside the local list. -/
def performAction (ourSorted : List Hash32) (range : RangeEntry) :
    RangeAction → Option ReconcileResult
  | .echoSkip => some ⟨[skipEntry range.upperBound], [], true⟩
  | .answerItems b e => do
    let items ← assignRange ourSorted b e
    some ⟨[itemEntry b e range.upperBound items], range.items, true⟩
  | .confirmMatch _ _ => some ⟨[skipEntry range.upperBound], [], true⟩
  | .sendItems b e => do
    let items ← assignRange ourSorted b e
    some ⟨[itemEntry b e range.upperBound items], [], false⟩
  | .split b e mid => do
    let splitHash ← ourSorted[mid]?
    some ⟨[fingerprintEntry ourSorted b mid splitHash,
      fingerprintEntry ourSorted mid e range.upperBound], [], false⟩

/-! ## What one range can lead to -/

section

variable (ourSorted : List Hash32) (lower : Hash32) {range : RangeEntry}

theorem rangeAction_skip (hmode : range.mode = .skip) :
    rangeAction ourSorted lower range = .echoSkip := by
  unfold rangeAction
  rw [hmode]

theorem rangeAction_itemList (hmode : range.mode = .itemList) :
    rangeAction ourSorted lower range
      = .answerItems (Infra.lowerBound ourSorted lower)
          (Infra.lowerBound ourSorted range.upperBound) := by
  unfold rangeAction
  rw [hmode]
  rfl

/-- The three answers to a fingerprint range, with the tests that select them. -/
theorem rangeAction_fingerprint (hmode : range.mode = .fingerprint) {b e : Nat}
    (hb : Infra.lowerBound ourSorted lower = b)
    (he : Infra.lowerBound ourSorted range.upperBound = e) :
    (rangeAction ourSorted lower range = .confirmMatch b e ∧
        xorFingerprint ourSorted b e = range.fingerprint ∧
        UInt32.ofNat (sizeSub e b) = range.count) ∨
      (rangeAction ourSorted lower range = .sendItems b e ∧
        UInt32.ofNat (sizeSub e b) ≤ SPLIT_THRESHOLD) ∨
      (rangeAction ourSorted lower range = .split b e (sizeAdd b (sizeSub e b / 2)) ∧
        ¬UInt32.ofNat (sizeSub e b) ≤ SPLIT_THRESHOLD) := by
  unfold rangeAction
  simp only [hmode, rangeIndices, hb, he]
  split
  · next h => exact Or.inl ⟨rfl, h⟩
  · split
    · next h => exact Or.inr (Or.inl ⟨rfl, h⟩)
    · next h => exact Or.inr (Or.inr ⟨rfl, h⟩)

end

/-! ## The whole message -/

/-- The decisions `process_ranges` takes, range by range; `lower` is the running lower bound. -/
def rangeActions (ourSorted : List Hash32) (lower : Hash32) (ranges : List RangeEntry) :
    List RangeAction :=
  (withLower RangeEntry.upperBound lower ranges).map fun p => rangeAction ourSorted p.1 p.2

/-- The loop of `process_ranges` from the running lower bound on. -/
def processFrom (ourSorted : List Hash32) : Hash32 → List RangeEntry → Option ReconcileResult
  | _, [] => some ⟨[], [], true⟩
  | lower, range :: rest => do
    let r ← performAction ourSorted range (rangeAction ourSorted lower range)
    let rs ← processFrom ourSorted range.upperBound rest
    some ⟨r.responseRanges ++ rs.responseRanges, r.haveItems ++ rs.haveItems,
      r.complete && rs.complete⟩

def processRanges (ourSorted : List Hash32) (receivedRanges : List RangeEntry) :
    Option ReconcileResult :=
  processFrom ourSorted minHash receivedRanges

/-! ## Local simulation of the protocol -/

/-- The items of the `ItemList` ranges of a message. -/
def itemListItems (ranges : List RangeEntry) : List Hash32 :=
  (ranges.filter fun r => r.mode = .itemList).flatMap RangeEntry.items

/-- The full-range fingerprint the exchange starts with. -/
def initRange (sorted : List Hash32) : RangeEntry :=
  fingerprintEntry sorted 0 sorted.length maxHash

/-- The loop variables of `reconcile_local`. -/
structure LocalState where
  currentRanges : List RangeEntry
  aTurn : Bool
  itemsFromA : Finset Hash32
  itemsFromB : Finset Hash32

/-- Collect the items of the received ranges and of the answer for their owners. -/
def LocalState.collect (st : LocalState) (result : ReconcileResult) : LocalState :=
  let received := (itemListItems st.currentRanges ++ result.haveItems).toFinset
  let revealed := (itemListItems result.responseRanges).toFinset
  { st with
    itemsFromA := st.itemsFromA ∪ (if st.aTurn then revealed else received)
    itemsFromB := st.itemsFromB ∪ (if st.aTurn then received else revealed) }

/-- The rounds of `reconcile_local`, at most as many as the first argument says. -/
def localRounds (sortedA sortedB : List Hash32) : Nat → LocalState → Option LocalState
  | 0, st => some st
  | rounds + 1, st => do
    let result ← processRanges (if st.aTurn then sortedA else sortedB) st.currentRanges
    if result.complete then
      some (st.collect result)
    else
      localRounds sortedA sortedB rounds
        { st.collect result with currentRanges := result.responseRanges, aTurn := !st.aTurn }

/-- `(items of B missing from A, items of A missing from B)` as the protocol finds them. -/
def reconcileLocal (sortedA sortedB : List Hash32) : Option (List Hash32 × List Hash32) := do
  let st ← localRounds sortedA sortedB MAX_RECONCILE_ROUNDS
    { currentRanges := [initRange sortedA], aTurn := false, itemsFromA := ∅, itemsFromB := ∅ }
  some ((st.itemsFromB.filter (· ∉ sortedA)).sort (· ≤ ·),
    (st.itemsFromA.filter (· ∉ sortedB)).sort (· ≤ ·))

end Sync
