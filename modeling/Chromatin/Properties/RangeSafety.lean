import Chromatin.Sync.ReconcileCodec

/-!
# Index safety of `process_ranges`

The bounds of a range come from the peer, and the lower bound of a range is whatever the peer
sent as the upper bound of the one before. Nothing makes them ascend.

* `processRanges_inBounds_iff` — the indices used for a message are in bounds exactly when no local
  hash lies between a range's upper bound and a larger preceding bound
* `processRanges_outOfBounds` — a message of two descending ranges that the decoder accepts makes
  `process_ranges` split at index `2 ^ 63` of a one-element list
* `processFrom_isSome_of_inBounds` — in bounds, no access leaves the local list
-/

namespace Sync

open Infra Util

variable {ourSorted : List Hash32}

/-- The index pair an action took from `range_indices`. -/
def RangeAction.indexPair : RangeAction → Option (Nat × Nat)
  | .echoSkip => none
  | .answerItems b e => some (b, e)
  | .confirmMatch b e => some (b, e)
  | .sendItems b e => some (b, e)
  | .split b e _ => some (b, e)

/-- The index an action dereferences to split its range. -/
def RangeAction.splitIndex : RangeAction → Option Nat
  | .split _ _ mid => some mid
  | _ => none

/-- Every index the action uses is in bounds of a list of `n` hashes. -/
def RangeAction.InBounds (n : Nat) (action : RangeAction) : Prop :=
  (∀ b e, action.indexPair = some (b, e) → b ≤ e ∧ e ≤ n) ∧
    ∀ mid, action.splitIndex = some mid → mid < n

/-- No local hash lies at or above the upper bound of a range and below its lower bound. -/
def BoundsAscend (ourSorted : List Hash32) (lower : Hash32) (range : RangeEntry) : Prop :=
  ∀ h ∈ ourSorted, ¬(range.upperBound ≤ h ∧ h < lower)

/-! ## Index arithmetic -/

theorem sizeSub_le {b e : Nat} (h : b ≤ e) : sizeSub e b ≤ e - b := by
  unfold sizeSub
  omega

/-- The midpoint of a range the code decided to split is an index inside the range. -/
theorem midpoint_lt {b e : Nat} (h : b ≤ e)
    (hcount : ¬UInt32.ofNat (sizeSub e b) ≤ SPLIT_THRESHOLD) :
    sizeAdd b (sizeSub e b / 2) < e := by
  have hsub := sizeSub_le h
  have hlarge : 0 < sizeSub e b := by
    rcases Nat.eq_zero_or_pos (sizeSub e b) with h0 | hpos
    · rw [h0] at hcount
      exact absurd (by decide) hcount
    · exact hpos
  unfold sizeAdd
  omega

/-! ## One range -/

/-- Every range that is not skipped uses the index pair of its bounds. -/
theorem indexPair_rangeAction {lower : Hash32} {range : RangeEntry}
    (hmode : range.mode ≠ .skip) :
    (rangeAction ourSorted lower range).indexPair
      = some (rangeIndices ourSorted lower range.upperBound) := by
  cases hm : range.mode with
  | skip => exact absurd hm hmode
  | itemList =>
    rw [rangeAction_itemList ourSorted lower hm]
    rfl
  | fingerprint =>
    rcases rangeAction_fingerprint ourSorted lower hm rfl rfl with
      ⟨h, _⟩ | ⟨h, _⟩ | ⟨h, _⟩ <;> rw [h] <;> rfl

/-- The split index of a range whose index pair is in order lies in the local list. -/
theorem splitIndex_lt {lower : Hash32} {range : RangeEntry} {mid : Nat}
    (hle : Infra.lowerBound ourSorted lower ≤ Infra.lowerBound ourSorted range.upperBound)
    (hmid : (rangeAction ourSorted lower range).splitIndex = some mid) :
    mid < ourSorted.length := by
  cases hm : range.mode with
  | skip => simp [rangeAction_skip ourSorted lower hm, RangeAction.splitIndex] at hmid
  | itemList => simp [rangeAction_itemList ourSorted lower hm, RangeAction.splitIndex] at hmid
  | fingerprint =>
    rcases rangeAction_fingerprint ourSorted lower hm rfl rfl with
      ⟨h, _⟩ | ⟨h, _⟩ | ⟨h, hcount⟩
    · simp [h, RangeAction.splitIndex] at hmid
    · simp [h, RangeAction.splitIndex] at hmid
    · rw [h, RangeAction.splitIndex, Option.some.injEq] at hmid
      rw [← hmid]
      exact Nat.lt_of_lt_of_le (midpoint_lt hle hcount) (lowerBound_le_length _ _)

theorem rangeAction_inBounds_iff (hs : ourSorted.Pairwise (· ≤ ·))
    (lower : Hash32) (range : RangeEntry) :
    (rangeAction ourSorted lower range).InBounds ourSorted.length ↔
      (range.mode ≠ .skip → BoundsAscend ourSorted lower range) := by
  constructor
  · intro ⟨hpair, _⟩ hmode
    exact (lowerBound_le_lowerBound_iff hs _ _).mp (hpair _ _ (indexPair_rangeAction hmode)).1
  · intro hasc
    by_cases hmode : range.mode = .skip
    · rw [rangeAction_skip ourSorted lower hmode]
      exact ⟨fun b e h => by simp [RangeAction.indexPair] at h,
        fun mid h => by simp [RangeAction.splitIndex] at h⟩
    · have hle := (lowerBound_le_lowerBound_iff hs _ _).mpr (hasc hmode)
      refine ⟨fun b e h => ?_, fun mid h => splitIndex_lt hle h⟩
      rw [indexPair_rangeAction hmode, rangeIndices, Option.some.injEq, Prod.mk.injEq] at h
      obtain ⟨rfl, rfl⟩ := h
      exact ⟨hle, lowerBound_le_length _ _⟩

/-! ## The whole message -/

/-- In bounds, carrying out the decision accesses nothing outside the local list. -/
theorem performAction_isSome {action : RangeAction} (range : RangeEntry)
    (h : action.InBounds ourSorted.length) : (performAction ourSorted range action).isSome := by
  obtain ⟨hpair, hsplit⟩ := h
  cases action with
  | echoSkip => rfl
  | confirmMatch b e => rfl
  | answerItems b e => simp [performAction, assignRange, hpair b e rfl]
  | sendItems b e => simp [performAction, assignRange, hpair b e rfl]
  | split b e mid => simp [performAction, List.getElem?_eq_getElem (hsplit mid rfl)]

/-- **In bounds, `process_ranges` reads nothing outside the local list.** -/
theorem processFrom_isSome_of_inBounds :
    ∀ {lower : Hash32} {ranges : List RangeEntry},
    (∀ a ∈ rangeActions ourSorted lower ranges, a.InBounds ourSorted.length) →
    (processFrom ourSorted lower ranges).isSome
  | _, [], _ => rfl
  | lower, range :: rest, h => by
    have hrest : (processFrom ourSorted range.upperBound rest).isSome :=
      processFrom_isSome_of_inBounds fun a ha => h a (List.mem_cons_of_mem _ ha)
    obtain ⟨r, hr⟩ := Option.isSome_iff_exists.mp
      (performAction_isSome range (h _ (List.mem_cons_self ..)))
    obtain ⟨rs, hrs⟩ := Option.isSome_iff_exists.mp hrest
    simp [processFrom, hr, hrs]

/-- **The indices used for a range message are in bounds exactly when the bounds of no range enclose
a local hash the wrong way round**, whatever its ranges. -/
theorem processRanges_inBounds_iff {ourSorted : List Hash32} (hs : ourSorted.Pairwise (· ≤ ·))
    (ranges : List RangeEntry) :
    (∀ a ∈ rangeActions ourSorted minHash ranges, a.InBounds ourSorted.length) ↔
      ∀ p ∈ withLower RangeEntry.upperBound minHash ranges,
        p.2.mode ≠ .skip → BoundsAscend ourSorted p.1 p.2 := by
  rw [rangeActions, List.forall_mem_map]
  exact forall₂_congr fun p _ => rangeAction_inBounds_iff hs p.1 p.2

/-! ## A hostile message -/

/-- A skipped range up to the largest hash, then a fingerprint range up to the smallest one. -/
def descendingRanges : List RangeEntry :=
  [{ upperBound := maxHash, mode := .skip },
    { upperBound := minHash, mode := .fingerprint, count := 1, fingerprint := minHash }]

def descendingPayload : Bytes := encodeReconcileRanges minHash descendingRanges

/-- A local list of one hash. -/
def oneHash : List Hash32 := [FixedBytes.fill 32 1]

theorem decode_descendingPayload :
    decodeReconcileRanges descendingPayload = some ⟨minHash, descendingRanges⟩ := by
  refine decodeReconcileRanges_encode minHash (by decide) ?_
  simp [descendingRanges, RangeEntry.Canonical]

/-- For that message the local count wraps around and the range is split far outside the list. -/
theorem rangeActions_descendingRanges :
    rangeActions oneHash minHash descendingRanges = [.echoSkip, .split 1 0 (2 ^ 63)] := by
  decide

/-- **A decoded message can make `process_ranges` use an inverted index pair and dereference an
index outside the local list.** -/
theorem processRanges_outOfBounds :
    ¬∀ (ourSorted : List Hash32) (payload : Bytes) (decoded : DecodedRanges),
      ourSorted.Pairwise (· ≤ ·) → decodeReconcileRanges payload = some decoded →
      ∀ a ∈ rangeActions ourSorted minHash decoded.ranges, a.InBounds ourSorted.length := by
  intro h
  have hbad := h oneHash descendingPayload _ (List.pairwise_singleton ..) decode_descendingPayload
    (.split 1 0 (2 ^ 63)) (by simp [rangeActions_descendingRanges])
  have hpair := (hbad.1 1 0 rfl).1
  omega

def twoHashes : List Hash32 := [FixedBytes.fill 32 1, FixedBytes.fill 32 3]

/-- A fingerprint range up to a hash between the two, then a list with an item. -/
def ascendingRanges : List RangeEntry :=
  [{ upperBound := FixedBytes.fill 32 2, mode := .fingerprint, count := 1, fingerprint := minHash },
    { upperBound := maxHash, mode := .itemList, count := 1, items := [FixedBytes.fill 32 4] }]

/-- A message with ascending bounds, whose indices are all in bounds. -/
theorem processRanges_inBounds_ascending :
    decodeReconcileRanges (encodeReconcileRanges minHash ascendingRanges) =
      some ⟨minHash, ascendingRanges⟩ ∧
    rangeActions twoHashes minHash ascendingRanges = [.sendItems 0 1, .answerItems 1 2] ∧
    ∀ a ∈ rangeActions twoHashes minHash ascendingRanges, a.InBounds twoHashes.length := by
  refine ⟨decodeReconcileRanges_encode minHash (by decide)
    (by simp [ascendingRanges, RangeEntry.Canonical]), by decide,
    (processRanges_inBounds_iff (by decide) _).mpr ?_⟩
  intro p hp _ h hmem hlt
  simp only [ascendingRanges, withLower, List.mem_cons, List.not_mem_nil, or_false] at hp
  rcases hp with rfl | rfl
  · exact absurd hlt.2 (not_lt.mpr (minHash_le h))
  · have hbelow : twoHashes.all (· < maxHash) = true := by decide
    exact absurd hlt.1 (not_le.mpr (of_decide_eq_true (List.all_eq_true.mp hbelow h hmem)))

end Sync
