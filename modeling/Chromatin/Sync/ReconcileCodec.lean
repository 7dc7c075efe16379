import Chromatin.Sync.Reconciliation

/-!
# Wire format of the reconciliation messages (`sync/reconciliation.cpp`)

Encoders and decoders of `ReconcileInit`, `ReconcileRanges` and `ReconcileItems`. A decoder
walks the payload with an explicit offset and checks the remaining size before it reads, as the
source does. The overflow checks of the source (`checked_mul`, `checked_add`) guard products of a
32-bit count with 32 and cannot fail for a payload that fits in memory, so sizes are plain
numbers here.

* `decodeReconcileInit_encode`, `decodeReconcileRanges_encode`, `decodeReconcileItems_encode` —
  what one side encodes the other side decodes
-/

namespace Sync

open Infra Util

structure ReconcileInit where
  version : UInt8
  namespaceId : Hash32
  count : UInt32
  fingerprint : Hash32

structure DecodedRanges where
  namespaceId : Hash32
  ranges : List RangeEntry
  deriving DecidableEq

structure DecodedItems where
  namespaceId : Hash32
  items : List Hash32

/-! ## ReconcileInit -/

def encodeReconcileInit (init : ReconcileInit) : Bytes :=
  init.version :: (init.namespaceId.toList ++ (writeU32Be init.count ++ init.fingerprint.toList))

def decodeReconcileInit (payload : Bytes) : Option ReconcileInit := do
  guard (1 + 32 + 4 + 32 ≤ payload.length)
  let version ← payload[0]?
  guard (version = RECONCILE_VERSION)
  let namespaceId ← readFixed 32 payload 1
  let count ← readU32Be payload 33
  let fingerprint ← readFixed 32 payload 37
  some { version, namespaceId, count, fingerprint }

/-! ## ReconcileRanges -/

def RangeMode.toByte : RangeMode → UInt8
  | .skip => 0
  | .fingerprint => 1
  | .itemList => 2

/-- The mode a byte denotes; unknown modes are refused. -/
def RangeMode.ofByte : UInt8 → Option RangeMode
  | 0 => some .skip
  | 1 => some .fingerprint
  | 2 => some .itemList
  | _ => none

/-- The part of an entry that depends on its mode. -/
def encodeRangeBody (range : RangeEntry) : Bytes :=
  match range.mode with
  | .skip => []
  | .fingerprint => writeU32Be range.count ++ range.fingerprint.toList
  | .itemList => writeU32Be range.count ++ encodeHashes range.items

def encodeRangeEntry (range : RangeEntry) : Bytes :=
  range.upperBound.toList ++ (range.mode.toByte :: encodeRangeBody range)

def encodeReconcileRanges (namespaceId : Hash32) (ranges : List RangeEntry) : Bytes :=
  namespaceId.toList ++
    (writeU32Be (UInt32.ofNat ranges.length) ++ ranges.flatMap encodeRangeEntry)

/-- The part of an entry that depends on its mode, and the offset behind it. -/
def decodeRangeBody (payload : Bytes) (upperBound : Hash32) (mode : RangeMode) (offset : Nat) :
    Option (RangeEntry × Nat) :=
  match mode with
  | .skip => some ({ upperBound, mode }, offset)
  | .fingerprint => do
    guard (offset + 4 + 32 ≤ payload.length)
    let count ← readU32Be payload offset
    let fingerprint ← readFixed 32 payload (offset + 4)
    some ({ upperBound, mode, count, fingerprint }, offset + 4 + 32)
  | .itemList => do
    guard (offset + 4 ≤ payload.length)
    let count ← readU32Be payload offset
    guard (offset + 4 + count.toNat * 32 ≤ payload.length)
    let items ← decodeHashes payload count.toNat (offset + 4)
    some ({ upperBound, mode, count, items }, offset + 4 + count.toNat * 32)

/-- One entry of a `ReconcileRanges` payload and the offset behind it. -/
def decodeRangeEntry (payload : Bytes) (offset : Nat) : Option (RangeEntry × Nat) := do
  guard (offset + 33 ≤ payload.length)
  let upperBound ← readFixed 32 payload offset
  let mode ← payload[offset + 32]? >>= RangeMode.ofByte
  decodeRangeBody payload upperBound mode (offset + 33)

def decodeRangeEntries (payload : Bytes) : Nat → Nat → Option (List RangeEntry)
  | 0, _ => some []
  | n + 1, offset => do
    let (entry, offset) ← decodeRangeEntry payload offset
    let rest ← decodeRangeEntries payload n offset
    some (entry :: rest)

def decodeReconcileRanges (payload : Bytes) : Option DecodedRanges := do
  guard (32 + 4 ≤ payload.length)
  let namespaceId ← readFixed 32 payload 0
  let rangeCount ← readU32Be payload 32
  let ranges ← decodeRangeEntries payload rangeCount.toNat 36
  some { namespaceId, ranges }

/-! ## ReconcileItems -/

def encodeReconcileItems (namespaceId : Hash32) (items : List Hash32) : Bytes :=
  namespaceId.toList ++ (writeU32Be (UInt32.ofNat items.length) ++ encodeHashes items)

def decodeReconcileItems (payload : Bytes) : Option DecodedItems := do
  guard (32 + 4 ≤ payload.length)
  let namespaceId ← readFixed 32 payload 0
  let count ← readU32Be payload 32
  guard (36 + count.toNat * 32 ≤ payload.length)
  let items ← decodeHashes payload count.toNat 36
  some { namespaceId, items }

/-! ## Round trips -/

/-- The fields an entry does not transmit have their default values, and an item list announces
its own length. -/
def RangeEntry.Canonical (range : RangeEntry) : Prop :=
  match range.mode with
  | .skip => range.count = 0 ∧ range.fingerprint = minHash ∧ range.items = []
  | .fingerprint => range.items = []
  | .itemList => range.fingerprint = minHash ∧ range.count.toNat = range.items.length

theorem RangeMode.ofByte_toByte (mode : RangeMode) : RangeMode.ofByte mode.toByte = some mode := by
  cases mode <;> rfl

theorem decodeRangeBody_append {range : RangeEntry} (hc : range.Canonical) (pre post : Bytes) :
    decodeRangeBody (pre ++ (encodeRangeBody range ++ post)) range.upperBound range.mode pre.length
      = some (range, pre.length + (encodeRangeBody range).length) := by
  obtain ⟨upperBound, mode, count, fingerprint, items⟩ := range
  cases mode with
  | skip =>
    obtain ⟨rfl, rfl, rfl⟩ := hc
    rfl
  | fingerprint =>
    obtain rfl : items = [] := hc
    simp [encodeRangeBody, decodeRangeBody, guard, ← Nat.add_assoc]
  | itemList =>
    obtain ⟨rfl, hlen⟩ := hc
    simp only at hlen
    simp [encodeRangeBody, decodeRangeBody, guard, hlen, Nat.add_assoc]

/-- **One entry is read back, and the reader stops right behind it.** -/
theorem decodeRangeEntry_append {range : RangeEntry} (hc : range.Canonical) (pre post : Bytes) :
    decodeRangeEntry (pre ++ (encodeRangeEntry range ++ post)) pre.length
      = some (range, pre.length + (encodeRangeEntry range).length) := by
  have hbody := decodeRangeBody_append hc
    (pre ++ (range.upperBound.toList ++ [range.mode.toByte])) post
  simp only [List.append_assoc, List.length_append, range.upperBound.toList_length,
    List.length_singleton, List.cons_append, List.nil_append] at hbody
  simp only [decodeRangeEntry, encodeRangeEntry, List.append_assoc, List.cons_append]
  rw [guard_bind (by simp; omega)]
  simp [RangeMode.ofByte_toByte, hbody]
  omega

theorem decodeRangeEntries_append : ∀ (ranges : List RangeEntry) (pre post : Bytes),
    (∀ r ∈ ranges, r.Canonical) →
    decodeRangeEntries (pre ++ (ranges.flatMap encodeRangeEntry ++ post)) ranges.length pre.length
      = some ranges
  | [], _, _, _ => rfl
  | r :: rest, pre, post, hc => by
    have hentry := decodeRangeEntry_append (hc r (List.mem_cons_self ..)) pre
      (rest.flatMap encodeRangeEntry ++ post)
    have ih := decodeRangeEntries_append rest (pre ++ encodeRangeEntry r) post
      fun x hx => hc x (List.mem_cons_of_mem _ hx)
    rw [List.append_assoc, List.length_append] at ih
    rw [List.flatMap_cons, List.append_assoc, List.length_cons, decodeRangeEntries, hentry]
    simp [ih]

/-- **A range message is decoded to the ranges that were encoded.** -/
theorem decodeReconcileRanges_encode (namespaceId : Hash32) {ranges : List RangeEntry}
    (hlen : ranges.length < 2 ^ 32) (hc : ∀ r ∈ ranges, r.Canonical) :
    decodeReconcileRanges (encodeReconcileRanges namespaceId ranges)
      = some { namespaceId, ranges } := by
  have hcount : (UInt32.ofNat ranges.length).toNat = ranges.length := UInt32.toNat_ofNat_of_lt' hlen
  have hentries := decodeRangeEntries_append ranges
    (namespaceId.toList ++ writeU32Be (UInt32.ofNat ranges.length)) [] hc
  simp only [List.append_nil, List.append_assoc, List.length_append, namespaceId.toList_length,
    length_writeU32Be] at hentries
  simp [decodeReconcileRanges, encodeReconcileRanges, guard, ← Nat.add_assoc,
    -UInt32.toNat_ofNat', hcount, hentries]

/-- **An item message is decoded to the items that were encoded.** -/
theorem decodeReconcileItems_encode (namespaceId : Hash32) {items : List Hash32}
    (hlen : items.length < 2 ^ 32) :
    decodeReconcileItems (encodeReconcileItems namespaceId items)
      = some { namespaceId, items } := by
  have hcount : (UInt32.ofNat items.length).toNat = items.length := UInt32.toNat_ofNat_of_lt' hlen
  simp [decodeReconcileItems, encodeReconcileItems, guard, ← Nat.add_assoc,
    -UInt32.toNat_ofNat', hcount]

/-- **An init message of the current version is decoded to itself.** -/
theorem decodeReconcileInit_encode {init : ReconcileInit} (hv : init.version = RECONCILE_VERSION) :
    decodeReconcileInit (encodeReconcileInit init) = some init := by
  obtain ⟨version, namespaceId, count, fingerprint⟩ := init
  obtain rfl : version = RECONCILE_VERSION := hv
  simp [decodeReconcileInit, encodeReconcileInit, guard]

end Sync
