import Chromatin.Sync.SpanDecoders
import Chromatin.Wire.Sample

/-!
# The sync codecs

What one side encodes the other side decodes, and no payload makes a decoder read outside of it. The
second part compares the decoders read by read (`Sync.Spans`) with the bounds-checked ones: as long
as an offset is inside the payload, sums of sizes do not wrap and a check is what it says.

* `readsInside` — the decoders read by read are the bounds-checked ones, so that no read is outside
* `fitsIn` — what is returned is no longer than the payload
* `sync_codecs` — both parts, for all messages
-/

namespace Sync

open Infra Util Wire Storage Access

variable {bytes : Bytes}

/-! ## Reads -/

section Reads

variable {payload : Span} {offset : Nat}

theorem fetchU32_eq_lift (h : offset + 4 ≤ payload.size) :
    payload.fetchU32 offset = lift (readU32Be payload.bytes offset) := by
  rw [Span.fetchU32, Span.fetch_eq_lift h, readU32Be]
  cases readFixed 4 payload.bytes offset <;> rfl

theorem fetchU64_eq_lift (h : offset + 8 ≤ payload.size) :
    payload.fetchU64 offset = lift (readU64Be payload.bytes offset) := by
  rw [Span.fetchU64, Span.fetch_eq_lift h, readU64Be]
  cases readFixed 8 payload.bytes offset <;> rfl

/-- An offset and a few bytes more do not wrap. -/
theorem addSize_eq (payload : Span) {offset n : Nat} (h : offset ≤ payload.size) (hn : n < 2 ^ 63) :
    addSize offset n = offset + n := by
  have hsize : payload.size < 2 ^ 63 := payload.size_lt
  exact addSize_of_lt (by omega)

theorem decodeHashes_eq : ∀ (n : Nat) {offset : Nat}, offset + n * 32 ≤ payload.size →
    Spans.decodeHashes payload n offset = lift (decodeHashes payload.bytes n offset)
  | 0, _, _ => rfl
  | n + 1, offset, h => by
    have hnext : addSize offset 32 = offset + 32 := addSize_eq payload (by omega) (by decide)
    have ih : Spans.decodeHashes payload n (offset + 32) = _ := decodeHashes_eq n (by omega)
    rw [Spans.decodeHashes, Util.decodeHashes, hnext]
    refine bind_eq_lift (Span.fetch_eq_lift (by omega)) fun item _ => ?_
    exact bind_eq_lift ih fun rest _ => rfl

/-- As many hashes as there is room for are read. -/
theorem exists_decodeHashes : ∀ (n : Nat) {offset : Nat}, offset + n * 32 ≤ bytes.length →
    ∃ items, decodeHashes bytes n offset = some items ∧ items.length = n
  | 0, _, _ => ⟨[], rfl, rfl⟩
  | n + 1, offset, h => by
    obtain ⟨item, hitem⟩ : ∃ item, readFixed 32 bytes offset = some item :=
      exists_readFixed (by omega)
    obtain ⟨rest, hrest, hlength⟩ := exists_decodeHashes n (show offset + 32 + n * 32 ≤ _ by omega)
    exact ⟨item :: rest,
      by simp [Util.decodeHashes, hitem, hrest], by rw [List.length_cons, hlength]⟩

theorem length_decodeHashes {n offset : Nat} {items : List Hash32}
    (hfits : offset + n * 32 ≤ bytes.length)
    (h : decodeHashes bytes n offset = some items) : items.length = n := by
  obtain ⟨_, hread, hlength⟩ := exists_decodeHashes n hfits
  rwa [← Option.some.inj (h.symm.trans hread)] at hlength

end Reads

/-! ## Reconciliation -/

section Reconciliation

variable {payload : Span} {offset : Nat}

theorem decodeReconcileInit_eq (payload : Span) :
    Spans.decodeReconcileInit payload = lift (decodeReconcileInit payload.bytes) := by
  refine require_eq_lift fun hsize => ?_
  refine bind_eq_lift (Span.byte_eq_lift (by omega)) fun version _ => ?_
  refine require_eq_lift fun _ => ?_
  refine bind_eq_lift (Span.fetch_eq_lift (by omega)) fun namespaceId _ => ?_
  refine bind_eq_lift (fetchU32_eq_lift (by omega)) fun count _ => ?_
  exact bind_eq_lift (Span.fetch_eq_lift (by omega)) fun fingerprint _ => rfl

/-- The part of an entry that depends on its mode: the checks do not wrap. -/
theorem decodeRangeBody_eq (hoffset : offset ≤ payload.size) (upperBound : Hash32)
    (mode : RangeMode) :
    Spans.decodeRangeBody payload upperBound mode offset =
      lift (decodeRangeBody payload.bytes upperBound mode offset) := by
  have hsize : payload.size < 2 ^ 63 := payload.size_lt
  have hcount : addSize offset 4 = offset + 4 := addSize_eq payload hoffset (by decide)
  cases mode with
  | skip => rfl
  | fingerprint =>
    have hbody : addSize (offset + 4) 32 = offset + 4 + 32 := addSize_of_lt (by omega)
    rw [Spans.decodeRangeBody, hcount, hbody]
    refine require_eq_lift fun hfits => ?_
    refine bind_eq_lift (fetchU32_eq_lift (by omega)) fun count _ => ?_
    dsimp only
    rw [hbody]
    exact bind_eq_lift (Span.fetch_eq_lift (by omega)) fun fingerprint _ => rfl
  | itemList =>
    rw [Spans.decodeRangeBody, hcount]
    refine require_eq_lift fun hfits => ?_
    refine bind_eq_lift (fetchU32_eq_lift hfits) fun count _ => ?_
    have hbound : count.toNat < 2 ^ 32 := count.toNat_lt
    have hmul : checkedMul count.toNat 32 = some (count.toNat * 32) := checkedMul_of_lt (by omega)
    have hadd : checkedAdd (offset + 4) (count.toNat * 32) = some (offset + 4 + count.toNat * 32) :=
      checkedAdd_of_lt (by omega)
    have hnext : addSize (offset + 4) (count.toNat * 32) = offset + 4 + count.toNat * 32 :=
      addSize_of_lt (by omega)
    dsimp only
    rw [hmul, hnext]
    change (lift (checkedAdd (offset + 4) (count.toNat * 32)) >>= _) = _
    rw [hadd]
    refine require_eq_lift fun hitems => ?_
    exact bind_eq_lift (decodeHashes_eq _ hitems) fun items _ => rfl

/-- An entry ends in the payload, and has its fixed part and its items in it. -/
theorem decodeRangeBody_next {upperBound : Hash32} {mode : RangeMode} {entry : RangeEntry}
    {next : Nat} (hoffset : offset ≤ bytes.length)
    (h : decodeRangeBody bytes upperBound mode offset = some (entry, next)) :
    offset + 32 * entry.items.length ≤ next ∧ next ≤ bytes.length := by
  cases mode with
  | skip =>
    obtain ⟨rfl, rfl⟩ := Prod.mk.inj (Option.some.inj h)
    exact ⟨le_rfl, hoffset⟩
  | fingerprint =>
    simp only [decodeRangeBody, Option.bind_eq_bind, Option.bind_eq_some_iff, guard_eq_some] at h
    obtain ⟨-, hfits, count, -, fingerprint, -, hentry⟩ := h
    obtain ⟨rfl, rfl⟩ := Prod.mk.inj (Option.some.inj hentry)
    exact ⟨by simp; omega, hfits⟩
  | itemList =>
    simp only [decodeRangeBody, Option.bind_eq_bind, Option.bind_eq_some_iff, guard_eq_some] at h
    obtain ⟨-, -, count, -, -, hfits, items, hitems, hentry⟩ := h
    obtain ⟨rfl, rfl⟩ := Prod.mk.inj (Option.some.inj hentry)
    have hlength := length_decodeHashes hfits hitems
    exact ⟨by dsimp only; omega, hfits⟩

theorem decodeRangeEntry_eq (hoffset : offset ≤ payload.size) :
    Spans.decodeRangeEntry payload offset = lift (decodeRangeEntry payload.bytes offset) := by
  have hsize : payload.size < 2 ^ 63 := payload.size_lt
  have hfixed : addSize offset 33 = offset + 33 := addSize_eq payload hoffset (by decide)
  have hmode : addSize offset 32 = offset + 32 := addSize_eq payload hoffset (by decide)
  have hbody : addSize (offset + 32) 1 = offset + 33 := addSize_of_lt (by omega)
  rw [Spans.decodeRangeEntry, decodeRangeEntry, hfixed]
  refine require_eq_lift fun hfits => ?_
  refine bind_eq_lift (Span.fetch_eq_lift (by omega)) fun upperBound _ => ?_
  dsimp only
  rw [hmode, hbody, bind_assoc]
  refine bind_eq_lift (Span.byte_eq_lift (by omega)) fun byte _ => ?_
  exact bind_eq_lift rfl fun mode _ => decodeRangeBody_eq hfits upperBound mode

theorem decodeRangeEntry_next {entry : RangeEntry} {next : Nat}
    (h : decodeRangeEntry bytes offset = some (entry, next)) :
    offset + (33 + 32 * entry.items.length) ≤ next ∧ next ≤ bytes.length := by
  simp only [decodeRangeEntry, Option.bind_eq_bind, Option.bind_eq_some_iff, guard_eq_some] at h
  obtain ⟨-, hfits, upperBound, -, mode, -, hbody⟩ := h
  obtain ⟨hitems, hnext⟩ := decodeRangeBody_next hfits hbody
  exact ⟨by omega, hnext⟩

theorem decodeRangeEntries_eq : ∀ (n : Nat) {offset : Nat}, offset ≤ payload.size →
    Spans.decodeRangeEntries payload n offset = lift (decodeRangeEntries payload.bytes n offset)
  | 0, _, _ => rfl
  | n + 1, offset, hoffset => by
    refine bind_eq_lift (decodeRangeEntry_eq hoffset) fun ⟨entry, next⟩ hentry => ?_
    -- the offset behind an entry is inside the payload again
    exact bind_eq_lift (decodeRangeEntries_eq n (decodeRangeEntry_next hentry).2) fun rest _ => rfl

/-- The entries stand one behind the other in the payload. -/
theorem decodeRangeEntries_size : ∀ {n offset : Nat} {entries : List RangeEntry},
    offset ≤ bytes.length → decodeRangeEntries bytes n offset = some entries →
    entries.length = n ∧ offset + (entries.map fun entry => 33 + 32 * entry.items.length).sum ≤
    bytes.length
  | 0, offset, entries, hoffset, h => by
    obtain rfl := Option.some.inj h
    simpa using hoffset
  | n + 1, offset, entries, _, h => by
    simp only [decodeRangeEntries, Option.bind_eq_bind, Option.bind_eq_some_iff] at h
    obtain ⟨⟨entry, next⟩, hentry, rest, hrest, hentries⟩ := h
    obtain rfl := Option.some.inj hentries
    obtain ⟨hstep, hnext⟩ := decodeRangeEntry_next hentry
    obtain ⟨hlength, hsum⟩ := decodeRangeEntries_size hnext hrest
    simp only [List.length_cons, List.map_cons, List.sum_cons]
    exact ⟨by omega, by omega⟩

theorem decodeReconcileRanges_eq (payload : Span) :
    Spans.decodeReconcileRanges payload = lift (decodeReconcileRanges payload.bytes) := by
  refine require_eq_lift fun hsize => ?_
  refine bind_eq_lift (Span.fetch_eq_lift (by omega)) fun namespaceId _ => ?_
  refine bind_eq_lift (fetchU32_eq_lift (by omega)) fun rangeCount _ => ?_
  exact bind_eq_lift (decodeRangeEntries_eq _ hsize) fun ranges _ => rfl

theorem decodeReconcileItems_eq (payload : Span) :
    Spans.decodeReconcileItems payload = lift (decodeReconcileItems payload.bytes) := by
  refine require_eq_lift fun hsize => ?_
  refine bind_eq_lift (Span.fetch_eq_lift (by omega)) fun namespaceId _ => ?_
  refine bind_eq_lift (fetchU32_eq_lift (by omega)) fun count _ => ?_
  have hbound : count.toNat < 2 ^ 32 := count.toNat_lt
  have hmul : checkedMul count.toNat 32 = some (count.toNat * 32) := checkedMul_of_lt (by omega)
  have hadd : checkedAdd 36 (count.toNat * 32) = some (36 + count.toNat * 32) :=
    checkedAdd_of_lt (by omega)
  rw [hmul]
  change (lift (checkedAdd 36 (count.toNat * 32)) >>= _) = _
  rw [hadd]
  refine require_eq_lift fun hfits => ?_
  exact bind_eq_lift (decodeHashes_eq _ hfits) fun items _ => rfl

end Reconciliation

/-! ## Sync messages -/

section Messages

variable {payload : Span} {offset : Nat}

theorem decodeNamespaceInfos_eq : ∀ (n : Nat) {offset : Nat}, offset + n * 40 ≤ payload.size →
    Spans.decodeNamespaceInfos payload n offset = lift (decodeNamespaceInfos payload.bytes n offset)
  | 0, _, _ => rfl
  | n + 1, offset, h => by
    have hseq : addSize offset 32 = offset + 32 := addSize_eq payload (by omega) (by decide)
    have hnext : addSize (offset + 32) 8 = offset + 40 := addSize_eq payload (by omega) (by decide)
    have ih : Spans.decodeNamespaceInfos payload n (offset + 40) = _ :=
      decodeNamespaceInfos_eq n (by omega)
    refine bind_eq_lift (Span.fetch_eq_lift (by omega)) fun namespaceId _ => ?_
    dsimp only
    rw [hseq, hnext]
    refine bind_eq_lift (fetchU64_eq_lift (by omega)) fun latestSeqNum _ => ?_
    exact bind_eq_lift ih fun rest _ => rfl

theorem exists_decodeNamespaceInfos : ∀ (n : Nat) {offset : Nat}, offset + n * 40 ≤ bytes.length →
    ∃ infos, decodeNamespaceInfos bytes n offset = some infos ∧ infos.length = n
  | 0, _, _ => ⟨[], rfl, rfl⟩
  | n + 1, offset, h => by
    obtain ⟨namespaceId, hns⟩ : ∃ a, readFixed 32 bytes offset = some a :=
      exists_readFixed (by omega)
    obtain ⟨seq, hseq⟩ : ∃ b, readFixed 8 bytes (offset + 32) = some b :=
      exists_readFixed (by omega)
    obtain ⟨rest, hrest, hlength⟩ :=
      exists_decodeNamespaceInfos n (show offset + 40 + n * 40 ≤ _ by omega)
    exact ⟨_, by simp [decodeNamespaceInfos, hns, readU64Be, hseq, hrest]; rfl, by simp [hlength]⟩

theorem expectedSize_eq {header count entry : Nat} (h : header + count * entry < 2 ^ 64) :
    Spans.expectedSize header count entry = some (header + count * entry) := by
  have hmul : checkedMul count entry = some (count * entry) := checkedMul_of_lt (by omega)
  rw [Spans.expectedSize, hmul]
  exact checkedAdd_of_lt h

theorem readU32Be_eq_none (h : bytes.length < offset + 4) : readU32Be bytes offset = none := by
  rw [readU32Be, readFixed_eq_none (by decide) h, Option.map_none]

theorem exists_readU32Be (h : offset + 4 ≤ bytes.length) :
    ∃ count, readU32Be bytes offset = some count := by
  obtain ⟨a, ha⟩ : ∃ a, readFixed 4 bytes offset = some a := exists_readFixed h
  exact ⟨_, by rw [readU32Be, ha]; rfl⟩

/-- Every payload is answered with a list, without a read outside. -/
theorem decodeNamespaceList_eq (payload : Span) :
    Spans.decodeNamespaceList payload = .ok (decodeNamespaceList payload.bytes) := by
  rw [Spans.decodeNamespaceList, decodeNamespaceList, payload.length_bytes]
  by_cases hshort : payload.size < 4
  · rw [if_pos hshort, readU32Be_eq_none (by rw [payload.length_bytes]; omega)]
    rfl
  · have hsize : 0 + 4 ≤ payload.size := by omega
    obtain ⟨count, hread⟩ := exists_readU32Be hsize
    have hbound : count.toNat < 2 ^ 32 := count.toNat_lt
    have hexpected : Spans.expectedSize 4 count.toNat 40 = some (4 + count.toNat * 40) :=
      expectedSize_eq (by omega)
    rw [if_neg hshort, fetchU32_eq_lift hsize, hread, lift_some, ok_bind]
    dsimp only
    rw [hexpected]
    dsimp only
    by_cases hfits : payload.size < 4 + count.toNat * 40
    · rw [if_pos hfits, if_pos hfits]
      rfl
    · obtain ⟨infos, hinfos, -⟩ := exists_decodeNamespaceInfos count.toNat (Nat.le_of_not_lt hfits)
      rw [if_neg hfits, if_neg hfits, decodeNamespaceInfos_eq _ (Nat.le_of_not_lt hfits), hinfos]
      rfl

theorem decodeBlobRequest_eq (payload : Span) :
    Spans.decodeBlobRequest payload = .ok (decodeBlobRequest payload.bytes) := by
  rw [Spans.decodeBlobRequest, decodeBlobRequest]
  have hbytes := payload.length_bytes
  by_cases hshort : payload.size < 36
  · rw [if_pos hshort, if_pos (hbytes ▸ hshort)]
    rfl
  · have hsize : 32 + 4 ≤ payload.size := by omega
    obtain ⟨ns, hns⟩ : ∃ a, readFixed 32 payload.bytes 0 = some a :=
      exists_readFixed (by rw [payload.length_bytes]; omega)
    obtain ⟨count, hread⟩ := exists_readU32Be hsize
    have hbound : count.toNat < 2 ^ 32 := count.toNat_lt
    have hexpected : Spans.expectedSize 36 count.toNat 32 = some (36 + count.toNat * 32) :=
      expectedSize_eq (by omega)
    rw [if_neg hshort, if_neg (hbytes ▸ hshort), Span.fetch_eq_lift (by omega), hns,
      fetchU32_eq_lift hsize, hread, lift_some, lift_some, ok_bind, ok_bind]
    dsimp only
    rw [hexpected]
    dsimp only
    by_cases hfits : payload.size < 36 + count.toNat * 32
    · rw [if_pos hfits, if_pos (hbytes ▸ hfits)]
      rfl
    · obtain ⟨items, hitems, -⟩ := exists_decodeHashes count.toNat (Nat.le_of_not_lt hfits)
      rw [if_neg hfits, if_neg (hbytes ▸ hfits), decodeHashes_eq _ (Nat.le_of_not_lt hfits), hitems]
      rfl

/-! ## Transfers -/

variable (P : Primitives)

theorem fieldEnd_eq (hoffset : offset ≤ payload.size) {n : Nat} (hn : n < 2 ^ 32) :
    Spans.fieldEnd payload offset n = if payload.size < offset + n then none
    else some (offset + n) := by
  have hsize : payload.size < 2 ^ 63 := payload.size_lt
  have hadd : checkedAdd offset n = some (offset + n) := checkedAdd_of_lt (by omega)
  rw [Spans.fieldEnd, hadd]
  rfl

/-- The loop breaks off where an entry leaves the payload. -/
theorem decodeTransferEntries_eq : ∀ (n : Nat) {offset : Nat}, offset ≤ payload.size →
    Spans.decodeTransferEntries P payload n offset =
      lift (decodeTransferEntries P payload.bytes n offset)
  | 0, _, _ => rfl
  | n + 1, offset, hoffset => by
    have hbytes := payload.length_bytes
    rw [Spans.decodeTransferEntries, decodeTransferEntries, fieldEnd_eq hoffset (by decide)]
    by_cases hns : payload.size < offset + 32
    · rw [if_pos hns, readFixed_eq_none (by decide) (hbytes ▸ hns)]
      rfl
    obtain ⟨ns, hread⟩ : ∃ ns, readFixed 32 payload.bytes offset = some ns :=
      exists_readFixed (Nat.le_of_not_lt hns)
    rw [if_neg hns]
    dsimp only
    rw [Span.fetch_eq_lift (Nat.le_of_not_lt hns), hread, lift_some,
      fieldEnd_eq (Nat.le_of_not_lt hns) (by decide)]
    by_cases hlen : payload.size < offset + 32 + 4
    · rw [readU32Be_eq_none (hbytes ▸ hlen), if_pos hlen]
      rfl
    obtain ⟨len, hcount⟩ : ∃ len, readU32Be payload.bytes (offset + 32) = some len :=
      exists_readU32Be (Nat.le_of_not_lt hlen)
    rw [if_neg hlen, hcount]
    dsimp only
    rw [ok_bind, fetchU32_eq_lift (Nat.le_of_not_lt hlen), hcount, lift_some, ok_bind,
      fieldEnd_eq (Nat.le_of_not_lt hlen) len.toNat_lt]
    by_cases hblob : payload.size < offset + 36 + len.toNat
    · rw [if_pos hblob, if_pos (hbytes ▸ hblob)]
      rfl
    have hsubspan : payload.subspan (offset + 36) len.toNat =
        .ok ((payload.bytes.drop (offset + 36)).take len.toNat) := if_pos (Nat.le_of_not_lt hblob)
    rw [if_neg hblob, if_neg (hbytes ▸ hblob)]
    dsimp only
    change (payload.subspan (offset + 36) len.toNat >>= _) = _
    rw [hsubspan]
    change (lift (decodeBlob P ((payload.bytes.drop (offset + 36)).take len.toNat)) >>= _) = _
    refine bind_eq_lift rfl fun blob _ => ?_
    exact bind_eq_lift (decodeTransferEntries_eq n (Nat.le_of_not_lt hblob)) fun rest _ => rfl

theorem decodeBlobTransfer_eq (payload : Span) :
    Spans.decodeBlobTransfer P payload = lift (decodeBlobTransfer P payload.bytes) := by
  rw [Spans.decodeBlobTransfer, decodeBlobTransfer]
  by_cases hshort : payload.size < 4
  · rw [if_pos hshort, readU32Be_eq_none (by rw [payload.length_bytes]; omega)]
    rfl
  · have hsize : 0 + 4 ≤ payload.size := by omega
    obtain ⟨count, hread⟩ := exists_readU32Be hsize
    rw [if_neg hshort, fetchU32_eq_lift hsize, hread, lift_some]
    exact decodeTransferEntries_eq P count.toNat (by omega)

theorem decodeTransferEntries_size : ∀ {n offset : Nat} {nsBlobs : List NamespacedBlob},
    offset ≤ bytes.length → decodeTransferEntries P bytes n offset = some nsBlobs →
    offset + 36 * nsBlobs.length ≤ bytes.length
  | 0, offset, nsBlobs, hoffset, h => by
    obtain rfl := Option.some.inj h
    exact hoffset
  | n + 1, offset, nsBlobs, hoffset, h => by
    rw [decodeTransferEntries] at h
    split at h
    · split_ifs at h with hblob
      · obtain rfl := Option.some.inj h
        exact hoffset
      · simp only [Option.bind_eq_bind, Option.bind_eq_some_iff] at h
        obtain ⟨blob, -, rest, hrest, hblobs⟩ := h
        obtain rfl := Option.some.inj hblobs
        have ih := decodeTransferEntries_size (Nat.le_of_not_lt hblob) hrest
        rw [List.length_cons]
        omega
    · obtain rfl := Option.some.inj h
      exact hoffset

end Messages

/-! ## All messages -/

section Codecs

variable (P : Primitives)

/-- Every message is decoded to the value it was encoded from. -/
structure RoundTrips : Prop where
  init : ∀ init : ReconcileInit, init.version = RECONCILE_VERSION →
    decodeReconcileInit (encodeReconcileInit init) = some init
  ranges : ∀ (ns : Hash32) (ranges : List RangeEntry), ranges.length < 2 ^ 32 →
    (∀ r ∈ ranges, r.Canonical) →
    decodeReconcileRanges (encodeReconcileRanges ns ranges) = some ⟨ns, ranges⟩
  items : ∀ (ns : Hash32) (items : List Hash32), items.length < 2 ^ 32 →
    decodeReconcileItems (encodeReconcileItems ns items) = some ⟨ns, items⟩
  namespaceList : ∀ namespaces : List NamespaceInfo, namespaces.length < 2 ^ 32 →
    -- `latest_seq_num` is a `uint64_t`
    (∀ info ∈ namespaces, info.latestSeqNum < 2 ^ 64) →
    decodeNamespaceList (encodeNamespaceList namespaces) = namespaces
  blobRequest : ∀ (ns : Hash32) (hashes : List Hash32), hashes.length < 2 ^ 32 →
    decodeBlobRequest (encodeBlobRequest ns hashes) = (ns, hashes)
  blobTransfer : ∀ nsBlobs : List NamespacedBlob, nsBlobs.length < 2 ^ 32 →
    (∀ nb ∈ nsBlobs, (encodeBlob P nb.blob).length < 2 ^ 32) →
    decodeBlobTransfer P (encodeBlobTransfer P nsBlobs) = some nsBlobs

/-- Read by read the decoders do what the bounds-checked ones do, which leaves no read outside the
payload. -/
structure ReadsInside (payload : Span) : Prop where
  init : Spans.decodeReconcileInit payload = lift (decodeReconcileInit payload.bytes)
  ranges : Spans.decodeReconcileRanges payload = lift (decodeReconcileRanges payload.bytes)
  items : Spans.decodeReconcileItems payload = lift (decodeReconcileItems payload.bytes)
  namespaceList : Spans.decodeNamespaceList payload = .ok (decodeNamespaceList payload.bytes)
  blobRequest : Spans.decodeBlobRequest payload = .ok (decodeBlobRequest payload.bytes)
  blobTransfer : Spans.decodeBlobTransfer P payload = lift (decodeBlobTransfer P payload.bytes)

/-- What a decoder returns has room in the payload. -/
structure FitsIn (bytes : Bytes) : Prop where
  init : ∀ init, decodeReconcileInit bytes = some init → 69 ≤ bytes.length
  ranges : ∀ d, decodeReconcileRanges bytes = some d →
    36 + (d.ranges.map fun r => 33 + 32 * r.items.length).sum ≤ bytes.length
  items : ∀ d, decodeReconcileItems bytes = some d → 36 + 32 * d.items.length ≤ bytes.length
  namespaceList : decodeNamespaceList bytes ≠ [] →
    4 + 40 * (decodeNamespaceList bytes).length ≤ bytes.length
  blobRequest : (decodeBlobRequest bytes).2 ≠ [] →
    36 + 32 * (decodeBlobRequest bytes).2.length ≤ bytes.length
  blobTransfer : ∀ nsBlobs, decodeBlobTransfer P bytes = some nsBlobs → nsBlobs ≠ [] →
    4 + 36 * nsBlobs.length ≤ bytes.length

variable {P}

theorem readsInside (payload : Span) : ReadsInside P payload where
  init := decodeReconcileInit_eq payload
  ranges := decodeReconcileRanges_eq payload
  items := decodeReconcileItems_eq payload
  namespaceList := decodeNamespaceList_eq payload
  blobRequest := decodeBlobRequest_eq payload
  blobTransfer := decodeBlobTransfer_eq P payload

theorem fitsIn (bytes : Bytes) : FitsIn P bytes where
  init init h := by
    simp only [decodeReconcileInit, Option.bind_eq_bind, Option.bind_eq_some_iff,
      guard_eq_some] at h
    obtain ⟨-, hsize, -⟩ := h
    exact hsize
  ranges d h := by
    simp only [decodeReconcileRanges, Option.bind_eq_bind, Option.bind_eq_some_iff,
      guard_eq_some] at h
    obtain ⟨-, hsize, ns, -, count, -, ranges, hranges, hd⟩ := h
    obtain rfl := Option.some.inj hd
    exact (decodeRangeEntries_size hsize hranges).2
  items d h := by
    simp only [decodeReconcileItems, Option.bind_eq_bind, Option.bind_eq_some_iff,
      guard_eq_some] at h
    obtain ⟨-, -, ns, -, count, -, -, hfits, items, hitems, hd⟩ := h
    obtain rfl := Option.some.inj hd
    have hlength := length_decodeHashes hfits hitems
    dsimp only
    omega
  namespaceList h := by
    unfold decodeNamespaceList at h ⊢
    split at h
    · exact absurd rfl h
    · split_ifs at h with hfits
      · exact absurd rfl h
      · obtain ⟨infos, hinfos, hlength⟩ := exists_decodeNamespaceInfos _ (Nat.le_of_not_lt hfits)
        rw [if_neg hfits, hinfos, Option.getD_some]
        omega
  blobRequest h := by
    unfold decodeBlobRequest at h ⊢
    split_ifs at h ⊢ with hshort
    · exact absurd rfl h
    · split at h
      · split_ifs at h ⊢ with hfits
        · exact absurd rfl h
        · obtain ⟨items, hitems, hlength⟩ := exists_decodeHashes _ (Nat.le_of_not_lt hfits)
          rw [hitems, Option.getD_some]
          dsimp only
          omega
      · exact absurd rfl h
  blobTransfer nsBlobs h hne := by
    unfold decodeBlobTransfer at h
    cases hread : readU32Be bytes 0 with
    | none =>
      rw [hread] at h
      exact absurd (Option.some.inj h).symm hne
    | some count =>
      rw [hread] at h
      have hsize : 4 ≤ bytes.length := by
        by_contra hshort
        rw [readU32Be_eq_none (by omega)] at hread
        exact absurd hread (by simp)
      exact decodeTransferEntries_size P hsize h

/-- **The sync codecs are inverse and safe.** Decoding returns what was encoded, where the fields
that the mode of a range does not transmit have their default values; and on every payload the
decoders only read inside of it and return no more than it has room for. -/
theorem sync_codecs (hget : ∀ fb, P.getBlob (P.finishBlob fb) = some fb) :
    RoundTrips P ∧ ∀ payload : Span, ReadsInside P payload ∧ FitsIn P payload.bytes := by
  refine ⟨⟨?_, ?_, ?_, ?_, ?_, ?_⟩, fun payload => ⟨readsInside payload, fitsIn payload.bytes⟩⟩
  · intro init hversion
    exact decodeReconcileInit_encode hversion
  · intro ns ranges hlength hcanonical
    exact decodeReconcileRanges_encode ns hlength hcanonical
  · intro ns items hlength
    exact decodeReconcileItems_encode ns hlength
  · intro namespaces hlength hseq
    exact decodeNamespaceList_encode hlength hseq
  · intro ns hashes hlength
    exact decodeBlobRequest_encode ns hlength
  · intro nsBlobs hlength hsizes
    exact decodeBlobTransfer_encode hget hlength hsizes

/-- A range that both sides have in common. -/
def sampleSkip (count : UInt32) : RangeEntry where
  upperBound := FixedBytes.fill 32 7
  mode := .skip
  count

theorem sync_codecs_sample :
    (RoundTrips Sample.primitives ∧
      ∀ payload : Span, ReadsInside Sample.primitives payload ∧
      FitsIn Sample.primitives payload.bytes) ∧
    decodeReconcileRanges (encodeReconcileRanges (FixedBytes.fill 32 1) [sampleSkip 0]) =
      some ⟨FixedBytes.fill 32 1, [sampleSkip 0]⟩ := by
  have hcodecs := sync_codecs (P := Sample.primitives) Sample.getBlob_finishBlob
  refine ⟨hcodecs, hcodecs.1.ranges _ _ (by decide) fun r hr => ?_⟩
  obtain rfl := List.mem_singleton.mp hr
  exact ⟨rfl, rfl, rfl⟩

set_option maxRecDepth 20000 in
/-- The count of such a range is not transmitted. -/
theorem skip_count_lost :
    (∀ r ∈ [sampleSkip 1], r.mode = .itemList → r.count.toNat = r.items.length) ∧
      decodeReconcileRanges (encodeReconcileRanges (FixedBytes.fill 32 1) [sampleSkip 1]) ≠
        some ⟨FixedBytes.fill 32 1, [sampleSkip 1]⟩ := by
  constructor
  · intro r hr hmode
    obtain rfl := List.mem_singleton.mp hr
    exact absurd hmode (by decide)
  · decide

end Codecs

end Sync
