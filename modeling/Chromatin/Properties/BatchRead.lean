import Chromatin.Infra.Run
import Chromatin.Peer.QueryClient
import Chromatin.Properties.StoreRuns

/-!
# Reading many blobs at once

`BatchReadRequest` answers in the order of the request and stops behind the blob with which the
cumulative size reaches the cap. `BatchAnswer` says what the answer is, without the loop that
computes it.

* `batch_read` — every accepted request gets that answer, and a client that asks again for what is
  left over gets one entry per hash -/

namespace Peer

open Infra Util Wire Storage

variable {payload : Bytes} {q : BatchReadQuery}

/-- The bytes of the blob of an entry. -/
def BatchReadEntry.size (entry : BatchReadEntry) : Nat := (entry.encoded.map List.length).getD 0

/-- The bytes of the blobs that were found. -/
def foundSize (entries : List BatchReadEntry) : Nat := (entries.map BatchReadEntry.size).sum

/-- The entries for a list of hashes, when `used` bytes count against the cap already. -/
structure BatchAnswer (read : Hash32 → BatchReadEntry) (cap used : Nat) (hashes : List Hash32)
    (entries : List BatchReadEntry) (truncated : Bool) : Prop where
  /-- the entries of the first hashes, in their order -/
  listed : entries = (hashes.take entries.length).map read
  /-- no shorter beginning reaches the cap -/
  short : ∀ k < entries.length, used + foundSize (entries.take k) < cap
  /-- the entries reach it, or they are all -/
  ends : cap ≤ used + foundSize entries ∨ entries.length = hashes.length
  truncated_iff : truncated = true ↔ entries.length < hashes.length

section

variable {read : Hash32 → BatchReadEntry} {cap used : Nat} {hashes : List Hash32}
  {entries : List BatchReadEntry} {truncated : Bool}

@[simp] theorem foundSize_nil : foundSize [] = 0 := rfl

@[simp] theorem foundSize_cons (entry : BatchReadEntry) (entries : List BatchReadEntry) :
    foundSize (entry :: entries) = entry.size + foundSize entries := by
  simp [foundSize]

/-- One more entry in front. -/
theorem BatchAnswer.cons {hash : Hash32} (hused : used < cap)
    (h : BatchAnswer read cap (used + (read hash).size) hashes entries truncated) :
    BatchAnswer read cap used (hash :: hashes) (read hash :: entries) truncated where
  listed := by
    rw [List.length_cons, List.take_succ_cons, List.map_cons, ← h.listed]
  short := by
    rintro (_ | k) hk
    · simpa using hused
    · rw [List.take_succ_cons, foundSize_cons, ← Nat.add_assoc]
      exact h.short k (Nat.lt_of_succ_lt_succ hk)
  ends := by
    rw [foundSize_cons, ← Nat.add_assoc, List.length_cons, List.length_cons,
      Nat.add_right_cancel_iff]
    exact h.ends
  truncated_iff := by
    rw [List.length_cons, List.length_cons, Nat.add_lt_add_iff_right]
    exact h.truncated_iff

/-- The loop computes the answer. -/
theorem batchReadFrom_spec (read : Hash32 → BatchReadEntry) :
    ∀ (hashes : List Hash32) {used : Nat}, used < cap →
    BatchAnswer read cap used hashes (batchReadFrom read cap hashes used).1
    (batchReadFrom read cap hashes used).2
  | [], used, _ => ⟨rfl, by simp [batchReadFrom], .inr rfl, by simp [batchReadFrom]⟩
  | hash :: rest, used, hused => by
    unfold batchReadFrom
    dsimp only
    cases hentry : (read hash).encoded with
    | none =>
      have hsize : (read hash).size = 0 := by simp [BatchReadEntry.size, hentry]
      have ih := batchReadFrom_spec read rest hused
      exact BatchAnswer.cons hused (by rwa [hsize])
    | some encoded =>
      have hsize : (read hash).size = encoded.length := by simp [BatchReadEntry.size, hentry]
      dsimp only
      split_ifs with hcap
      · refine ⟨rfl, ?_, .inl (by simpa [hsize] using hcap), by simp [List.length_pos_iff]⟩
        rintro (_ | k) hk
        · simpa using hused
        · exact absurd (Nat.lt_of_succ_lt_succ hk) (Nat.not_lt_zero k)
      · have ih := batchReadFrom_spec read rest (Nat.not_le.mp hcap)
        exact BatchAnswer.cons hused (by rwa [hsize])

/-- The effective cap is positive, so a request for something gets something. -/
theorem effectiveCap_bounds (capBytes : UInt32) :
    0 < effectiveCap capBytes ∧ effectiveCap capBytes ≤ MAX_CAP := by
  unfold effectiveCap MAX_CAP
  split_ifs <;> omega

theorem BatchAnswer.entries_ne_nil (h : BatchAnswer read cap used hashes entries truncated)
    (hused : used < cap)
    (hhashes : hashes ≠ []) : entries ≠ [] := by
  rintro rfl
  rcases h.ends with hcap | hall
  · rw [foundSize_nil] at hcap
    omega
  · exact hhashes (List.length_eq_zero_iff.mp hall.symm)

theorem BatchAnswer.length_le (h : BatchAnswer read cap used hashes entries truncated) :
    entries.length ≤ hashes.length := by
  have hlength := congrArg List.length h.listed
  rw [List.length_map, List.length_take] at hlength
  omega

/-- An accepted request asks for something, and not for too much. -/
theorem length_of_parseBatchReadRequest
    (h : parseBatchReadRequest payload = .ok q) :
    q.hashes ≠ [] ∧ q.hashes.length ≤ MAX_BATCH_READ := by
  have hdecode : ∀ (n offset : Nat) {hashes : List Hash32},
    decodeHashes payload n offset = some hashes →
      hashes.length = n := by
    intro n
    induction n with
    | zero =>
      intro offset hashes hread
      obtain rfl := Option.some.inj hread
      rfl
    | succ n ih =>
      intro offset hashes hread
      simp only [decodeHashes, Option.bind_eq_bind, Option.bind_eq_some_iff] at hread
      obtain ⟨item, -, rest, hrest, hhashes⟩ := hread
      obtain rfl := Option.some.inj hhashes
      rw [List.length_cons, ih _ hrest]
  unfold parseBatchReadRequest at h
  split at h
  · split_ifs at h with hcount
    split at h
    · exact absurd h (by simp)
    · rename_i hashes hread
      obtain rfl := Except.ok.inj h
      have hlength := hdecode _ _ hread
      push Not at hcount
      refine ⟨fun hnil => hcount.1 ?_, hlength ▸ hcount.2⟩
      rw [← hlength]
      exact congrArg List.length hnil
  · exact absurd h (by simp)

end

section Client

variable {P : Primitives} {t : Tables}

theorem hash_batchReadEntry (P : Primitives) (t : Tables) (now : UInt64) (ns hash : Hash32) :
    (batchReadEntry P t now ns hash).hash = hash := by
  unfold batchReadEntry
  split
  · rfl
  · split_ifs <;> rfl

/-- An entry has a blob exactly if the blob is stored and has not expired. -/
theorem encoded_batchReadEntry {now : UInt64} {ns hash : Hash32} {encoded : Bytes} :
    (batchReadEntry P t now ns hash).encoded = some encoded ↔
      ∃ blob, t.getBlob ns hash = some blob ∧ isBlobExpired blob now = false ∧
          encodeBlob P blob = encoded := by
  unfold batchReadEntry
  cases t.getBlob ns hash with
  | none => simp
  | some blob => cases hexpired : isBlobExpired blob now <;> simp [hexpired]

theorem handleBatchReadRequest_eq {now : UInt64}
    {entries : List BatchReadEntry} {truncated : Bool}
    (haccepted : parseBatchReadRequest payload = .ok q)
    (hread : batchReadFrom (batchReadEntry P t now q.ns) (effectiveCap q.capBytes) q.hashes 0 =
      (entries, truncated)) :
    handleBatchReadRequest P t now payload = .ok (encodeBatchReadResponse entries truncated) := by
  unfold handleBatchReadRequest
  rw [haccepted]
  show Except.ok (encodeBatchReadResponse
    (batchReadFrom (batchReadEntry P t now q.ns) (effectiveCap q.capBytes) q.hashes 0).1 _) = _
  rw [hread]

/-- The answer to an accepted request. -/
theorem handleBatchReadRequest_spec (P : Primitives) (t : Tables) (now : UInt64)
    (haccepted : parseBatchReadRequest payload = .ok q) :
    ∃ entries truncated, handleBatchReadRequest P t now payload =
      .ok (encodeBatchReadResponse entries truncated) ∧
      entries ≠ [] ∧
      BatchAnswer (batchReadEntry P t now q.ns) (effectiveCap q.capBytes) 0 q.hashes
          entries truncated := by
  have hcap := (effectiveCap_bounds q.capBytes).1
  have hanswer := batchReadFrom_spec (batchReadEntry P t now q.ns) q.hashes hcap
  exact ⟨_, _, handleBatchReadRequest_eq haccepted rfl,
    hanswer.entries_ne_nil hcap (length_of_parseBatchReadRequest haccepted).1, hanswer⟩

/-- What a client reads of an answer. -/
theorem parse_handleBatchReadRequest (now : UInt64) (ns : Hash32) (capBytes : UInt32)
    {hashes : List Hash32}
    (hne : hashes ≠ []) (hmax : hashes.length ≤ MAX_BATCH_READ)
    (hsize : ∀ hash ∈ hashes, ∀ blob, t.getBlob ns hash = some blob →
      (encodeBlob P blob).length < 2 ^ 64) :
    ∃ payload entries truncated,
      handleBatchReadRequest P t now (batchReadRequest ns capBytes hashes) = .ok payload ∧
      parseBatchReadResponse payload = some (entries, if truncated then 1 else 0) ∧ entries ≠ [] ∧
      BatchAnswer (batchReadEntry P t now ns) (effectiveCap capBytes) 0 hashes
          entries truncated := by
  obtain ⟨entries, truncated, hresponse, hentries, hanswer⟩ :=
    handleBatchReadRequest_spec P t now
      (parseBatchReadRequest_batchReadRequest ns capBytes hne hmax)
  refine ⟨_, entries, truncated, hresponse, parseBatchReadResponse_encode ?_ ?_ truncated,
    hentries, hanswer⟩
  · have hle := hanswer.length_le
    unfold MAX_BATCH_READ at hmax
    dsimp only at hle
    omega
  · intro entry hentry encoded hencoded
    rw [hanswer.listed, List.mem_map] at hentry
    obtain ⟨hash, hhash, rfl⟩ := hentry
    obtain ⟨blob, hblob, -, rfl⟩ := encoded_batchReadEntry.mp hencoded
    exact hsize hash (List.mem_of_mem_take hhash) blob hblob

/-- A client that asks again for the hashes without an entry: every answer has an entry, so there
are fewer of them each time. -/
theorem batchReadAll_spec
    (clock : Nat → UInt64) (ns : Hash32) (capBytes : UInt32) (fuel round : Nat)
    {hashes : List Hash32} (hne : hashes ≠ []) (hmax : hashes.length ≤ MAX_BATCH_READ)
    (hsize : ∀ hash ∈ hashes, ∀ blob, t.getBlob ns hash = some blob →
      (encodeBlob P blob).length < 2 ^ 64)
    (hfuel : hashes.length ≤ fuel) :
    ∃ entries, batchReadAll (fun round =>
      handleBatchReadRequest P t (clock round)) ns capBytes fuel round
        hashes = some entries ∧
      List.Forall₂ (fun hash entry => ∃ i, entry = batchReadEntry P t (clock i) ns hash)
          hashes entries := by
  induction fuel generalizing round hashes with
  | zero => exact absurd (List.length_eq_zero_iff.mp (Nat.le_zero.mp hfuel)) hne
  | succ fuel ih =>
    obtain ⟨payload, entries, truncated, hresponse, hread, hentries, hanswer⟩ :=
      parse_handleBatchReadRequest (clock round) ns capBytes hne hmax hsize
    have hlisted : List.Forall₂ (fun hash entry =>
      ∃ i, entry = batchReadEntry P t (clock i) ns hash)
        (hashes.take entries.length) entries := by
      conv_rhs => rw [hanswer.listed]
      rw [List.forall₂_map_right_iff, List.forall₂_same]
      exact fun hash _ => ⟨round, rfl⟩
    simp only [batchReadAll, hresponse, hread]
    cases htruncated : truncated with
    | false =>
      have hall : hashes.take entries.length = hashes := by
        refine List.take_of_length_le (Nat.not_lt.mp fun hlt => ?_)
        rw [← hanswer.truncated_iff, htruncated] at hlt
        exact absurd hlt (by simp)
      rw [hall] at hlisted
      exact ⟨entries, by simp, hlisted⟩
    | true =>
      have hproper := hanswer.truncated_iff.mp htruncated
      have hpos := List.length_pos_iff.mpr hentries
      have hlength : (hashes.drop entries.length).length = hashes.length - entries.length :=
        List.length_drop
      have hleft : hashes.drop entries.length ≠ [] := by
        rw [← List.length_pos_iff]
        omega
      obtain ⟨more, hmore, hrest⟩ := ih (round + 1) hleft (by omega)
        (fun hash hhash => hsize hash (List.mem_of_mem_drop hhash)) (by omega)
      refine ⟨entries ++ more, by simp [hmore], ?_⟩
      rw [← List.take_append_drop entries.length hashes]
      exact List.rel_append hlisted hrest

end Client

/-- **The answer to every accepted request** is the shortest beginning of the hashes whose blobs
reach the cap, or all of them; it is marked as truncated exactly if hashes are left over. A client
that asks again for those ends with one entry per hash, if the size of every blob fits into its
field. -/
theorem batch_read (P : Primitives) (t : Tables) :
    (∀ now ns hash, (batchReadEntry P t now ns hash).hash = hash ∧ ∀ encoded,
      (batchReadEntry P t now ns hash).encoded = some encoded ↔
        ∃ blob, t.getBlob ns hash = some blob ∧ isBlobExpired blob now = false ∧
        encodeBlob P blob = encoded) ∧
    (∀ now payload q, parseBatchReadRequest payload = .ok q →
      ∃ entries truncated, handleBatchReadRequest P t now payload =
      .ok (encodeBatchReadResponse entries truncated) ∧ entries ≠ [] ∧
        BatchAnswer (batchReadEntry P t now q.ns) (effectiveCap q.capBytes) 0 q.hashes
        entries truncated) ∧
    ∀ (clock : Nat → UInt64) ns capBytes hashes fuel, hashes ≠ [] → hashes.length ≤ MAX_BATCH_READ →
      (∀ hash ∈ hashes, ∀ blob, t.getBlob ns hash = some blob →
        (encodeBlob P blob).length < 2 ^ 64) →
      hashes.length ≤ fuel →
      ∃ entries, batchReadAll (fun round =>
        handleBatchReadRequest P t (clock round)) ns capBytes fuel 0
          hashes = some entries ∧
        List.Forall₂ (fun hash entry => ∃ i, entry = batchReadEntry P t (clock i) ns hash)
          hashes entries :=
  ⟨fun now ns hash => ⟨hash_batchReadEntry P t now ns hash, fun _ => encoded_batchReadEntry⟩,
    fun now _ _ haccepted => handleBatchReadRequest_spec P t now haccepted,
    fun clock ns capBytes _ fuel hne hmax hsize hfuel =>
      batchReadAll_spec clock ns capBytes fuel 0 hne hmax hsize hfuel⟩

section Sample

open Wire.Sample

def shelved : BlobData := signed (key 1) (owned 1) (owned 1) [1, 2, 3] 0 3000000

def shelf : Tables := run (StoreOp.step primitives) {} [.storeBlob 0 false (owned 1) shelved {}]

/-- The stored blob, one that is not stored, and the first one again. -/
def wanted : List Hash32 :=
  [contentHash primitives shelved, owned 9, contentHash primitives shelved]

set_option maxRecDepth 20000 in
theorem sizes_wanted : ∀ hash ∈ wanted, ∀ blob, shelf.getBlob (owned 1) hash = some blob →
    (encodeBlob primitives blob).length < 2 ^ 64 := by
  have hsizes : (wanted.all fun hash =>
      ((shelf.getBlob (owned 1) hash).map fun blob => (encodeBlob primitives blob).length).getD 0 <
      2 ^ 64) = true := by
    decide
  intro hash hhash blob hblob
  simpa [hblob] using List.all_eq_true.mp hsizes hash hhash

/-- With a cap of one byte the first answer has one entry; the client then asks for the other two.
-/
theorem batch_read_wanted :
    (∃ entries truncated,
      handleBatchReadRequest primitives shelf 3000000 (batchReadRequest (owned 1) 1 wanted) =
        .ok (encodeBatchReadResponse entries truncated) ∧ entries ≠ [] ∧
      BatchAnswer (batchReadEntry primitives shelf 3000000 (owned 1)) (effectiveCap 1) 0 wanted
      entries truncated) ∧
    ∃ entries, batchReadAll (fun _ => handleBatchReadRequest primitives shelf 3000000) (owned 1)
    1 3 0 wanted =
        some entries ∧
      List.Forall₂ (fun hash entry =>
        ∃ _ : Nat, entry = batchReadEntry primitives shelf 3000000 (owned 1) hash)
        wanted entries :=
  ⟨(batch_read primitives shelf).2.1 3000000 _ { ns := owned 1, capBytes := 1, hashes := wanted }
      (parseBatchReadRequest_batchReadRequest (owned 1) 1 (by decide) (by decide)),
    (batch_read primitives shelf).2.2 (fun _ =>
      3000000) (owned 1) 1 wanted 3 (by decide) (by decide) sizes_wanted (by decide)⟩

end Sample

end Peer
