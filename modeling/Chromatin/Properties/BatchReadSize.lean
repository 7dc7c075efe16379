import Chromatin.Config.Validate
import Chromatin.Properties.Acceptance
import Chromatin.Properties.BatchRead

/-!
# The size of a batch

The cap of a `BatchReadRequest` is looked at behind every blob, so a response may exceed it by one
blob, and a blob may have as many bytes as `blob_max_bytes` admits. A receiver gives up on a message
above `MAX_CHUNKED_WIRE_PAYLOAD`, which leaves room for one blob of the greatest size, but not for
the other blobs of a batch.

* `stored_data_le` — a node stores no data above its `blob_max_bytes`
* `length_batchReadResponse_le` — what a response can have, by the size of its greatest blob
* `batch_read_deliverable` — where this is not above the bound of the receivers, every response
  arrives -/

namespace Engine

open Infra Util Wire Storage

variable {P : Primitives} {cap : Nat}

/-- The `blob_max_bytes` of every turn is the given one. -/
def CappedBy (cap : Nat) (events : List Event) : Prop :=
  ∀ i env, .resume i env ∈ events → env.config.blobMaxBytes.toNat = cap

theorem data_le_of_ingestChecks {env : Env} {t : Tables} {ns : Hash32} {blob : BlobData}
    (h : ingestChecks env t ns blob = none) : blob.data.length ≤ env.config.blobMaxBytes.toNat := by
  have hsize := (ingestChecks_eq_none_iff.mp h).1.size
  unfold checkSize at hsize
  split_ifs at hsize with hlarge
  exact Nat.not_lt.mp hlarge

/-- **A node stores no data above its `blob_max_bytes`**, which is assumed to admit tombstones: the
first turn of a call checks the size of its data, or that it is a tombstone. -/
theorem stored_data_le {events : List Event} (hcap : CappedBy cap events)
    (htombstone : TOMBSTONE_DATA_SIZE ≤ cap) {ns hash : Hash32} {blob : BlobData}
    (h : (run (Node.step P) {} events).tables.getBlob ns hash = some blob) :
    blob.data.length ≤ cap := by
  refine checked_stored (Q := fun blob => blob.data.length ≤ cap)
    (fun i env hmem => ⟨fun t ns blob hchecks => ?_, fun blob hchecks => ?_⟩) h
  · exact (data_le_of_ingestChecks hchecks).trans_eq (hcap i env hmem)
  · have htomb := (deleteChecks_none hchecks).1
    rw [isTombstone, Bool.and_eq_true, beq_iff_eq] at htomb
    exact htomb.1.trans_le htombstone

end Engine

namespace Peer

open Infra Util Wire Storage Engine Config Net

variable {t : Tables}

/-! ## The bytes of a response -/

/-- The most a found blob adds to a response besides its own bytes: status, hash and size. -/
def ENTRY_OVERHEAD : Nat := 41

theorem length_encodeBatchReadEntry_le (entry : BatchReadEntry) :
    (encodeBatchReadEntry entry).length ≤ ENTRY_OVERHEAD + entry.size := by
  obtain ⟨hash, _ | encoded⟩ := entry <;>
    simp [encodeBatchReadEntry, BatchReadEntry.size, ENTRY_OVERHEAD]
  omega

theorem length_encodeBatchReadResponse_le (entries : List BatchReadEntry) (truncated : Bool) :
    (encodeBatchReadResponse entries truncated).length ≤
    5 + ENTRY_OVERHEAD * entries.length + foundSize entries := by
  have hentries : (entries.flatMap encodeBatchReadEntry).length ≤
      ENTRY_OVERHEAD * entries.length + foundSize entries := by
    induction entries with
    | nil => simp
    | cons entry rest ih =>
      have hentry := length_encodeBatchReadEntry_le entry
      rw [List.flatMap_cons, List.length_append, foundSize_cons, List.length_cons, Nat.mul_succ]
      omega
  simp only [encodeBatchReadResponse, List.length_cons, List.length_append, length_writeU32Be]
  omega

theorem foundSize_append (entries more : List BatchReadEntry) :
    foundSize (entries ++ more) = foundSize entries + foundSize more := by
  simp [foundSize]

/-- The blobs of an answer exceed the cap by less than its last blob. -/
theorem BatchAnswer.foundSize_lt {read : Hash32 → BatchReadEntry} {cap : Nat} {hashes : List Hash32}
    {entries : List BatchReadEntry} {truncated : Bool}
    (h : BatchAnswer read cap 0 hashes entries truncated)
    (hne : entries ≠ []) {largest : Nat} (hsize : ∀ entry ∈ entries, entry.size ≤ largest) :
    foundSize entries < cap + largest := by
  obtain ⟨init, last, rfl⟩ := List.eq_nil_or_concat entries |>.resolve_left hne
  have hshort := h.short init.length (by simp)
  rw [List.concat_eq_append, List.take_left, Nat.zero_add] at hshort
  have hlast := hsize last (by simp)
  rw [List.concat_eq_append, foundSize_append, foundSize_cons, foundSize_nil]
  omega

/-- The most a response has, where no blob of the store has more than `largest` bytes. -/
def responseBound (largest : Nat) : Nat :=
  5 + ENTRY_OVERHEAD * MAX_BATCH_READ + (MAX_CAP - 1) + largest

theorem length_batchReadResponse_le {P : Primitives} {now : UInt64} {payload : Bytes}
    {q : BatchReadQuery} (haccepted : parseBatchReadRequest payload = .ok q) {largest : Nat}
    (hlargest : ∀ hash blob, t.getBlob q.ns hash = some blob →
      (encodeBlob P blob).length ≤ largest) :
    ∃ response, handleBatchReadRequest P t now payload = .ok response ∧
      response.length ≤ responseBound largest := by
  obtain ⟨entries, truncated, hresponse, hne, hanswer⟩ :=
    handleBatchReadRequest_spec P t now haccepted
  refine ⟨_, hresponse, (length_encodeBatchReadResponse_le entries truncated).trans ?_⟩
  have hsize : ∀ entry ∈ entries, entry.size ≤ largest := by
    intro entry hentry
    rw [hanswer.listed, List.mem_map] at hentry
    obtain ⟨hash, -, rfl⟩ := hentry
    cases hencoded : (batchReadEntry P t now q.ns hash).encoded with
    | none => simp [BatchReadEntry.size, hencoded]
    | some encoded =>
      obtain ⟨blob, hblob, -, rfl⟩ := encoded_batchReadEntry.mp hencoded
      simpa [BatchReadEntry.size, hencoded] using hlargest hash blob hblob
  have hfound := hanswer.foundSize_lt hne hsize
  have hcap := (effectiveCap_bounds q.capBytes).2
  have hcount : ENTRY_OVERHEAD * entries.length ≤ ENTRY_OVERHEAD * MAX_BATCH_READ :=
    Nat.mul_le_mul_left _ (hanswer.length_le.trans (length_of_parseBatchReadRequest haccepted).2)
  unfold responseBound
  omega

/-- **Every response arrives if `blob_max_bytes` leaves room for a batch**: what FlatBuffers, the
signature and the signer hint add to the data of a blob, and the rest of a greatest response, have
to fit below the bound of the receivers along with it. -/
theorem batch_read_deliverable (P : Primitives) (cfg : NodeConfig) (hvalid : cfg.Valid)
    (overhead : Nat)
    (hencode : ∀ ns blob pubkey, verifySignature P ns blob pubkey = true →
      (encodeBlob P blob).length ≤ blob.data.length + overhead)
    (hroom : responseBound (cfg.blobMaxBytes + overhead) ≤ MAX_CHUNKED_WIRE_PAYLOAD)
    (events : List Engine.Event) (hcap : CappedBy cfg.blobMaxBytes events) (now : UInt64)
    (payload : Bytes)
    (q : BatchReadQuery) (haccepted : parseBatchReadRequest payload = .ok q) :
    ∃ response,
      handleBatchReadRequest P (run (Node.step P) {} events).tables now payload = .ok response ∧
      response.length ≤ MAX_CHUNKED_WIRE_PAYLOAD := by
  have htombstone : TOMBSTONE_DATA_SIZE ≤ cfg.blobMaxBytes :=
    Nat.le_trans (by decide) hvalid.blobMaxBytes_bounds.1
  have hlargest : ∀ hash blob, (run (Node.step P) {} events).tables.getBlob q.ns hash = some blob →
      (encodeBlob P blob).length ≤ cfg.blobMaxBytes + overhead := by
    intro hash blob hblob
    obtain ⟨-, i, signer, -, hverify, -⟩ := authorized_of_stored hblob
    have hdata := stored_data_le hcap htombstone hblob
    have hbytes := hencode q.ns blob signer.pubkey hverify
    omega
  obtain ⟨response, hresponse, hlength⟩ := length_batchReadResponse_le haccepted hlargest
  exact ⟨response, hresponse, hlength.trans hroom⟩

namespace Sample

open Wire.Sample

/-! ## A codec that adds little to the data -/

def plainVector : Option Bytes → Bytes
  | none => [0]
  | some v => 1 :: (writeU64Be (UInt64.ofNat v.length) ++ v)

def plainBlob (fb : FbBlob) : Bytes :=
  writeU64Be fb.timestamp ++ (writeU32Be fb.ttl ++ (plainVector fb.signerHint ++
    (plainVector fb.signature ++ plainVector fb.data)))

def readPlainVector : Bytes → Option (Option Bytes × Bytes)
  | [] => none
  | mark :: rest =>
    if mark = 0 then some (none, rest)
    else (readU64Be rest 0).map fun size =>
      (some ((rest.drop 8).take size.toNat), rest.drop (8 + size.toNat))

def readPlainBlob (buffer : Bytes) : Option FbBlob := do
  let timestamp ← readU64Be buffer 0
  let ttl ← readU32Be buffer 8
  let (signerHint, rest) ← readPlainVector (buffer.drop 12)
  let (signature, rest) ← readPlainVector rest
  let (data, _) ← readPlainVector rest
  some { signerHint, data, ttl, timestamp, signature }

def plain : Primitives := { primitives with finishBlob := plainBlob, getBlob := readPlainBlob }

theorem length_plain (blob : BlobData) :
    (encodeBlob plain blob).length = blob.data.length + blob.signature.length + 71 := by
  simp [encodeBlob, plain, plainBlob, plainVector]
  omega

/-- A signature that verifies has 33 bytes. -/
theorem length_plain_verified {ns : Hash32} {blob : BlobData} {pubkey : PubKey}
    (h : verifySignature plain ns blob pubkey = true) :
    (encodeBlob plain blob).length = blob.data.length + 104 := by
  have hsignature : blob.signature =
      sign (buildSigningInput plain ns blob.data blob.ttl blob.timestamp) pubkey := by
    simpa [verifySignature, plain, primitives] using h
  have hlength : blob.signature.length = 33 := by
    rw [hsignature]
    simp [sign]
  rw [length_plain, hlength]

/-- Blobs of different times have different hashes. -/
theorem plain_timestamp_eq {a b : BlobData} (h : contentHash plain a = contentHash plain b) :
    a.timestamp = b.timestamp := by
  have htake (blob : BlobData) : (contentHash plain blob).toList.take 8 =
      writeU64Be blob.timestamp := by
    show ((plainBlob _ ++ List.replicate 32 0).take 32).take 8 = _
    rw [List.take_take, plainBlob, List.append_assoc]
    exact List.take_left' (length_writeU64Be _)
  have hread := readU64Be_writeU64Be a.timestamp
  rw [← htake, h, htake, readU64Be_writeU64Be] at hread
  exact (Option.some.inj hread).symm

/-! ## A key and large blobs -/

def cappedEnv (cap : UInt64) : Env := { config := { blobMaxBytes := cap }, now := 3000000 }

/-- A blob with as many bytes of data. Like a PUBK it is too long to be computed with. -/
@[irreducible] def bulk (n : Nat) (timestamp : UInt64) : BlobData :=
  signed (key 1) (owned 1) (owned 1) (List.replicate n 7) 0 timestamp

section

variable {n : Nat} {timestamp cap : UInt64}

theorem bulk_data : (bulk n timestamp).data = List.replicate n 7 := by rw [bulk, signed]

theorem bulk_ttl : (bulk n timestamp).ttl = 0 := by rw [bulk, signed]

theorem bulk_timestamp : (bulk n timestamp).timestamp = timestamp := by rw [bulk, signed]

theorem bulk_signerHint : (bulk n timestamp).signerHint = owned 1 := by rw [bulk, signed]

theorem verify_bulk : verifySignature plain (owned 1) (bulk n timestamp) (key 1) = true := by
  rw [bulk]
  exact verify_signed _ _ _ _ _ _

/-- It is none of the special blobs. -/
theorem bulk_magic {magic : Bytes} (hmagic : magic ≠ [7, 7, 7, 7]) (hn : 4 ≤ n) :
    hasMagic magic (bulk n timestamp).data = false := by
  rw [hasMagic, bulk_data, List.take_replicate, Nat.min_eq_left hn, beq_eq_false_iff_ne]
  exact hmagic.symm

/-- What is left of the checks. -/
theorem admissible_capped {blob : BlobData} (hmax : blob.data.length ≤ cap.toNat)
    (htime : checkTimestamp (cappedEnv cap) blob = none)
    (httl : blob.ttl = 0) (hsignature : blob.signature ≠ [])
    (hbomb : hasBombMagic blob.data = false) : Admissible (cappedEnv cap) blob where
  size := if_neg (Nat.not_lt.mpr hmax)
  capacity := by simp [checkCapacity, cappedEnv]
  timestamp := htime
  expired := by simp [checkExpired, httl]
  maxTtl := by simp [checkMaxTtl, cappedEnv]
  signature := by simp [checkSignaturePresent, hsignature]
  bomb := by simp [checkBomb, hbomb]

theorem checkTimestamp_capped {blob : BlobData} (h : blob.timestamp = 3000000 ∨
    blob.timestamp = 3000001 ∨ blob.timestamp = 3000002) :
    checkTimestamp (cappedEnv cap) blob = none := by
  rcases h with h | h | h <;> (simp only [checkTimestamp, cappedEnv, h]; decide)

theorem unlimited_capped : Unlimited (cappedEnv cap) (owned 1) :=
  ⟨by simp [cappedEnv, effectiveQuota], rfl, rfl, rfl, rfl⟩

/-- The owner stores it. -/
theorem ingest_bulk (hn : 4 ≤ n) (hmax : n ≤ cap.toNat)
    (htime : checkTimestamp (cappedEnv cap) (bulk n timestamp) = none)
    (hkey : t.getOwnerPubkey (owned 1) = some (key 1))
    (hfresh : t.getBlob (owned 1) (contentHash plain (bulk n timestamp)) = none)
    (hmark : t.hasTombstoneFor (owned 1) (contentHash plain (bulk n timestamp)) = false) :
    ∃ ack, ingest plain (cappedEnv cap) t (owned 1) (bulk n timestamp) =
      (t.insertBlob plain (owned 1) (bulk n timestamp), .done (.success ack)) := by
  have hpubk : isPubkeyBlob (bulk n timestamp).data = false := by
    simp [isPubkeyBlob, bulk_magic (show PUBKEY_MAGIC ≠ [7, 7, 7, 7] by decide) hn]
  have hregular : isRegular (bulk n timestamp) = true := by
    simp [isRegular, isTombstone, isBomb, hasBombMagic,
      bulk_magic (show TOMBSTONE_MAGIC ≠ [7, 7, 7, 7] by decide) hn,
      bulk_magic (show BOMB_MAGIC ≠ [7, 7, 7, 7] by decide) hn]
  have hadm : Admissible (cappedEnv cap) (bulk n timestamp) :=
    admissible_capped (by rwa [bulk_data, List.length_replicate]) htime bulk_ttl
      (by simp [bulk, signed, sign])
      (by simp [hasBombMagic, bulk_magic (show BOMB_MAGIC ≠ [7, 7, 7, 7] by decide) hn])
  have hcall := ingest_own_fresh (P := plain) hadm unlimited_capped bulk_signerHint hkey
    (hash_key 1) verify_bulk hfresh (fun _ => hmark) (fun h => by simp [hpubk] at h)
  rw [prepared_regular hregular hpubk] at hcall
  exact ⟨_, hcall⟩

end

/-- Three and sixty-four MiB of data. -/
def small : BlobData := bulk (3 * 1024 * 1024) 3000001

def large : BlobData := bulk (64 * 1024 * 1024) 3000002

/-- The owner's key and the smaller blob, and what comes after them. -/
def smallEvents (cap : UInt64) (rest : List Engine.Event) : List Engine.Event :=
  callAlone 0 (cappedEnv cap) .ingest (owned 1) (pubk 1 (owned 1) 3000000) ++
    (callAlone 1 (cappedEnv cap) .ingest (owned 1) small ++ rest)

theorem cappedBy_smallEvents (cap : UInt64) {rest : List Engine.Event}
    (hrest : CappedBy cap.toNat rest) : CappedBy cap.toNat (smallEvents cap rest) := by
  intro i env hmem
  have henv : env = cappedEnv cap ∨ .resume i env ∈ rest := by
    simp only [smallEvents, callAlone, List.mem_append, List.mem_cons,
      List.mem_replicate, reduceCtorEq, Engine.Event.resume.injEq, false_or] at hmem
    tauto
  rcases henv with rfl | hmem
  · rfl
  · exact hrest i env hmem

/-- The tables after the key, and after the smaller blob. -/
def keyed : Tables :=
  { ownerPubkeys := (∅ : Table Hash32 PubKey).insert (owned 1) (key 1) : Tables }.insertBlob
    plain (owned 1)
    (pubk 1 (owned 1) 3000000)

def filled : Tables := keyed.insertBlob plain (owned 1) small

theorem owner_keyed : keyed.getOwnerPubkey (owned 1) = some (key 1) := by
  rw [keyed, getOwnerPubkey_insertBlob, Tables.getOwnerPubkey, getElem?_insert_eq, if_pos rfl]

theorem getBlob_keyed {blob : BlobData} (h : blob.timestamp ≠ 3000000) :
    keyed.getBlob (owned 1) (contentHash plain blob) = none := by
  have hne : contentHash plain (pubk 1 (owned 1) 3000000) ≠ contentHash plain blob :=
    fun heq => h ((plain_timestamp_eq heq).symm.trans (pubk_timestamp _ _ _))
  rw [keyed, getBlob_insertBlob, if_neg fun hkey => hne hkey.2]
  exact getBlob_empty

theorem mark_filled (hash : Hash32) :
    keyed.hasTombstoneFor (owned 1) hash = false ∧
    filled.hasTombstoneFor (owned 1) hash = false := by
  have hpubk : isTombstone (pubk 1 (owned 1) 3000000).data = false :=
    isTombstone_of_isRegular (isRegular_of_isPubkeyBlob (isPubkeyBlob_pubk _ _ _))
  have hsmall : isTombstone small.data = false := by
    simp [isTombstone, small, bulk_magic (show TOMBSTONE_MAGIC ≠ [7, 7, 7, 7] by decide)]
  have hkeyed : keyed.hasTombstoneFor (owned 1) hash = false := by
    rw [keyed, hasTombstoneFor_insertBlob, hpubk]
    simp [Tables.hasTombstoneFor]
  refine ⟨hkeyed, ?_⟩
  rw [filled, hasTombstoneFor_insertBlob, hsmall, hkeyed]
  rfl

theorem hash_small_ne_large : contentHash plain small ≠ contentHash plain large := by
  intro heq
  have htime := plain_timestamp_eq heq
  rw [small, large, bulk_timestamp, bulk_timestamp] at htime
  exact absurd htime (by decide)

/-- The first two calls of the owner. -/
theorem run_smallEvents (cap : UInt64) (hcap : small.data.length ≤ cap.toNat) :
    ∃ tasks, tasks.length = 2 ∧ ∀ rest, run (Node.step plain) {} (smallEvents cap rest) =
      run (Node.step plain) { tables := filled, tasks } rest := by
  rw [small, bulk_data, List.length_replicate] at hcap
  have hpubk := isPubkeyBlob_pubk 1 (owned 1) 3000000
  have hadm : Admissible (cappedEnv cap) (pubk 1 (owned 1) 3000000) := by
    refine admissible_capped ?_ (checkTimestamp_capped (.inl (pubk_timestamp _ _ _)))
      (pubk_ttl _ _ _) (by simp [signature_pubk]) (hasBombMagic_of_isPubkeyBlob hpubk)
    simp only [isPubkeyBlob, Bool.and_eq_true, beq_iff_eq] at hpubk
    rw [hpubk.1]
    exact Nat.le_trans (by decide) hcap
  obtain ⟨ack₁, hkey⟩ := ingest_first (P := plain) hadm unlimited_capped (isPubkeyBlob_pubk _ _ _)
    (extractPubkSigningPk_pubk _ _ _) (hash_key 1) (verify_pubk _ _ _)
  rw [pubk_signerHint] at hkey
  obtain ⟨ack₂, hsmall⟩ : ∃ ack, ingest plain (cappedEnv cap) keyed (owned 1) small =
    (filled, .done (.success ack)) :=
    ingest_bulk (by omega) hcap (checkTimestamp_capped (.inr (.inl bulk_timestamp))) owner_keyed
      (getBlob_keyed (by rw [bulk_timestamp]; decide)) (mark_filled _).1
  exact ⟨[_, _], rfl, fun rest =>
    (run_callAlone_append hkey rfl _).trans (run_callAlone_append hsmall rfl _)⟩

/-- The key and the blob of three MiB, which both are stored, under the default cap. -/
theorem batch_read_deliverable_small :
    (run (Node.step plain) {} (smallEvents (4 * 1024 * 1024) [])).tables = filled ∧
    ∃ response,
      handleBatchReadRequest plain
        (run (Node.step plain) {} (smallEvents (4 * 1024 * 1024) [])).tables 3000001
        (batchReadRequest (owned 1) 0
          [contentHash plain (pubk 1 (owned 1) 3000000), contentHash plain small]) =
        .ok response ∧
      response.length ≤ MAX_CHUNKED_WIRE_PAYLOAD := by
  refine ⟨?_, batch_read_deliverable plain {} valid_default 104
    (fun _ _ _ h => (length_plain_verified h).le) (by decide) _
    (cappedBy_smallEvents (4 * 1024 * 1024) fun _ _ h => absurd h List.not_mem_nil) 3000001 _ _
    (parseBatchReadRequest_batchReadRequest (owned 1) 0 (by simp) (by simp [MAX_BATCH_READ]))⟩
  obtain ⟨tasks, -, hrun⟩ := run_smallEvents (4 * 1024 * 1024)
    (by rw [small, bulk_data, List.length_replicate]; decide)
  rw [hrun, run_nil]

/-! ## A batch that does not arrive -/

def greatestCap : NodeConfig := { blobMaxBytes := MAX_BLOB_DATA_HARD_CEILING }

def bulkEvents : List Engine.Event :=
  smallEvents (64 * 1024 * 1024)
    (callAlone 2 (cappedEnv (64 * 1024 * 1024)) .ingest (owned 1) large)

theorem cappedBy_bulkEvents : CappedBy greatestCap.blobMaxBytes bulkEvents := by
  refine cappedBy_smallEvents (64 * 1024 * 1024) fun i env hmem => ?_
  simp only [callAlone, List.mem_cons, List.mem_replicate, reduceCtorEq,
    Engine.Event.resume.injEq, false_or] at hmem
  rw [hmem.2.2]
  rfl

/-- The three calls of the owner. -/
theorem run_bulkEvents :
    (run (Node.step plain) {} bulkEvents).tables = filled.insertBlob plain (owned 1) large := by
  obtain ⟨ack, hlarge⟩ : ∃ ack,
      ingest plain (cappedEnv (64 * 1024 * 1024)) filled (owned 1) large =
        (filled.insertBlob plain (owned 1) large, .done (.success ack)) := by
    refine ingest_bulk (by omega) (by decide)
      (checkTimestamp_capped (.inr (.inr bulk_timestamp))) owner_keyed ?_ (mark_filled _).2
    rw [filled, getBlob_insertBlob, if_neg fun h => hash_small_ne_large h.2]
    exact getBlob_keyed (by rw [bulk_timestamp]; decide)
  obtain ⟨tasks, htasks, hrun⟩ := run_smallEvents (64 * 1024 * 1024)
    (by rw [small, bulk_data, List.length_replicate]; decide)
  rw [bulkEvents, hrun, ← htasks, run_callAlone { tables := filled, tasks } hlarge]

/-- The entry of a stored blob. -/
theorem batchReadEntry_bulk {n : Nat} {timestamp : UInt64} (now : UInt64)
    (h : t.getBlob (owned 1) (contentHash plain (bulk n timestamp)) = some (bulk n timestamp)) :
    batchReadEntry plain t now (owned 1) (contentHash plain (bulk n timestamp)) =
      ⟨contentHash plain (bulk n timestamp), some (encodeBlob plain (bulk n timestamp))⟩ := by
  simp [batchReadEntry, h, isBlobExpired, bulk_ttl]

theorem length_bulk (n : Nat) (timestamp : UInt64) :
    (encodeBlob plain (bulk n timestamp)).length = n + 104 := by
  rw [length_plain_verified verify_bulk, bulk_data, List.length_replicate]

/-- A second blob is added whatever its size, if the first one does not reach the cap. -/
theorem batchReadFrom_two {read : Hash32 → BatchReadEntry} {cap : Nat} {a b : Hash32} {x y : Bytes}
    (ha : read a = ⟨a, some x⟩) (hb : read b = ⟨b, some y⟩) (hx : x.length < cap) :
    batchReadFrom read cap [a, b] 0 = ([⟨a, some x⟩, ⟨b, some y⟩], false) := by
  have hopen : ¬0 + x.length ≥ cap := by omega
  simp only [batchReadFrom, ha, hb, if_neg hopen]
  split_ifs <;> rfl

theorem length_encodeBatchReadResponse_two (a b : Hash32) (x y : Bytes) (truncated : Bool) :
    (encodeBatchReadResponse [⟨a, some x⟩, ⟨b, some y⟩] truncated).length =
        87 + (x.length + y.length) := by
  simp only [encodeBatchReadResponse, encodeBatchReadEntry, List.flatMap_cons, List.flatMap_nil,
    List.length_cons, List.length_append, List.length_nil, List.Vector.toList_length,
    length_writeU32Be, length_writeU64Be]
  omega

/-- The larger blob follows the smaller one, which alone does not reach the cap. -/
theorem batch_read_exceeds : greatestCap.Valid ∧ CappedBy greatestCap.blobMaxBytes bulkEvents ∧
    ∃ response,
      handleBatchReadRequest plain (run (Node.step plain) {} bulkEvents).tables 3000002
        (batchReadRequest (owned 1) 0 [contentHash plain small, contentHash plain large]) =
          .ok response ∧
      MAX_CHUNKED_WIRE_PAYLOAD < response.length := by
  refine ⟨by decide, cappedBy_bulkEvents, ?_⟩
  have hparse := @parseBatchReadRequest_batchReadRequest (owned 1) 0
    [contentHash plain small, contentHash plain large] (by simp) (by simp [MAX_BATCH_READ])
  set t := (run (Node.step plain) {} bulkEvents).tables with ht
  have hsmall : t.getBlob (owned 1) (contentHash plain small) = some small := by
    rw [ht, run_bulkEvents, getBlob_insertBlob, if_neg fun h =>
      hash_small_ne_large h.2.symm, filled, getBlob_insertBlob, if_pos ⟨rfl, rfl⟩]
  have hlarge : t.getBlob (owned 1) (contentHash plain large) = some large := by
    rw [ht, run_bulkEvents, getBlob_insertBlob, if_pos ⟨rfl, rfl⟩]
  have hsize : (encodeBlob plain small).length < effectiveCap 0 := by
    rw [small, length_bulk]
    decide
  have hread :=
    batchReadFrom_two (batchReadEntry_bulk 3000002 hsmall)
      (batchReadEntry_bulk 3000002 hlarge) hsize
  refine ⟨_, handleBatchReadRequest_eq hparse hread, ?_⟩
  rw [length_encodeBatchReadResponse_two, length_bulk, length_bulk]
  decide

end Sample

end Peer
