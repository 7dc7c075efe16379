import Chromatin.Infra.Slices
import Chromatin.Peer.QueryRequests

/-!
# A client of the query requests (`PROTOCOL.md`, query extensions)

The repository has no client for these requests. This one reads the responses as the protocol
describes them: it lists the namespaces page by page and asks again for the hashes that a batch has
left over. It gives up when it gets an error or a response that it cannot read; `none` stands for a
client that is still asking.
-/

namespace Peer

open Infra Util Wire Storage

/-! ## Namespaces -/

def namespaceListRequest (afterNs : Hash32) (limit : UInt32) : Bytes :=
  afterNs.toList ++ writeU32Be limit

def parseNamespaceEntry (payload : Bytes) (offset : Nat) : Option (NamespaceEntry × Nat) := do
  let namespaceId ← readFixed 32 payload offset
  let blobCount ← readU64Be payload (offset + 32)
  some ({ namespaceId, blobCount }, offset + 40)

def parseNamespaceListResponse (payload : Bytes) : Option (List NamespaceEntry × UInt8) := do
  let count ← readU32Be payload 0
  let hasMore ← payload[4]?
  let entries ← decodeMany parseNamespaceEntry payload count.toNat 5
  some (entries, hasMore)

/-- Continue behind the last namespace while there are more. -/
def namespacePages (server : Bytes → Except UInt8 Bytes) (limit : UInt32) :
    Nat → Hash32 → Option (List NamespaceEntry)
  | 0, _ => none
  | fuel + 1, afterNs =>
    match server (namespaceListRequest afterNs limit) with
    | .error _ => some []
    | .ok payload =>
      match parseNamespaceListResponse payload with
      | none => some []
      | some (entries, hasMore) =>
        if hasMore = 0 then some entries
        else
          match entries.getLast? with
          | none => some entries
          | some last => (namespacePages server limit fuel last.namespaceId).map (entries ++ ·)

/-! ## Batches -/

def batchReadRequest (ns : Hash32) (capBytes : UInt32) (hashes : List Hash32) : Bytes :=
  ns.toList ++ (writeU32Be capBytes ++
    (writeU32Be (UInt32.ofNat hashes.length) ++ encodeHashes hashes))

def parseBatchReadEntry (payload : Bytes) (offset : Nat) : Option (BatchReadEntry × Nat) := do
  let status ← payload[offset]?
  let hash ← readFixed 32 payload (offset + 1)
  if status = 0 then some (⟨hash, none⟩, offset + 33)
  else
    let size ← readU64Be payload (offset + 33)
    let encoded := sliceAt payload (offset + 41) size.toNat
    guard (encoded.length = size.toNat)
    some (⟨hash, some encoded⟩, offset + 41 + size.toNat)

def parseBatchReadResponse (payload : Bytes) : Option (List BatchReadEntry × UInt8) := do
  let truncated ← payload[0]?
  let count ← readU32Be payload 1
  let entries ← decodeMany parseBatchReadEntry payload count.toNat 5
  some (entries, truncated)

/-- Ask again for the hashes without an entry while the response is truncated. The server may answer
each request at another time. -/
def batchReadAll (server : Nat → Bytes → Except UInt8 Bytes) (ns : Hash32) (capBytes : UInt32) :
    Nat → Nat → List Hash32 → Option (List BatchReadEntry)
  | 0, _, _ => none
  | fuel + 1, round, hashes =>
    match server round (batchReadRequest ns capBytes hashes) with
    | .error _ => some []
    | .ok payload =>
      match parseBatchReadResponse payload with
      | none => some []
      | some (entries, truncated) =>
        if truncated = 0 then some entries
        else
          (batchReadAll server ns capBytes fuel (round + 1) (hashes.drop entries.length)).map
            (entries ++ ·)

/-! ## Time ranges -/

def timeRangeRequest (q : TimeRangeQuery) : Bytes :=
  q.ns.toList ++ (writeU64Be q.startTs ++ (writeU64Be q.endTs ++ writeU32Be q.limit))

def parseTimeRangeEntry (payload : Bytes) (offset : Nat) : Option (TimeRangeEntry × Nat) := do
  let blobHash ← readFixed 32 payload offset
  let seqNum ← readU64Be payload (offset + 32)
  let timestamp ← readU64Be payload (offset + 40)
  some ({ blobHash, seqNum, timestamp }, offset + 48)

def parseTimeRangeResponse (payload : Bytes) : Option (List TimeRangeEntry × UInt8) := do
  let truncated ← payload[0]?
  let count ← readU32Be payload 1
  let results ← decodeMany parseTimeRangeEntry payload count.toNat 5
  some (results, truncated)

/-! ## What was written is read -/

theorem readsBack_namespaceEntry (entry : NamespaceEntry) :
    ReadsBack parseNamespaceEntry encodeNamespaceEntry entry := by
  intro pre post
  simp [parseNamespaceEntry, encodeNamespaceEntry]

theorem readsBack_timeRangeEntry (entry : TimeRangeEntry) :
    ReadsBack parseTimeRangeEntry encodeTimeRangeEntry entry := by
  intro pre post
  simp [parseTimeRangeEntry, encodeTimeRangeEntry]

/-- The size of a blob has to fit into its field. -/
theorem readsBack_batchReadEntry {entry : BatchReadEntry}
    (hsize : ∀ encoded, entry.encoded = some encoded → encoded.length < 2 ^ 64) :
    ReadsBack parseBatchReadEntry encodeBatchReadEntry entry := by
  intro pre post
  obtain ⟨hash, _ | encoded⟩ := entry
  · simp [parseBatchReadEntry, encodeBatchReadEntry]
  · have hfits : (UInt64.ofNat encoded.length).toNat = encoded.length :=
      UInt64.toNat_ofNat_of_lt' (hsize encoded rfl)
    have hslice (rest : Bytes) : sliceAt (1 :: rest) 41 encoded.length =
      sliceAt rest 40 encoded.length := rfl
    simp [parseBatchReadEntry, encodeBatchReadEntry, -UInt64.toNat_ofNat', hfits, guard, hslice]
    omega

theorem parseNamespaceListResponse_encode {entries : List NamespaceEntry}
    (hlength : entries.length < 2 ^ 32) (hasMore : Bool) :
    parseNamespaceListResponse (encodeNamespaceListResponse entries hasMore) =
      some (entries, if hasMore then 1 else 0) := by
  have hcount : (UInt32.ofNat entries.length).toNat = entries.length :=
    UInt32.toNat_ofNat_of_lt' hlength
  set flag : UInt8 := if hasMore then 1 else 0 with hflag
  have hentries :=
    decodeMany_append (fun entry (_ : entry ∈ entries) => readsBack_namespaceEntry entry)
    (writeU32Be (UInt32.ofNat entries.length) ++ [flag]) []
  simp only [List.append_nil, List.append_assoc, List.length_append, List.singleton_append,
    List.length_singleton, length_writeU32Be] at hentries
  simp [parseNamespaceListResponse, encodeNamespaceListResponse, ← hflag,
    -UInt32.toNat_ofNat', hcount, hentries]

/-- A response that begins with a flag and a count. -/
theorem parse_flagged {α : Type} {decode : Bytes → Nat → Option (α × Nat)} {encode : α → Bytes}
    {records : List α} (h : ∀ record ∈ records, ReadsBack decode encode record)
    (hlength : records.length < 2 ^ 32) (flag : UInt8) :
    let payload := flag :: (writeU32Be (UInt32.ofNat records.length) ++ records.flatMap encode)
    payload[0]? = some flag ∧ readU32Be payload 1 = some (UInt32.ofNat records.length) ∧
      decodeMany decode payload (UInt32.ofNat records.length).toNat 5 = some records := by
  have hcount : (UInt32.ofNat records.length).toNat = records.length :=
    UInt32.toNat_ofNat_of_lt' hlength
  rw [hcount]
  have hrecords := decodeMany_append h (flag :: writeU32Be (UInt32.ofNat records.length)) []
  simp only [List.append_nil, List.cons_append, List.length_cons, length_writeU32Be] at hrecords
  exact ⟨rfl, by simp, hrecords⟩

theorem parseBatchReadResponse_encode {entries : List BatchReadEntry}
    (hlength : entries.length < 2 ^ 32)
    (hsize : ∀ entry ∈ entries, ∀ encoded, entry.encoded = some encoded → encoded.length < 2 ^ 64)
    (truncated : Bool) :
    parseBatchReadResponse (encodeBatchReadResponse entries truncated) =
      some (entries, if truncated then 1 else 0) := by
  obtain ⟨hflag, hcount, hentries⟩ := parse_flagged
    (fun entry hentry => readsBack_batchReadEntry (hsize entry hentry)) hlength
      (if truncated then 1 else 0)
  simp only [parseBatchReadResponse, encodeBatchReadResponse, hflag, hcount, hentries,
    Option.bind_eq_bind, Option.bind_some]

theorem parseTimeRangeResponse_encode {results : List TimeRangeEntry}
    (hlength : results.length < 2 ^ 32)
    (truncated : Bool) : parseTimeRangeResponse (encodeTimeRangeResponse results truncated) =
      some (results, if truncated then 1 else 0) := by
  obtain ⟨hflag, hcount, hresults⟩ := parse_flagged
    (fun entry (_ : entry ∈ results) =>
      readsBack_timeRangeEntry entry) hlength (if truncated then 1 else 0)
  simp only [parseTimeRangeResponse, encodeTimeRangeResponse, hflag, hcount, hresults,
    Option.bind_eq_bind, Option.bind_some]

/-! ## What was asked is understood -/

theorem parseNamespaceListRequest_namespaceListRequest (afterNs : Hash32) (limit : UInt32) :
    parseNamespaceListRequest (namespaceListRequest afterNs limit) = some { afterNs, limit } := by
  simp [parseNamespaceListRequest, namespaceListRequest]

theorem parseBatchReadRequest_batchReadRequest (ns : Hash32) (capBytes : UInt32)
    {hashes : List Hash32}
    (hpos : hashes ≠ []) (hlength : hashes.length ≤ MAX_BATCH_READ) :
    parseBatchReadRequest (batchReadRequest ns capBytes hashes) = .ok { ns, capBytes, hashes } := by
  have hcount : (UInt32.ofNat hashes.length).toNat = hashes.length := by
    have hlt : hashes.length < 2 ^ 32 := by
      unfold MAX_BATCH_READ at hlength
      omega
    exact UInt32.toNat_ofNat_of_lt' hlt
  simp [parseBatchReadRequest, batchReadRequest, -UInt32.toNat_ofNat', hcount, hpos,
    Nat.not_lt.mpr hlength]

theorem parseTimeRangeRequest_timeRangeRequest {q : TimeRangeQuery} (hrange : q.startTs ≤ q.endTs) :
    parseTimeRangeRequest (timeRangeRequest q) = .ok q := by
  simp [parseTimeRangeRequest, timeRangeRequest, UInt64.not_lt.mpr hrange]

end Peer
