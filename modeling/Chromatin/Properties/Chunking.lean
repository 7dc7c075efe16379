import Chromatin.Cli.Pipeline
import Chromatin.Properties.Transport

/-!
# The size of a reassembled message

The header of a chunked message declares its size, and the end is marked by an empty sub-frame. The
node gives up when it has more than 64 bytes over the declared size, the client never does, and
neither compares the sizes at the end.

* `chunked_size_iff` — the payload has the declared size, and the extra bytes of the header, exactly
  if the sub-frames before the empty one do
* `chunked_size_le` — what the node makes sure of
* `chunked_size_sent` — what a node sends meets the condition
-/

namespace Net

open Infra Util

variable {S : Suite} {chunks : List Bytes} {r : Receiver} {m : Message} {header : Bytes}

/-- The message loop on decrypted frames. -/
def Receiver.feed (S : Suite) (r : Receiver) (frames : List Bytes) : Receiver :=
  frames.foldl (fun r frame => if r.stopped then r else r.handle S frame) r

/-- The bytes in the sub-frames of a message. -/
def chunkedSize (chunks : List Bytes) : Nat := (chunks.map List.length).sum

/-! ## The node -/

theorem feed_stopped (h : r.stopped = true) (frames : List Bytes) : r.feed S frames = r := by
  induction frames with
  | nil => rfl
  | cons frame frames ih =>
    show (if r.stopped then r else r.handle S frame).feed S frames = r
    rw [if_pos h, ih]

/-- From the header on: the sub-frames are appended as long as the sum stays within the bound, and
the empty one delivers the message. -/
theorem feed_chunks {part : Reassembly} (hpart : r.reassembly = some part)
    (hrunning : r.stopped = false) (hchunks : ∀ chunk ∈ chunks, chunk ≠ [])
    (hm : (r.feed S (chunks ++ [[]])).delivered = r.delivered ++ [m]) :
    m.payload = part.payload ++ chunks.flatten ∧
      (chunks ≠ [] → m.payload.length ≤ part.totalPayloadSize.toNat + 64) := by
  induction chunks generalizing r part with
  | nil =>
    have hdelivered : (r.feed S [[]]).delivered =
        r.delivered ++
            [{ type := part.type, payload := part.payload, requestId := part.requestId }] := by
      simp [Receiver.feed, hrunning, Receiver.handle, hpart, Receiver.continueChunked]
    rw [List.nil_append, hdelivered] at hm
    obtain rfl := (List.cons.inj (List.append_cancel_left hm)).1
    exact ⟨by simp, fun h => absurd rfl h⟩
  | cons chunk chunks ih =>
    have hne : chunk.isEmpty = false := by simpa using hchunks chunk List.mem_cons_self
    have hhandle : r.handle S chunk = r.continueChunked part chunk :=
      by simp [Receiver.handle, hpart]
    have hfeed : r.feed S (chunk :: chunks ++ [[]]) =
        (r.continueChunked part chunk).feed S (chunks ++ [[]]) := by
      show (if r.stopped then r else r.handle S chunk).feed S (chunks ++ [[]]) = _
      rw [if_neg (by simp [hrunning]), hhandle]
    rw [hfeed] at hm
    unfold Receiver.continueChunked at hm
    rw [hne, if_neg (by simp)] at hm
    dsimp only at hm
    split_ifs at hm with hlong
    · -- the loop has ended, and nothing is delivered any more
      rw [feed_stopped rfl] at hm
      exact absurd hm (by simp)
    · obtain ⟨hpayload, hbound⟩ :=
        ih (r := { r with reassembly := some { part with payload := part.payload ++ chunk } })
        rfl hrunning (fun c hc => hchunks c (List.mem_cons_of_mem _ hc)) hm
      refine ⟨by rw [hpayload, List.flatten_cons, List.append_assoc], fun _ => ?_⟩
      cases chunks with
      | nil =>
        rw [hpayload, List.flatten_nil, List.append_nil]
        exact Nat.le_of_not_lt hlong
      | cons next chunks => exact hbound (by simp)

/-- **What the node delivers for a chunked message**: the extra bytes of the header and the
sub-frames. -/
theorem feed_header (hidle : r.reassembly = none) (hrunning : r.stopped = false)
    (hhead : header.head? = some 0x01) {total : UInt64} (htotal : readU64Be header 6 = some total)
    (hchunks : ∀ chunk ∈ chunks, chunk ≠ [])
    (hm : (r.feed S (header :: chunks ++ [[]])).delivered = r.delivered ++ [m]) :
    m.payload = header.drop CHUNKED_HEADER_SIZE ++ chunks.flatten ∧
      (chunks ≠ [] → m.payload.length ≤ total.toNat + 64) := by
  have hfeed : r.feed S (header :: chunks ++ [[]]) =
      (r.beginChunked header).feed S (chunks ++ [[]]) := by
    show (if r.stopped then r else r.handle S header).feed S (chunks ++ [[]]) = _
    rw [if_neg (by simp [hrunning]), Receiver.handle, hidle]
    simp only [hhead, if_true]
  rw [hfeed] at hm
  unfold Receiver.beginChunked at hm
  rw [htotal] at hm
  split at hm
  next type requestId total' htype hid htotal' =>
    obtain rfl := Option.some.inj htotal'
    split_ifs at hm
    · rw [feed_stopped rfl] at hm
      exact absurd hm (by simp)
    · exact feed_chunks (r := { r with reassembly := some _ }) rfl hrunning hchunks hm
  next =>
    rw [feed_stopped rfl] at hm
    exact absurd hm (by simp)

/-! ## The client -/

theorem recvChunks_append (hchunks : ∀ chunk ∈ chunks, chunk ≠ []) (payload : Bytes)
    (frames : List Bytes) : Cli.recvChunks payload (chunks ++ [] :: frames) =
        some (payload ++ chunks.flatten, frames) := by
  induction chunks generalizing payload with
  | nil => simp [Cli.recvChunks]
  | cons chunk chunks ih =>
    have hne : chunk.isEmpty = false := by simpa using hchunks chunk List.mem_cons_self
    show (if chunk.isEmpty then _
      else Cli.recvChunks (payload ++ chunk) (chunks ++ [] :: frames)) = _
    rw [hne, if_neg (by simp), ih fun c hc => hchunks c (List.mem_cons_of_mem _ hc)]
    simp

/-- What the client returns for a chunked message. -/
theorem recv_header (hhead : header.head? = some 0x01)
    (hlength : CHUNKED_HEADER_SIZE ≤ header.length)
    (hchunks : ∀ chunk ∈ chunks, chunk ≠ []) {frames rest : List Bytes}
    (hm : Cli.recv S (header :: chunks ++ [] :: frames) = some (m, rest)) :
    m.payload = header.drop CHUNKED_HEADER_SIZE ++ chunks.flatten := by
  rw [List.cons_append, Cli.recv, if_pos ⟨hhead, hlength⟩, recvChunks_append hchunks] at hm
  simp only [Option.bind_eq_bind, Option.bind_eq_some_iff] at hm
  obtain ⟨type, -, requestId, -, total, -, hm⟩ := hm
  split_ifs at hm
  simp only [Option.bind_some, Option.some.injEq, Prod.mk.injEq] at hm
  exact hm.1 ▸ rfl

/-! ## Both -/

theorem length_reassembled (hlength : CHUNKED_HEADER_SIZE ≤ header.length)
    {payload : Bytes} (h : payload = header.drop CHUNKED_HEADER_SIZE ++ chunks.flatten)
    (total : Nat) :
    payload.length = total + (header.length - CHUNKED_HEADER_SIZE) ↔
    chunkedSize chunks = total := by
  rw [h, List.length_append, List.length_drop, List.length_flatten, chunkedSize]
  omega

/-- **A reassembled message has its declared size exactly if its sub-frames have**, for the message
loop of the node and for `recv` of the client. -/
theorem chunked_size_iff (S : Suite) (header : Bytes) (total : UInt64) (chunks : List Bytes)
    (hhead : header.head? = some 0x01) (hlength : CHUNKED_HEADER_SIZE ≤ header.length)
    (htotal : readU64Be header 6 = some total) (hchunks : ∀ chunk ∈ chunks, chunk ≠ []) :
    (∀ (r : Receiver) (m : Message), r.reassembly = none → r.stopped = false →
      (r.feed S (header :: chunks ++ [[]])).delivered = r.delivered ++ [m] →
      (m.payload.length = total.toNat + (header.length - CHUNKED_HEADER_SIZE) ↔
        chunkedSize chunks = total.toNat)) ∧
    (∀ (frames rest : List Bytes) (m : Message),
      Cli.recv S (header :: chunks ++ [] :: frames) = some (m, rest) →
      (m.payload.length = total.toNat + (header.length - CHUNKED_HEADER_SIZE) ↔
        chunkedSize chunks = total.toNat)) := by
  constructor
  · intro r m hidle hrunning hm
    exact length_reassembled hlength
      (feed_header hidle hrunning hhead htotal hchunks hm).1 total.toNat
  · intro frames rest m hm
    exact length_reassembled hlength (recv_header hhead hlength hchunks hm) total.toNat

theorem chunkedSize_chunksFrom (payload : Bytes) (offset : Nat) :
    chunkedSize (chunksFrom payload offset) = payload.length - offset := by
  induction offset using chunksFrom.induct payload with
  | case1 offset hlt ih =>
    rw [chunksFrom_of_lt hlt, chunkedSize, List.map_cons, List.sum_cons, ← chunkedSize, ih,
      length_payloadChunk]
    have := streamingThreshold_pos
    omega
  | case2 offset hge =>
    rw [chunksFrom_of_ge hge]
    simp only [chunkedSize, List.map_nil, List.sum_nil]
    omega

/-- What `drain_send_queue` sends has the declared size. -/
theorem chunked_size_sent (m : Message) (h : m.payload.length < 2 ^ 64) :
    readU64Be (chunkedHeader m) 6 = some (UInt64.ofNat m.payload.length) ∧
      chunkedSize (chunksFrom m.payload 0) = (UInt64.ofNat m.payload.length).toNat := by
  refine ⟨readU64Be_chunkedHeader m, ?_⟩
  rw [chunkedSize_chunksFrom, UInt64.toNat_ofNat_of_lt' h, Nat.sub_zero]

section Sample

/-- A header that declares five bytes. -/
def fiveBytes : Bytes := chunkedHeader { type := 8, payload := [1, 2, 3, 4, 5], requestId := 7 }

/-- Sub-frames of five bytes in all. -/
theorem chunked_size_fiveBytes :
    (({ recvCounter := 0 } : Receiver).feed sampleSuite
        (fiveBytes :: [[1, 2], [3, 4, 5]] ++ [[]])).delivered =
        [{ type := 8, payload := [1, 2, 3, 4, 5], requestId := 7 }] ∧
      ([1, 2, 3, 4, 5] : Bytes).length =
          (5 : UInt64).toNat + (fiveBytes.length - CHUNKED_HEADER_SIZE) := by
  have hdelivered : (({ recvCounter := 0 } : Receiver).feed sampleSuite
      (fiveBytes :: [[1, 2], [3, 4, 5]] ++ [[]])).delivered =
        [{ type := 8, payload := [1, 2, 3, 4, 5], requestId := 7 }] := by decide
  refine ⟨hdelivered, ?_⟩
  have hsize :=
    (chunked_size_iff sampleSuite fiveBytes 5 [[1, 2], [3, 4, 5]] (by decide) (by decide)
      (by decide) (by decide)).1 { recvCounter := 0 }
      { type := 8, payload := [1, 2, 3, 4, 5], requestId := 7 } rfl rfl hdelivered
  exact hsize.mpr (by decide)

/-- **A message without sub-frames is accepted, whatever size it has declared.** -/
theorem chunked_size_ignored :
    readU64Be fiveBytes 6 = some 5 ∧
      (({ recvCounter := 0 } : Receiver).feed sampleSuite [fiveBytes, []]).delivered =
        [{ type := 8, payload := [], requestId := 7 }] ∧
      Cli.recv sampleSuite [fiveBytes, []] =
          some ({ type := 8, payload := [], requestId := 7 }, []) := by
  decide

end Sample

end Net
