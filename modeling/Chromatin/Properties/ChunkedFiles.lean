import Chromatin.Properties.Download
import Chromatin.Properties.Envelope
import Chromatin.Properties.Upload

/-!
# Chunked files come back

`put_chunked` leaves a manifest whose hashes belong to encryptions of the chunks, in order.
`Source` is what a download needs of a manifest and a node; `get_chunked` then restores the file
(`Serving` is its invariant). The two ends disagree about one bound: the writer takes the overhead
of the envelope off the session cap, the reader refuses chunks below 1 MiB. -/

namespace Cli

open Infra Util Wire Net

/-! ## The manifest -/

section Manifest

variable {T : Toolkit}

/-- A manifest passes the decoder exactly if its numbers do. -/
theorem decodeManifestPayload_encodeManifestPayload
    (hget : ∀ fb, T.getManifest (T.finishManifest fb) = some fb) {m m' : ManifestData}
    {sessionCap : UInt64} :
    decodeManifestPayload T (encodeManifestPayload T m) sessionCap = some m' ↔
      m.version = MANIFEST_VERSION_V1 ∧
      (m.segmentCount.toNat ≠ 0 ∧ m.segmentCount.toNat ≤ MAX_CHUNKS) ∧
      CHUNK_SIZE_BYTES_MIN ≤ m.chunkSizeBytes.toNat ∧ m.chunkSizeBytes.toNat ≤ sessionCap.toNat ∧
      (m.totalPlaintextBytes.toNat ≠ 0 ∧
        m.totalPlaintextBytes.toNat ≤ m.segmentCount.toNat * m.chunkSizeBytes.toNat) ∧
      m.chunkHashes.length = m.segmentCount.toNat * 32 ∧ m = m' := by
  have hmagic : hasMagic CPAR_MAGIC.toList (encodeManifestPayload T m) = true := by
    rw [hasMagic, encodeManifestPayload, List.take_left' (List.Vector.toList_length _)]
    exact beq_self_eq_true _
  have hdrop : T.getManifest ((encodeManifestPayload T m).drop 4) = some
      { version := m.version, chunkSizeBytes := m.chunkSizeBytes, segmentCount := m.segmentCount
        totalPlaintextBytes := m.totalPlaintextBytes, plaintextSha3 := some m.plaintextSha3.toList
        chunkHashes := some m.chunkHashes, filename := some m.filename } := by
    rw [encodeManifestPayload, List.drop_left' (List.Vector.toList_length _), hget]
  simp only [decodeManifestPayload, hmagic, hdrop, Option.bind_eq_bind, Option.bind_some,
    Option.bind_eq_some_iff, guard_eq_some, List.Vector.toList_length, readFixed_toList,
    Option.getD_some, exists_const, true_and, Option.some.injEq]

end Manifest

/-! ## Download -/

namespace Download

variable (T : Toolkit) (stored : Hash32 → Option Bytes) (a : DownloadArgs) (file : Bytes)

/-- An answer of a connection that works, to a node that gives back what it stores. Replies come in
any order. -/
def Served (d : Download) : Answer → Prop
  | .sent ok => ok = true ∧ ∃ request rid, d.op a = .sendAsync request rid
  | .received reply => d.op a = .recvNext ∧ ∃ rid i buffer blob, (rid, i) ∈ d.ridToChunkIndex ∧
      reply = some { type := MsgType.ReadResponse, payload := 0x01 :: buffer, requestId := rid } ∧
      decodeBlob T buffer = some blob ∧ stored (a.manifest.target i) = some blob.data

/-- The manifest describes the file, and its chunks can be fetched and decrypted. -/
structure Source : Prop where
  count_pos : 0 < chunkCount a
  count_le : chunkCount a ≤ MAX_CHUNKS
  total_eq : total a = file.length
  below : (chunkCount a - 1) * chunkSize a ≤ file.length
  covers : file.length ≤ chunkCount a * chunkSize a
  sha3 : T.sha3_256 file = a.manifest.plaintextSha3
  chunks : ∀ i < chunkCount a, ∃ envelope,
    stored (a.manifest.target i) = some (CDAT_MAGIC.toList ++ envelope) ∧
    a.decrypt envelope = some (sliceAt file (i * chunkSize a) (chunkSize a))

/-- The file system does what it is asked for. -/
structure DiskWorks : Prop where
  created : Created a
  truncates : a.disk.truncates = true
  writes : ∀ completed, a.disk.writes completed = true
  rereads : a.disk.rereads = true

/-- Every run that is served can go on until it has one answer for each request and one for each
reply; then the file is there. -/
def Restores : Prop :=
  ∀ answers, AllSteps (getChunked T a).step (Served T stored a) (start T a) answers →
    let d := run (getChunked T a).step (start T a) answers
    (d.exit = none ∧ answers.length < 2 * chunkCount a ∧ ∃ answer, Served T stored a d answer) ∨
    (d.exit = some .ok ∧ answers.length = 2 * chunkCount a ∧ d.file = some file)

/-- A download that runs, with the chunks it has received. -/
structure Serving (d : Download) : Prop where
  running : d.exit = none
  idle : d.retrying = none
  unfinished : d.completed < chunkCount a
  counted : d.completed + d.ridToChunkIndex.length = d.next
  rid : d.rid.toNat = d.next + 1
  keys : (d.ridToChunkIndex.map Prod.fst).Nodup
  bound : ∀ r i, (r, i) ∈ d.ridToChunkIndex → r.toNat = i + 1
  tracked : ∃ done plain, Tracked a d done plain ∧
    ∀ i ∈ done, plain i = sliceAt file (i * chunkSize a) (chunkSize a)

variable {T stored a file} {d : Download} {i : Nat}

theorem Source.expectedLen_eq (h : Source T stored a file) (hi : i < chunkCount a) :
    (sliceAt file (i * chunkSize a) (chunkSize a)).length = expectedLen a i := by
  rw [length_sliceAt]
  by_cases hlast : i + 1 = chunkCount a
  · have hbelow : (chunkCount a - 1) * chunkSize a ≤ total a := h.total_eq ▸ h.below
    have hend := expectedLen_last hbelow hlast
    have hcovers := h.covers
    rw [h.total_eq] at hend
    rw [← hlast, Nat.add_mul, Nat.one_mul] at hcovers
    omega
  · rw [expectedLen, if_neg hlast]
    have hle : (i + 1) * chunkSize a ≤ (chunkCount a - 1) * chunkSize a :=
      Nat.mul_le_mul_right _ (by omega)
    have hbelow := h.below
    rw [Nat.add_mul, Nat.one_mul] at hle
    omega

/-- A file of the right size with all chunks in their places is the file. -/
theorem Source.eq_file (h : Source T stored a file) {content : Bytes}
    (hlength : content.length = total a)
    (hslices : ∀ i < chunkCount a, sliceAt content (i * chunkSize a) (expectedLen a i) =
      sliceAt file (i * chunkSize a) (chunkSize a)) : content = file := by
  have hsame : content.length = file.length := hlength.trans h.total_eq
  refine eq_of_slices hsame (hsame ▸ h.covers) fun i hi => ?_
  rw [← hslices i hi, ← h.expectedLen_eq hi, length_sliceAt, ← hsame, sliceAt_min]

/-- The reply with a chunk that is asked for. -/
theorem Source.content_eq (h : Source T stored a file) (hi : i < chunkCount a)
    {buffer : Bytes} {rid : UInt32} {blob : BlobData} (hdecode : decodeBlob T buffer = some blob)
    (hstored : stored (a.manifest.target i) = some blob.data) :
    content T a { type := MsgType.ReadResponse, payload := 0x01 :: buffer, requestId := rid } =
      .plaintext (sliceAt file (i * chunkSize a) (chunkSize a)) := by
  obtain ⟨envelope, hkept, hdecrypt⟩ := h.chunks i hi
  rw [hstored] at hkept
  have hdata := Option.some.inj hkept
  have hmagic : hasMagic CDAT_MAGIC.toList blob.data = true := by
    rw [hasMagic, hdata, List.take_left' (List.Vector.toList_length _)]
    exact beq_self_eq_true _
  have hdrop : blob.data.drop 4 = envelope := by
    rw [hdata, List.drop_left' (List.Vector.toList_length _)]
  simp [content, hdecode, hmagic, hdrop, hdecrypt]

/-- A request is sent. -/
theorem Serving.sent (h : Serving a file d) (hcount : chunkCount a ≤ MAX_CHUNKS)
    (hnext : d.next < chunkCount a) : Serving a file (d.afterSend true) ∧
      (d.afterSend true).next + (d.afterSend true).completed = d.next + d.completed + 1 := by
  obtain ⟨done, plain, htracked, hdone⟩ := h.tracked
  have hfresh : d.rid ∉ d.ridToChunkIndex.map Prod.fst := by
    intro hmem
    obtain ⟨⟨r, i⟩, hentry, hkey⟩ := List.mem_map.mp hmem
    have hlt := htracked.lt_of_mem hentry
    have hr := h.bound r i hentry
    have hrid := h.rid
    rw [← hkey] at hrid
    dsimp only at hrid
    omega
  have hassign : Assoc.assign d.rid d.next d.ridToChunkIndex =
      (d.rid, d.next) :: d.ridToChunkIndex := by
    rw [Assoc.assign, Assoc.unbind_of_notMem hfresh]
  have hrid : (d.rid + 1).toNat = d.next + 1 + 1 := by
    unfold MAX_CHUNKS at hcount
    rw [UInt32.toNat_add, h.rid]
    exact Nat.mod_eq_of_lt (by simp only [UInt32.reduceToNat]; omega)
  have hsent := htracked.sentNext hnext
  rw [hassign, h.idle] at hsent
  simp only [Download.afterSend, if_true, h.idle, hassign]
  refine ⟨⟨h.running, rfl, h.unfinished, ?_, hrid, ?_, ?_, done, plain, hsent, hdone⟩, by omega⟩
  · have hcounted := h.counted
    rw [List.length_cons]
    dsimp only
    omega
  · rw [List.map_cons, List.nodup_cons]
    exact ⟨hfresh, h.keys⟩
  · intro r i hmem
    rcases List.mem_cons.mp hmem with heq | hmem
    · obtain ⟨rfl, rfl⟩ := Prod.mk.inj heq
      exact h.rid
    · exact h.bound r i hmem

/-- A chunk is received: it is written, and behind the last one the file is complete. -/
theorem Serving.received (h : Serving a file d) (hsource : Source T stored a file)
    (hdisk : DiskWorks a) {rid : UInt32} (hentry : (rid, i) ∈ d.ridToChunkIndex) :
    let d' :=
    Download.writeChunk T a { d with ridToChunkIndex := Assoc.unbind rid d.ridToChunkIndex }
      i (sliceAt file (i * chunkSize a) (chunkSize a))
    (Serving a file d' ∧ d'.next + d'.completed = d.next + d.completed + 1) ∨
    (d'.exit = some .ok ∧ d'.file = some file ∧ d.next + d.completed + 1 = 2 * chunkCount a) := by
  obtain ⟨done, plain, htracked, hdone⟩ := h.tracked
  have hi : i < chunkCount a := (htracked.lt_of_mem hentry).trans_le htracked.next_le
  have hlength := hsource.expectedLen_eq hi
  have hshort : (sliceAt file (i * chunkSize a) (chunkSize a)).length < 2 ^ 63 := by
    have hsize : chunkSize a < 2 ^ 32 := a.manifest.chunkSizeBytes.toNat_lt
    rw [length_sliceAt]
    omega
  obtain ⟨hfresh, hwritten⟩ :=
    htracked.written h.idle (Assoc.lookup_of_mem h.keys hentry) hlength hshort
  have hdone' : ∀ j ∈ i :: done, Function.update plain i
      (sliceAt file (i * chunkSize a) (chunkSize a)) j =
          sliceAt file (j * chunkSize a) (chunkSize a) := by
    intro j hj
    rcases List.mem_cons.mp hj with rfl | hj
    · rw [Function.update_self]
    · rw [Function.update_of_ne (fun heq : j = i => hfresh (heq ▸ hj))]
      exact hdone j hj
  have hcounted := h.counted
  have hshrinks := Assoc.length_unbind h.keys hentry
  intro d'
  simp only [d', Download.writeChunk, hlength, ne_eq, not_true_eq_false, if_false, hdisk.writes,
    Bool.true_eq_false, Download.advance]
  split_ifs with hrunning
  · refine .inl ⟨⟨h.running, h.idle, hrunning, ?_, h.rid, Assoc.nodup_keys_unbind h.keys, ?_,
      _, _, hwritten, hdone'⟩, by dsimp only; omega⟩
    · dsimp only
      omega
    · exact fun r j hmem => h.bound r j (Assoc.mem_unbind.mp hmem).1
  · right
    have hall : chunkCount a ≤ d.completed + 1 := Nat.le_of_not_lt hrunning
    have hbelow : (chunkCount a - 1) * chunkSize a ≤ total a := hsource.total_eq ▸ hsource.below
    obtain ⟨content, hfile, hsize, hslices⟩ := hwritten.placed hbelow
    have hcontent : content = file := by
      refine hsource.eq_file hsize fun j hj => ?_
      have hmem := hwritten.mem_done hall hj
      have hslice := hslices j hmem
      rwa [hdone' j hmem, hsource.expectedLen_eq hj] at hslice
    rw [hcontent] at hfile
    dsimp only at hfile
    have hverified : (d.file.map fun content => pwrite 0 content (i * chunkSize a)
        (sliceAt file (i * chunkSize a) (chunkSize a))).map T.sha3_256 =
        some a.manifest.plaintextSha3 := by
      rw [hfile, Option.map_some, hsource.sha3]
    rw [finish, if_pos ⟨hdisk.rereads, hverified⟩]
    have hnext := htracked.next_le
    have hunfinished := h.unfinished
    exact ⟨rfl, hfile, by omega⟩

/-- One blocking call of a download that is served. -/
theorem Serving.step (h : Serving a file d) (hsource : Source T stored a file)
    (hdisk : DiskWorks a) {answer : Answer} (hserved : Served T stored a d answer) :
    let d' := (getChunked T a).step d answer
    (Serving a file d' ∧ d'.next + d'.completed = d.next + d.completed + 1) ∨
    (d'.exit = some .ok ∧ d'.file = some file ∧ d.next + d.completed + 1 = 2 * chunkCount a) := by
  intro d'
  cases answer with
  | sent ok =>
    obtain ⟨rfl, request, rid, hop⟩ := hserved
    have hop' : (getChunked T a).op d = .sendAsync request rid := hop
    have hnext : d.next < chunkCount a := by
      rcases op_cases (a := a) d h.running with ⟨_, _, -, hnext⟩ | ⟨hrecv, -⟩
      · exact hnext h.idle
      · rw [hop] at hrecv
        exact absurd hrecv (by simp)
    have hd' : d' = d.afterSend true := by simp only [d', Command.step, hop']; rfl
    rw [hd']
    exact .inl (h.sent hsource.count_le hnext)
  | received reply =>
    obtain ⟨hop, rid, i, buffer, blob, hentry, rfl, hdecode, hstored⟩ := hserved
    have hop' : (getChunked T a).op d = .recvNext := hop
    obtain ⟨done, plain, htracked, -⟩ := h.tracked
    have hi : i < chunkCount a := (htracked.lt_of_mem hentry).trans_le htracked.next_le
    have hd' : d' = Download.writeChunk T a
        { d with ridToChunkIndex := Assoc.unbind rid d.ridToChunkIndex } i
        (sliceAt file (i * chunkSize a) (chunkSize a)) := by
      simp only [d', Command.step, hop']
      simp only [getChunked, Download.afterRecv, Assoc.lookup_of_mem h.keys hentry,
        hsource.content_eq hi hdecode hstored]
    rw [hd']
    exact h.received hsource hdisk hentry

/-- A download that runs is waiting for something the node can give. -/
theorem Serving.served (h : Serving a file d) (hsource : Source T stored a file)
    (hblob : ∀ fb, ∃ buffer, T.getBlob buffer = some fb) :
    ∃ answer, Served T stored a d answer := by
  rcases op_cases (a := a) d h.running with ⟨request, rid, hop, -⟩ | ⟨hop, -⟩
  · exact ⟨.sent true, rfl, request, rid, hop⟩
  · obtain ⟨done, plain, htracked, -⟩ := h.tracked
    have hpending : d.ridToChunkIndex ≠ [] := by
      intro hempty
      simp only [Download.op, h.running, h.idle, hempty, List.length_nil] at hop
      rw [if_pos] at hop
      · exact absurd hop (by simp)
      · have hcounted := h.counted
        have hunfinished := h.unfinished
        rw [hempty, List.length_nil] at hcounted
        exact ⟨by omega, by decide⟩
    obtain ⟨⟨rid, i⟩, hentry⟩ := List.exists_mem_of_ne_nil _ hpending
    have hi : i < chunkCount a := (htracked.lt_of_mem hentry).trans_le htracked.next_le
    obtain ⟨envelope, hstored, -⟩ := hsource.chunks i hi
    obtain ⟨buffer, hbuffer⟩ := hblob
      { signerHint := none, data := some (CDAT_MAGIC.toList ++ envelope), ttl := 0, timestamp := 0
        signature := none }
    have hdecode : decodeBlob T buffer = some
        { signerHint := FixedBytes.fill 32 0, data := CDAT_MAGIC.toList ++ envelope, ttl := 0
          timestamp := 0, signature := [] } := by
      rw [decodeBlob, hbuffer]
      rfl
    exact ⟨.received (some _), hop, rid, i, buffer, _, hentry, rfl, hdecode, hstored⟩

theorem serving_start (hsource : Source T stored a file) (hdisk : DiskWorks a) :
    Serving a file (start T a) ∧ (start T a).next + (start T a).completed = 0 := by
  have hstart : start T a = { attempts := List.replicate (chunkCount a) 0
                              file := some (List.replicate (total a) 0) } := by
    rw [hdisk.created.start_eq, if_neg (by simp [hdisk.truncates]), advance,
      if_pos hsource.count_pos]
  rw [hstart]
  exact ⟨⟨rfl, rfl, hsource.count_pos, rfl, rfl, List.nodup_nil, by simp, [], fun _ => [],
    tracked_start, by simp⟩, rfl⟩

/-- Every answer brings the download one request or one reply further. -/
theorem Source.progress (hsource : Source T stored a file) (hdisk : DiskWorks a)
    {answers : List Answer}
    (hserved : AllSteps (getChunked T a).step (Served T stored a) (start T a) answers) :
    let d := run (getChunked T a).step (start T a) answers
    (Serving a file d ∧ d.next + d.completed = answers.length) ∨
    (d.exit = some .ok ∧ d.file = some file ∧ answers.length = 2 * chunkCount a) := by
  induction answers using List.reverseRecOn with
  | nil => exact .inl (serving_start hsource hdisk)
  | append_singleton answers answer ih =>
    obtain ⟨hbefore, hanswer, -⟩ := allSteps_append.mp hserved
    rw [run_append, run_cons, run_nil, List.length_append, List.length_singleton]
    rcases ih hbefore with ⟨hserving, hlength⟩ | ⟨hok, -, -⟩
    · rw [← hlength]
      exact hserving.step hsource hdisk hanswer
    · cases answer with
      | sent ok =>
        obtain ⟨-, request, rid, hop⟩ := hanswer
        simp [Download.op, hok] at hop
      | received reply =>
        obtain ⟨hop, -⟩ := hanswer
        simp [Download.op, hok] at hop

/-- **A served download restores the file.** -/
theorem Source.restores (hsource : Source T stored a file) (hdisk : DiskWorks a)
    (hblob : ∀ fb, ∃ buffer, T.getBlob buffer = some fb) : Restores T stored a file := by
  intro answers hserved
  have hprogress := hsource.progress hdisk hserved
  rcases hprogress with ⟨hserving, hlength⟩ | ⟨hok, hfile, hlength⟩
  · refine .inl ⟨hserving.running, ?_, hserving.served hsource hblob⟩
    obtain ⟨done, plain, htracked, -⟩ := hserving.tracked
    have hnext := htracked.next_le
    have hunfinished := hserving.unfinished
    omega
  · exact .inr ⟨hok, hlength, hfile⟩

end Download

/-! ## Both ends -/

section RoundTrip

open Upload Download

variable {T : Toolkit} {a : UploadArgs} {stored : Hash32 → Option Bytes}

/-- A download by a recipient of the upload. -/
structure Reader (T : Toolkit) (a : UploadArgs) (m : ManifestData) (da : DownloadArgs) : Prop where
  manifest : da.manifest = m
  disk : DiskWorks da
  decrypts : ∀ coins plaintext envelope, plaintext.length < 2 ^ 32 →
    Envelope.encrypt T coins plaintext a.recipients = some envelope →
      da.decrypt envelope = some plaintext

/-- The numbers of the manifest are those of the upload. -/
theorem toNat_manifest (hadmitted : a.admitted = true) (u : Upload) :
    (u.manifest T a).chunkSizeBytes.toNat = a.chunkSize ∧
    (u.manifest T a).segmentCount.toNat = a.numChunks ∧
    (u.manifest T a).totalPlaintextBytes.toNat = a.file.length := by
  obtain ⟨-, ⟨-, hfile⟩, -, hsize, ⟨-, hcount⟩, -⟩ := admitted_iff.mp hadmitted
  unfold MAX_CHUNKED_FILE_SIZE at hfile
  unfold MAX_CHUNKS at hcount
  refine ⟨UInt32.toNat_ofNat_of_lt' hsize, UInt32.toNat_ofNat_of_lt' ?_,
    UInt64.toNat_ofNat_of_lt' ?_⟩
  · exact hcount.trans_lt (by decide)
  · exact hfile.trans_lt (by decide)

/-- What `put_chunked` leaves is what `get_chunked` needs. -/
theorem Upload.Ready.source {u : Upload} (h : Ready T a stored u) (hadmitted : a.admitted = true)
    {da : DownloadArgs} (hreader : Reader T a (u.manifest T a) da) :
    Source T stored da a.file := by
  obtain ⟨hsize, hcount, htotal⟩ := toNat_manifest (T := T) hadmitted u
  obtain ⟨hbelow, hcovers⟩ := numChunks_bounds hadmitted
  obtain ⟨-, -, -, hsmall, ⟨hpos, hmax⟩, -⟩ := admitted_iff.mp hadmitted
  have hsize' : Download.chunkSize da = a.chunkSize :=
    by rw [Download.chunkSize, hreader.manifest, hsize]
  have hcount' : chunkCount da = a.numChunks := by rw [chunkCount, hreader.manifest, hcount]
  refine ⟨?_, ?_, ?_, ?_, ?_, ?_, fun i hi => ?_⟩
  · rw [hcount']
    exact Nat.pos_of_ne_zero hpos
  · rw [hcount']
    exact hmax
  · rw [total, hreader.manifest, htotal]
  · rw [hcount', hsize']
    exact hbelow.le
  · rw [hcount', hsize']
    exact hcovers
  · rw [hreader.manifest, manifest, h.absorbed]
  · rw [hcount'] at hi
    obtain ⟨hash, hget, data, hstored, coins, hdata⟩ := h.kept i hi
    obtain ⟨envelope, hencrypt, rfl⟩ := Option.map_eq_some_iff.mp hdata
    have htarget : da.manifest.target i = hash := by
      rw [hreader.manifest, ManifestData.target, manifest, readFixed_encodeHashes hget,
        Option.getD_some]
    have hshort : (a.chunk i).length < 2 ^ 32 := by
      rw [UploadArgs.chunk, length_sliceAt]
      exact (Nat.min_le_left _ _).trans_lt hsmall
    rw [htarget, hsize']
    exact ⟨envelope, hstored, hreader.decrypts coins _ envelope hshort hencrypt⟩

/-- The decoder accepts the manifest exactly if the chunks are not too small for it. -/
theorem Upload.Ready.decode_iff {u : Upload} (h : Ready T a stored u)
    (hadmitted : a.admitted = true)
    (hget : ∀ fb, T.getManifest (T.finishManifest fb) = some fb) :
    decodeManifestPayload T (encodeManifestPayload T (u.manifest T a)) a.sessionCap =
      some (u.manifest T a) ↔ CHUNK_SIZE_BYTES_MIN ≤ a.chunkSize := by
  obtain ⟨hsize, hcount, htotal⟩ := toNat_manifest (T := T) hadmitted u
  obtain ⟨-, hcovers⟩ := numChunks_bounds hadmitted
  obtain ⟨-, ⟨hlarge, -⟩, -, -, ⟨hpos, hmax⟩, -⟩ := admitted_iff.mp hadmitted
  have hhashes : (u.manifest T a).chunkHashes.length = a.numChunks * 32 := by
    rw [manifest, length_encodeHashes, h.hashes]
  rw [decodeManifestPayload_encodeManifestPayload hget, hsize, hcount, htotal, hhashes]
  refine ⟨fun h => h.2.2.1,
    fun hmin => ⟨rfl, ⟨hpos, hmax⟩, hmin, Nat.sub_le _ _, ⟨?_, hcovers⟩, rfl, rfl⟩⟩
  omega

/-- What a successful upload leaves. -/
theorem ready_of_ok {answers : List Answer} (hkeeps : Keeps T a stored answers)
    (hok : (run (putChunked T a).step (Upload.start T a) answers).exit = some .ok) :
    ∃ u, Ready T a stored u ∧
      ∃ rid coins data, SentUnder T a rid data answers ∧
        manifestData T a coins (u.manifest T a) = some data := by
  obtain ⟨-, -, hoverhead, -, ⟨-, hmax⟩, -⟩ := admitted_iff.mp (admitted_of_ok hok)
  have huploading := uploading_run (Nat.sub_pos_of_lt hoverhead) hmax answers hkeeps
  simp only [Uploading, hok] at huploading
  obtain ⟨hready, ⟨coins, data, hdata, hplace⟩, hidle⟩ := huploading
  refine ⟨_, hready, ?_⟩
  rcases hplace with hout | ⟨rid, hsent⟩
  · rw [hidle] at hout
    exact absurd hout (by simp)
  · exact ⟨rid, coins, data, hsent, hdata⟩

/-- **Chunked file round trip.** When `put_chunked` has succeeded, the manifest it sent describes
the file: every recipient restores it from the blobs the node acknowledged. But the decoder, under
the same session cap, accepts the manifest exactly if the cap leaves chunks of 1 MiB when the
overhead of the envelope is taken off. -/
theorem chunked_roundtrip_iff (T : Toolkit) (a : UploadArgs) (stored : Hash32 → Option Bytes)
    (answers : List Answer) (hget : ∀ fb, T.getManifest (T.finishManifest fb) = some fb)
    (hblob : ∀ fb, ∃ buffer, T.getBlob buffer = some fb) (hkeeps : Keeps T a stored answers)
    (hok : (run (putChunked T a).step (Upload.start T a) answers).exit = some .ok) :
    ∃ m, (∃ rid coins data, SentUnder T a rid data answers ∧ manifestData T a coins m = some data) ∧
      (∀ da, Reader T a m da → Restores T stored da a.file) ∧
      (decodeManifestPayload T (encodeManifestPayload T m) a.sessionCap = some m ↔
        CHUNK_SIZE_BYTES_MIN ≤ a.sessionCap.toNat - a.fixedOverhead) := by
  have hadmitted := admitted_of_ok hok
  obtain ⟨u, hready, hsent⟩ := ready_of_ok hkeeps hok
  exact ⟨_, hsent, fun da hreader => (hready.source hadmitted hreader).restores hreader.disk hblob,
    hready.decode_iff hadmitted hget⟩

end RoundTrip

section Sample

open Upload Download Cli.Sample

/-- A file one byte above the cap, for one recipient. -/
def sampleUpload (sessionCap : UInt64) : UploadArgs where
  file := List.replicate (sessionCap.toNat + 1) 7
  filename := [102]
  recipients := [List.replicate 1568 0]
  ttl := 0
  timestamp := 1000
  sessionCap
  pubkEnsured := true
  coins _ :=
    { dek := FixedBytes.fill 32 0, dataNonce := FixedBytes.fill 12 0, encaps := fun _ => [] }

theorem sampleUpload_succeeds (sessionCap : UInt64)
    (hadmitted : (sampleUpload sessionCap).admitted = true) :
    ∃ answers, Keeps toolkit (sampleUpload sessionCap)
    (keptBlob toolkit (sampleUpload sessionCap)) answers ∧
      (run (putChunked toolkit (sampleUpload sessionCap)).step
        (Upload.start toolkit (sampleUpload sessionCap)) answers).exit = some .ok := by
  refine exists_upload hadmitted fun coins plaintext => Envelope.isSome_encrypt
    (List.cons_ne_nil _ _) (by decide : 1 ≤ 65535) fun pk hpk => ?_
  obtain rfl := List.mem_singleton.mp hpk
  exact List.length_replicate

theorem sampleUpload_admitted (sessionCap : UInt64)
    (hcap : sessionCap = 1048576 ∨ sessionCap = 4194304) :
    (sampleUpload sessionCap).admitted = true := by
  have hlength : (sampleUpload sessionCap).file.length = sessionCap.toNat + 1 :=
    List.length_replicate
  rw [admitted_iff]
  unfold UploadArgs.numChunks UploadArgs.chunkSize UploadArgs.fixedOverhead
  rw [hlength]
  rcases hcap with rfl | rfl <;> decide

/-- With a cap of 4 MiB the recipient gets the file back. -/
theorem chunked_roundtrip_sample : ∃ stored m da,
    decodeManifestPayload toolkit (encodeManifestPayload toolkit m) 4194304 = some m ∧
    da.manifest = m ∧ Restores toolkit stored da (List.replicate 4194305 7) := by
  obtain ⟨answers, hkeeps, hok⟩ :=
    sampleUpload_succeeds 4194304 (sampleUpload_admitted _ (.inr rfl))
  obtain ⟨m, -, hrestores, hdecode⟩ :=
    chunked_roundtrip_iff toolkit (sampleUpload 4194304) _ answers
    getManifest_finishManifest (fun fb => ⟨_, Wire.Sample.getBlob_finishBlob fb⟩) hkeeps hok
  let decrypt (envelope : Bytes) : Option Bytes :=
    Envelope.decrypt toolkit opener envelope (List.replicate Envelope.KEM_SK_SIZE 0)
      (List.replicate 1568 0)
  refine ⟨_, m,
    { ns := FixedBytes.fill 32 1, manifest := m, forceOverwrite := false, disk := {}, decrypt },
    hdecode.mpr (by decide), rfl, hrestores _ ⟨rfl, ⟨⟨.inr rfl, rfl⟩, rfl, fun _ => rfl, rfl⟩, ?_⟩⟩
  intro coins plaintext envelope hshort hencrypt
  exact Envelope.decrypt_encrypt length_aeadEncrypt
    (fun call => aeadDecrypt_aeadEncrypt call.plaintext call.ad call.nonce call.key)
    (fun _ ha _ hb _ => (List.mem_singleton.mp ha).trans (List.mem_singleton.mp hb).symm)
    (hshort.le.trans (by decide)) hencrypt List.mem_cons_self ⟨by simp, fun _ => rfl⟩

/-- With a cap of 1 MiB the upload succeeds, and the manifest it sends is refused: the chunks are
1046888 bytes long. -/
theorem chunked_roundtrip_refused : ∃ stored answers m rid coins data,
    Keeps toolkit (sampleUpload 1048576) stored answers ∧
    (run (putChunked toolkit (sampleUpload 1048576)).step
      (Upload.start toolkit (sampleUpload 1048576)) answers).exit = some .ok ∧
    SentUnder toolkit (sampleUpload 1048576) rid data answers ∧
    manifestData toolkit (sampleUpload 1048576) coins m = some data ∧
    decodeManifestPayload toolkit (encodeManifestPayload toolkit m) 1048576 = none := by
  have hadmitted := sampleUpload_admitted 1048576 (.inl rfl)
  obtain ⟨answers, hkeeps, hok⟩ := sampleUpload_succeeds 1048576 hadmitted
  obtain ⟨u, hready, rid, coins, data, hsent, hdata⟩ := ready_of_ok hkeeps hok
  refine ⟨_, answers, _, rid, coins, data, hkeeps, hok, hsent, hdata, ?_⟩
  refine Option.eq_none_iff_forall_ne_some.mpr fun m' hm' => ?_
  obtain ⟨-, -, hmin, -⟩ :=
    (decodeManifestPayload_encodeManifestPayload getManifest_finishManifest).mp hm'
  rw [(toNat_manifest hadmitted u).1] at hmin
  exact absurd hmin (by decide)

end Sample

end Cli
