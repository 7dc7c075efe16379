import Chromatin.Cli.Put
import Chromatin.Cli.Sample
import Chromatin.Infra.Run

/-!
# The sizes of the blobs `put` writes

`put_chunked` takes the overhead of the envelope off the session cap before it cuts a file into
chunks, so the blob of a chunk never exceeds the cap. The other two kinds are not measured against
the cap at all: a file that is not above it is put into one envelope, which adds header, stanzas,
tags and metadata, and so is whatever comes from stdin; and a manifest grows with the number of
chunks. `PutArgs.Fits` says which inputs are small enough, in their size and name, the recipients
and the cap; `Put.Routed` that the files of the batch and those that are uploaded are the inputs up
to the cap and above it.
-/

namespace Cli

open Infra Util Wire Net Envelope

variable {data : Bytes} {coins : Coins}

/-! ## Chunks and manifests -/

namespace Upload

variable {T : Toolkit} {a : UploadArgs} {u : Upload}

/-- What a running upload sends is the blob of a chunk or that of its manifest. -/
def Carries (T : Toolkit) (a : UploadArgs) (u : Upload) : Prop :=
  ∀ data, u.exit = none → u.outgoing = some data →
    if u.stage = .chunks then ∃ coins i, cdatData T a coins (a.chunk i) = some data
    else ∃ coins, manifestData T a coins (u.manifest T a) = some data

theorem carries_of_exit {exit : Exit} (h : u.exit = some exit) : Carries T a u := by
  intro data hrunning _
  rw [h] at hrunning
  exact absurd hrunning (by simp)

theorem carries_of_idle (h : u.outgoing = none) : Carries T a u := by
  intro data _ hdata
  rw [h] at hdata
  exact absurd hdata (by simp)

/-- A chunk has been encrypted. -/
theorem carries_chunk (hstage : u.stage = .chunks) {i : Nat} :
    Carries T a (u.encrypted (cdatData T a coins (a.chunk i))) := by
  cases hdata : cdatData T a coins (a.chunk i) with
  | none => exact carries_of_exit rfl
  | some data =>
    intro data' _ hdata'
    obtain rfl := Option.some.inj hdata'
    rw [if_pos (show (u.encrypted (some data)).stage = .chunks from hstage)]
    exact ⟨coins, i, hdata⟩

theorem carries_advance (hstage : u.stage = .chunks) : Carries T a (u.advance T a) := by
  unfold Upload.advance
  split_ifs
  · exact carries_of_exit rfl
  · exact carries_chunk hstage
  · exact carries_of_idle rfl
  · -- the last chunk is complete
    cases hdata : manifestData T a (a.coins u.encryptions) (u.manifest T a) with
    | none => exact carries_of_exit rfl
    | some data =>
      intro data' _ hdata'
      obtain rfl := Option.some.inj hdata'
      rw [if_neg (show (({ u with stage := .manifest } : Upload).encrypted (some data)).stage ≠
        .chunks by
        simp [encrypted])]
      exact ⟨a.coins u.encryptions, hdata⟩

theorem carries_start : Carries T a (start T a) := by
  unfold start
  dsimp only
  split_ifs
  · exact carries_advance rfl
  · exact carries_of_exit rfl

theorem carries_afterSend (ok : Bool) : Carries T a (u.afterSend T a ok) := by
  unfold Upload.afterSend
  cases hstage : u.stage with
  | chunks =>
    dsimp only
    generalize (if u.attempt = 0 then u.absorbed ++ a.chunk u.next else u.absorbed) = absorbed
    split_ifs
    · exact carries_advance rfl
    · exact carries_chunk rfl
    · exact carries_of_exit rfl
  | manifest =>
    dsimp only
    split_ifs
    · exact carries_of_idle rfl
    · exact carries_of_exit rfl
  | manifestAck =>
    dsimp only
    split_ifs
    · exact carries_of_idle rfl
    · exact carries_of_exit rfl

theorem carries_afterRecv (hidle : u.outgoing = none) (reply : Option Message) :
    Carries T a (u.afterRecv T a reply) := by
  unfold Upload.afterRecv
  split
  · exact carries_of_exit rfl
  · split
    · split
      · exact carries_of_idle hidle
      · split
        · exact carries_of_exit rfl
        · exact carries_advance (by assumption)
    · split
      · exact carries_of_exit rfl
      · exact carries_of_exit rfl

/-! The manifest keeps one hash for each chunk. -/

@[simp] theorem chunkHashes_encrypted (u : Upload) (data : Option Bytes) :
    (u.encrypted data).chunkHashes = u.chunkHashes := by
  cases data <;> rfl

@[simp] theorem chunkHashes_advance (u : Upload) : (u.advance T a).chunkHashes = u.chunkHashes := by
  unfold Upload.advance
  split_ifs <;> simp

theorem length_chunkHashes_start : (start T a).chunkHashes.length = a.numChunks := by
  unfold start
  dsimp only
  split_ifs <;> simp

theorem chunkHashes_afterSend (ok : Bool) : (u.afterSend T a ok).chunkHashes = u.chunkHashes := by
  unfold Upload.afterSend
  cases u.stage <;> dsimp only <;> split_ifs <;> simp

theorem length_chunkHashes_afterRecv (reply : Option Message) :
    (u.afterRecv T a reply).chunkHashes.length = u.chunkHashes.length := by
  cases reply with
  | none => rfl
  | some reply =>
    simp only [Upload.afterRecv]
    cases u.stage with
    | chunks =>
      dsimp only
      cases u.ridToChunkIndex.lookup reply.requestId with
      | none => rfl
      | some i => cases ackedHash reply <;> simp
    | _ => cases ackedHash reply <;> rfl

/-- An upload that runs has been admitted. -/
theorem admitted_of_start (h : (start T a).exit = none) : a.admitted = true := by
  unfold start at h
  dsimp only at h
  by_contra hrefused
  rw [if_neg hrefused] at h
  exact absurd h (by simp)

end Upload

/-! ## Inputs -/

namespace PutArgs

variable (a : PutArgs)

def inputs : List FileEntry :=
  match a.input with
  | .stdin bytes => [{ name := [], data := bytes }]
  | .files files => files

/-- `fsize > session_blob_cap()`; stdin is not compared. -/
def isChunked (f : FileEntry) : Bool :=
  match a.input with
  | .stdin _ => false
  | .files _ => a.sessionCap.toNat < f.data.length

/-- The input is small enough for the cap: its manifest if it is chunked, which has a hash for each
chunk and the name, and else its content with the metadata. -/
def Fits (T : Toolkit) (manifestSize : Nat → Nat → Nat) (f : FileEntry) : Prop :=
  if a.isChunked f then
    4 + envelopeSize a.recipients.length
      (manifestSize (a.uploadArgs f 0).numChunks f.name.length) ≤ a.sessionCap.toNat
  else
    envelopeSize a.recipients.length
      (4 + (T.dumpMetadata f.name f.data.length).length + f.data.length) ≤ a.sessionCap.toNat

end PutArgs

/-! ## What `put` sends -/

namespace Put

/-- The input whose manifest or envelope is being sent; none while a chunk, a NAME or a BOMB is. -/
def subject (p : Put) : Option FileEntry :=
  match p.upload with
  | some (f, u) => if u.stage = .chunks then none else some f
  | none => if p.stage = .batch then p.files[p.nextToSend]? else none

/-- The files of the batch are inputs that are not chunked, the one that is uploaded is one that
is. -/
structure Routed (a : PutArgs) (p : Put) : Prop where
  batch : ∀ f ∈ p.files, f ∈ a.inputs ∧ a.isChunked f = false
  upload : ∀ f u, p.upload = some (f, u) → f ∈ a.inputs ∧ a.isChunked f = true
  todo : ∀ f ∈ p.todo, f ∈ a.inputs

section

variable (T : Toolkit) (a : PutArgs)

/-- The data of a blob of the command's own: the envelope of the next file, a NAME or a BOMB. -/
def Built (p : Put) (data : Bytes) : Prop :=
  match p.stage with
  | .batch => ∃ f coins, p.files[p.nextToSend]? = some f ∧
      encrypt T coins (buildPutPayload T f.name f.data) a.recipients = some data
  | .name => ∃ name hash, makeNameData name hash = some data
  | .bomb => ∃ hash, makeBombData [hash] = some data
  | _ => False

/-- What a running `put` sends: a blob of the upload that runs, or one of its own. -/
structure Carries (p : Put) : Prop where
  routed : Routed a p
  sends : p.exit = none →
    match p.upload with
    | some (f, u) => u.exit = none ∧ (a.uploadArgs f p.encryptions).admitted = true ∧
        u.chunkHashes.length = (a.uploadArgs f p.encryptions).numChunks ∧
        Upload.Carries T (a.uploadArgs f p.encryptions) u
    | none => ∀ blob, p.outgoing = some blob → p.Built T a blob.data

variable {T a} {p q : Put}

theorem Routed.of_eq (h : Routed a p) (hfiles : q.files = p.files)
    (hupload : q.upload = none ∨ q.upload = p.upload) (htodo : q.todo = p.todo) : Routed a q := by
  refine ⟨hfiles ▸ h.batch, fun f u hq => ?_, htodo ▸ h.todo⟩
  rcases hupload with hnone | hsame
  · simp [hnone] at hq
  · exact h.upload f u (hsame ▸ hq)

theorem carries_of_exit {exit : Exit} (hrouted : Routed a p) (h : p.exit = some exit) :
    Carries T a p := by
  refine ⟨hrouted, fun hrunning => ?_⟩
  rw [h] at hrunning
  exact absurd hrunning (by simp)

theorem carries_of_idle (hrouted : Routed a p) (hupload : p.upload = none)
    (hidle : p.outgoing = none) : Carries T a p := by
  refine ⟨hrouted, fun _ => ?_⟩
  rw [hupload]
  intro blob hblob
  rw [hidle] at hblob
  exact absurd hblob (by simp)

theorem carries_finish (hrouted : Routed a p) : Carries T a p.finish :=
  carries_of_exit (hrouted.of_eq rfl (.inr rfl) rfl) rfl

theorem carries_sending {data : Option Bytes} {ttl : UInt32} (hrouted : Routed a p)
    (hupload : p.upload = none) (hbuilt : ∀ bytes, data = some bytes → p.Built T a bytes) :
    Carries T a (p.sending a data ttl) := by
  cases data with
  | none => exact carries_of_exit (hrouted.of_eq rfl (.inr rfl) rfl) rfl
  | some bytes =>
    refine ⟨hrouted.of_eq rfl (.inr rfl) rfl, fun _ => ?_⟩
    simp only [sending, hupload]
    intro blob hblob
    obtain rfl := Option.some.inj hblob
    exact hbuilt bytes rfl

theorem carries_emitBomb (hrouted : Routed a p) (hupload : p.upload = none) :
    Carries T a (p.emitBomb a) := by
  unfold emitBomb
  split
  · rename_i target _
    split_ifs
    · exact carries_sending (hrouted.of_eq rfl (.inr rfl) rfl) hupload
        fun _ hdata => ⟨target, hdata⟩
    · exact carries_finish hrouted
  · exact carries_finish hrouted

theorem carries_emitName (hrouted : Routed a p) (hupload : p.upload = none) :
    Carries T a (p.emitName a) := by
  unfold emitName
  split
  · rename_i name hash _ _
    split_ifs
    · exact carries_sending (hrouted.of_eq rfl (.inr rfl) rfl) hupload
        fun _ hdata => ⟨name, hash, hdata⟩
    · exact carries_finish hrouted
  · exact carries_finish hrouted

/-- The batch loop up to its next blocking call. -/
theorem carries_advance (hrouted : Routed a p) (hupload : p.upload = none)
    (hstage : p.stage = .batch) : Carries T a (p.advance T a) := by
  unfold Put.advance
  by_cases hrunning : p.completed < p.files.length
  · rw [if_pos hrunning]
    split
    · rename_i f hfile
      split_ifs
      · refine carries_sending (hrouted.of_eq rfl (.inr rfl) rfl) hupload fun _ hdata => ?_
        simp only [Built, hstage]
        exact ⟨f, _, hfile, hdata⟩
      · exact carries_of_idle (hrouted.of_eq rfl (.inr rfl) rfl) hupload rfl
    · exact carries_of_idle (hrouted.of_eq rfl (.inr rfl) rfl) hupload rfl
  · rw [if_neg hrunning]
    exact carries_emitName hrouted hupload

/-- The loop over the files tells the inputs apart by their sizes. -/
theorem carries_scan (hchunked : ∀ f, a.isChunked f = decide (a.sessionCap.toNat < f.data.length))
    (files : List FileEntry) (hfiles : ∀ f ∈ files, f ∈ a.inputs) (hrouted : Routed a p)
    (hupload : p.upload = none) : Carries T a (p.scan T a files) := by
  induction files generalizing p with
  | nil =>
    exact carries_advance ⟨hrouted.batch, hrouted.upload, fun f hf => absurd hf List.not_mem_nil⟩
      hupload rfl
  | cons f rest ih =>
    have hrest : ∀ f ∈ rest, f ∈ a.inputs := fun f hf => hfiles f (List.mem_cons_of_mem _ hf)
    have hfirst := hfiles f List.mem_cons_self
    have hfail : Carries T a p.fail := carries_of_exit (hrouted.of_eq rfl (.inr rfl) rfl) rfl
    unfold scan
    split_ifs with _ _ hlarge
    · exact hfail
    · exact hfail
    · exact hfail
    · dsimp only
      split
      · rename_i hexit
        refine ⟨⟨hrouted.batch, fun g u hg => ?_, hrest⟩, fun _ => ⟨hexit,
          Upload.admitted_of_start hexit, Upload.length_chunkHashes_start, Upload.carries_start⟩⟩
        obtain rfl : f = g := (Prod.mk.inj (Option.some.inj hg)).1
        exact ⟨hfirst, by rw [hchunked]; exact decide_eq_true hlarge⟩
      · exact carries_of_exit (hrouted.of_eq rfl (.inr rfl) rfl) rfl
      · exact ih hrest (hrouted.of_eq rfl (.inl rfl) rfl) rfl
    · exact hfail
    · refine ih hrest ⟨fun g hg => ?_, hrouted.upload, hrouted.todo⟩ hupload
      rcases List.mem_append.mp hg with hg | hg
      · exact hrouted.batch g hg
      · rw [List.mem_singleton.mp hg, hchunked]
        exact ⟨hfirst, decide_eq_false hlarge⟩

theorem carries_start : Carries T a (start T a) := by
  have hrouted : Routed a {} :=
    ⟨fun f hf => absurd hf List.not_mem_nil, fun f u h => absurd h (by simp),
      fun f hf => absurd hf List.not_mem_nil⟩
  have hfail : Carries T a ({} : Put).fail :=
    carries_of_exit (hrouted.of_eq rfl (.inr rfl) rfl) rfl
  unfold start
  split_ifs
  · split
    · rename_i hinput
      split_ifs
      · exact hfail
      · refine carries_advance ⟨fun f hf => ?_, hrouted.upload, hrouted.todo⟩ rfl rfl
        simpa [PutArgs.inputs, PutArgs.isChunked, hinput] using hf
    · rename_i hinput
      exact carries_scan (fun f => by simp only [PutArgs.isChunked, hinput]) _
        (fun f hf => by simpa only [PutArgs.inputs, hinput] using hf) hrouted rfl
  · exact hfail

/-- `put_chunked` returns from a blocking call. -/
theorem carries_afterUpload {f : FileEntry} {u u' : Upload} (hrouted : Routed a p)
    (hupload : p.upload = some (f, u))
    (hadmitted : (a.uploadArgs f p.encryptions).admitted = true)
    (hhashes : u'.chunkHashes.length = (a.uploadArgs f p.encryptions).numChunks)
    (hcarries : Upload.Carries T (a.uploadArgs f p.encryptions) u') :
    Carries T a (p.afterUpload T a f u') := by
  obtain ⟨hinput, hchunked⟩ := hrouted.upload f u hupload
  unfold afterUpload
  split
  · rename_i hexit
    refine ⟨⟨hrouted.batch, fun g v hg => ?_, hrouted.todo⟩,
      fun _ => ⟨hexit, hadmitted, hhashes, hcarries⟩⟩
    obtain rfl : f = g := (Prod.mk.inj (Option.some.inj hg)).1
    exact ⟨hinput, hchunked⟩
  · exact carries_of_exit (hrouted.of_eq rfl (.inr rfl) rfl) rfl
  · refine carries_scan (fun g => ?_) p.todo hrouted.todo (hrouted.of_eq rfl (.inl rfl) rfl) rfl
    -- only files are chunked
    unfold PutArgs.isChunked at hchunked ⊢
    cases hargs : a.input with
    | stdin bytes => simp [hargs] at hchunked
    | files files => rfl

theorem Carries.afterSend (h : Carries T a p) (hexit : p.exit = none) (ok : Bool) :
    Carries T a (p.afterSend T a ok) := by
  have hrunning := h.sends hexit
  have hkeep {q : Put} : q.files = p.files → q.upload = none ∨ q.upload = p.upload →
      q.todo = p.todo → Routed a q := h.routed.of_eq
  unfold Put.afterSend
  cases hupload : p.upload with
  | some running =>
    obtain ⟨f, u⟩ := running
    rw [hupload] at hrunning
    obtain ⟨-, hadmitted, hhashes, -⟩ := hrunning
    exact carries_afterUpload h.routed hupload hadmitted
      (by rw [Upload.chunkHashes_afterSend, hhashes]) (Upload.carries_afterSend ok)
  | none =>
    cases hstage : p.stage with
    | batch =>
      dsimp only
      split_ifs
      · exact carries_advance (hkeep rfl (.inl rfl) rfl) rfl rfl
      · exact carries_advance (hkeep rfl (.inl rfl) rfl) rfl rfl
    | name =>
      dsimp only
      split_ifs
      · exact carries_of_idle (hkeep rfl (.inl rfl) rfl) rfl rfl
      · exact carries_emitBomb (hkeep rfl (.inl rfl) rfl) rfl
    | bomb =>
      dsimp only
      split_ifs
      · exact carries_of_idle (hkeep rfl (.inl rfl) rfl) rfl rfl
      · exact carries_finish (hkeep rfl (.inl rfl) rfl)
    | scan => exact h
    | nameAck => exact h
    | bombAck => exact h

theorem carries_afterAck (hrouted : Routed a p) (hupload : p.upload = none)
    (hstage : p.stage = .batch) (hidle : p.outgoing = none) (reply : Message) :
    Carries T a (p.afterAck T a reply) := by
  unfold afterAck
  split
  · exact carries_of_idle hrouted hupload hidle
  · dsimp only
    split
    · exact carries_advance (hrouted.of_eq rfl (.inr rfl) rfl) hupload hstage
    · exact carries_advance (hrouted.of_eq rfl (.inr rfl) rfl) hupload hstage

theorem Carries.afterRecv (h : Carries T a p) (hexit : p.exit = none)
    (hidle : ∀ blob rid, p.op a ≠ .sendAsync blob rid) (reply : Option Message) :
    Carries T a (p.afterRecv T a reply) := by
  have hrunning := h.sends hexit
  have hkeep {q : Put} : q.files = p.files → q.upload = none ∨ q.upload = p.upload →
      q.todo = p.todo → Routed a q := h.routed.of_eq
  unfold Put.afterRecv
  cases hupload : p.upload with
  | some running =>
    obtain ⟨f, u⟩ := running
    rw [hupload] at hrunning
    obtain ⟨hrun, hadmitted, hhashes, -⟩ := hrunning
    refine carries_afterUpload h.routed hupload hadmitted
      (by rw [Upload.length_chunkHashes_afterRecv, hhashes]) (Upload.carries_afterRecv ?_ reply)
    cases hout : u.outgoing with
    | none => rfl
    | some data =>
      have hop : p.op a = .sendAsync { data, ttl := a.ttl, timestamp := a.timestamp } u.rid := by
        simp only [Put.op, hexit, hupload, Upload.op, hrun, hout]
        rfl
      exact absurd hop (hidle _ u.rid)
  | none =>
    have hnone : p.outgoing = none := by
      cases hout : p.outgoing with
      | none => rfl
      | some blob => exact absurd (by simp [Put.op, hexit, hupload, hout]) (hidle blob p.rid)
    cases hstage : p.stage with
    | batch =>
      dsimp only
      split
      · exact carries_emitName (hkeep rfl (.inl rfl) rfl) rfl
      · exact carries_afterAck h.routed hupload hstage hnone _
    | nameAck =>
      dsimp only
      split_ifs
      · exact carries_emitBomb h.routed hupload
      · exact carries_emitBomb (hkeep rfl (.inl rfl) rfl) rfl
    | bombAck =>
      dsimp only
      split_ifs
      · exact carries_finish h.routed
      · exact carries_finish (hkeep rfl (.inl rfl) rfl)
    | scan => exact h
    | name => exact h
    | bomb => exact h

/-- **What `put` sends**, in every state of every run: the batch has the inputs up to the cap (and
stdin), the uploads are of inputs above it. -/
theorem carries_run (T : Toolkit) (a : PutArgs) (answers : List Answer) :
    Carries T a (run (put T a).step (start T a) answers) := by
  induction answers using List.reverseRecOn with
  | nil => exact carries_start
  | append_singleton answers answer ih =>
    rw [run_append, run_cons, run_nil]
    generalize run (put T a).step (start T a) answers = p at ih
    have hrunning (hop : p.op a ≠ .stop) : p.exit = none := by
      cases hexit : p.exit with
      | none => rfl
      | some exit => exact absurd (by simp [Put.op, hexit]) hop
    refine Command.step_rule ih (fun blob rid ok hop => ?_) (fun reply hop => ?_) answer
    · have hop : p.op a = .sendAsync blob rid := hop
      exact ih.afterSend (hrunning (by simp [hop])) ok
    · have hop : p.op a = .recvNext ∨ ∃ rid, p.op a = .recvFor rid := hop
      refine ih.afterRecv (hrunning ?_) (fun blob rid hsend => ?_) reply
      · rcases hop with hop | ⟨rid, hop⟩ <;> simp [hop]
      · rcases hop with hop | ⟨rid', hop⟩ <;> rw [hsend] at hop <;> simp at hop

end

end Put

/-! ## Sizes -/

/-- The size of an encoded manifest. The builder writes every field (`ForceDefaults`), so it depends
on the number of chunk hashes and the length of the name only. -/
def ManifestSizes (T : Toolkit) (manifestSize : Nat → Nat → Nat) : Prop :=
  ∀ (m : ManifestData) (n : Nat), m.chunkHashes.length = 32 * n →
    (encodeManifestPayload T m).length = manifestSize n m.filename.length

section Sizes

variable {T : Toolkit} (htag : TagSized T)

include htag

/-- The overhead that is taken off the cap is at least that of a chunk. -/
theorem length_cdatData_le {a : UploadArgs} (hadmitted : a.admitted = true) {i : Nat}
    (h : Upload.cdatData T a coins (a.chunk i) = some data) :
    data.length ≤ a.sessionCap.toNat := by
  obtain ⟨envelope, hencrypt, rfl⟩ := Option.map_eq_some_iff.mp h
  have hoverhead : a.fixedOverhead < a.sessionCap.toNat := by
    simp only [UploadArgs.admitted, Bool.and_eq_true, decide_eq_true_eq] at hadmitted
    exact hadmitted.1.1.1.2
  have hchunk : (a.chunk i).length ≤ a.sessionCap.toNat - a.fixedOverhead := by
    rw [UploadArgs.chunk, length_sliceAt]
    exact Nat.min_le_left _ _
  have hsegments : segmentCount (a.chunk i).length ≤
      (a.sessionCap.toNat + 1048576 - 1) / 1048576 := by
    unfold segmentCount SEGMENT_SIZE
    dsimp only
    split_ifs <;> omega
  have hfour : CDAT_MAGIC.toList.length = 4 := rfl
  rw [List.length_append, length_encrypt htag hencrypt, envelopeSize, hfour]
  unfold UploadArgs.fixedOverhead at hoverhead hchunk
  unfold HEADER_SIZE STANZA_SIZE AEAD_TAG_SIZE
  omega

theorem length_manifestData {manifestSize : Nat → Nat → Nat} (hsizes : ManifestSizes T manifestSize)
    {a : UploadArgs} {u : Upload} (hhashes : u.chunkHashes.length = a.numChunks)
    (h : Upload.manifestData T a coins (u.manifest T a) = some data) :
    data.length = 4 + envelopeSize a.recipients.length
      (manifestSize a.numChunks a.filename.length) := by
  obtain ⟨envelope, hencrypt, rfl⟩ := Option.map_eq_some_iff.mp h
  have hlength : (u.manifest T a).chunkHashes.length = 32 * a.numChunks := by
    simp [Upload.manifest, length_encodeHashes, hhashes, Nat.mul_comm]
  rw [List.length_append, length_encrypt htag hencrypt, hsizes _ _ hlength]
  rfl

omit htag in
theorem length_makeNameData_le {name : Bytes} {hash : Hash32}
    (h : makeNameData name hash = some data) : data.length ≤ 65573 := by
  unfold makeNameData at h
  split_ifs at h with hlong
  obtain rfl := Option.some.inj h
  simp only [List.length_append, List.Vector.toList_length, length_toBigEndian]
  omega

omit htag in
theorem length_makeBombData_singleton {hash : Hash32}
    (h : makeBombData [hash] = some data) : data.length = 40 := by
  unfold makeBombData at h
  split_ifs at h
  obtain rfl := Option.some.inj h
  simp [BOMB_MAGIC]

end Sizes

/-- **Upload size cap.** In every state of every run of `put`, the blob it is about to send has at
most the size of the session cap exactly if it is not the manifest or the envelope of an input, or
the input fits. -/
theorem put_size_iff (T : Toolkit) (a : PutArgs) (answers : List Answer)
    (htag : TagSized T) (manifestSize : Nat → Nat → Nat) (hsizes : ManifestSizes T manifestSize)
    (hcap : 1048576 ≤ a.sessionCap.toNat) (blob : BlobWrite) (rid : UInt32)
    (hop : (run (put T a).step (Put.start T a) answers).op a = .sendAsync blob rid) :
    (∀ f, (run (put T a).step (Put.start T a) answers).subject = some f → f ∈ a.inputs) ∧
    (blob.data.length ≤ a.sessionCap.toNat ↔
      ∀ f, (run (put T a).step (Put.start T a) answers).subject = some f →
        a.Fits T manifestSize f) := by
  obtain ⟨hrouted, hsends⟩ := Put.carries_run T a answers
  generalize run (put T a).step (Put.start T a) answers = p at hrouted hsends hop
  have hexit : p.exit = none := by
    cases hexit : p.exit with
    | none => rfl
    | some exit => simp [Put.op, hexit] at hop
  have hsending := hsends hexit
  unfold Put.subject
  cases hupload : p.upload with
  | some running =>
    obtain ⟨f, u⟩ := running
    rw [hupload] at hsending
    obtain ⟨hrun, hadmitted, hhashes, hcarried⟩ := hsending
    obtain ⟨hinput, hchunked⟩ := hrouted.upload f u hupload
    have hout : u.outgoing = some blob.data := by
      simp only [Put.op, hexit, hupload, Upload.op, hrun] at hop
      cases hout : u.outgoing with
      | some data =>
        rw [hout] at hop
        rw [← (Op.sendAsync.inj hop).1]
      | none =>
        rw [hout] at hop
        cases hstage : u.stage <;> rw [hstage] at hop <;> exact absurd hop (by simp)
    have hdata := hcarried blob.data hrun hout
    by_cases hstage : u.stage = .chunks
    · rw [if_pos hstage] at hdata
      obtain ⟨coins, i, hdata⟩ := hdata
      have hle := length_cdatData_le htag hadmitted hdata
      exact ⟨by simp [hstage], iff_of_true hle (by simp [hstage])⟩
    · rw [if_neg hstage] at hdata
      obtain ⟨coins, hdata⟩ := hdata
      rw [length_manifestData htag hsizes hhashes hdata]
      simp only [if_neg hstage, Option.some.injEq, forall_eq', PutArgs.Fits, hchunked, if_true]
      exact ⟨hinput, Iff.rfl⟩
  | none =>
    rw [hupload] at hsending
    have hout : p.outgoing = some blob := by
      simp only [Put.op, hexit, hupload] at hop
      cases hout : p.outgoing with
      | some sent =>
        rw [hout] at hop
        rw [(Op.sendAsync.inj hop).1]
      | none =>
        rw [hout] at hop
        exact absurd hop (by simp)
    have hdata := hsending blob hout
    unfold Put.Built at hdata
    cases hstage : p.stage with
    | batch =>
      rw [hstage] at hdata
      obtain ⟨f, coins, hfile, hdata⟩ := hdata
      obtain ⟨hinput, hchunked⟩ := hrouted.batch f (List.mem_of_getElem? hfile)
      rw [length_encrypt htag hdata, length_buildPutPayload]
      simp only [hfile, if_true, Option.some.injEq, forall_eq', PutArgs.Fits, hchunked,
        Bool.false_eq_true, if_false]
      exact ⟨hinput, trivial⟩
    | name =>
      rw [hstage] at hdata
      obtain ⟨name, hash, hdata⟩ := hdata
      have hle := length_makeNameData_le hdata
      exact ⟨by simp, iff_of_true (by omega) (by simp)⟩
    | bomb =>
      rw [hstage] at hdata
      obtain ⟨hash, hdata⟩ := hdata
      have hlength := length_makeBombData_singleton hdata
      exact ⟨by simp, iff_of_true (by omega) (by simp)⟩
    | scan =>
      rw [hstage] at hdata
      exact hdata.elim
    | nameAck =>
      rw [hstage] at hdata
      exact hdata.elim
    | bombAck =>
      rw [hstage] at hdata
      exact hdata.elim

section Sample

open Cli.Sample

/-- One file, for one recipient, with a cap of 1 MiB. -/
def samplePut (data : Bytes) : PutArgs where
  input := .files [{ name := [102], data }]
  recipients := [List.replicate 1568 0]
  ttl := 0
  timestamp := 1000
  sessionCap := 1048576
  coins _ :=
    { dek := FixedBytes.fill 32 0, dataNonce := FixedBytes.fill 12 0, encaps := fun _ => [] }

/-- A file that is not above the cap goes into one envelope. -/
theorem samplePut_start (hsome : data.length ≠ 0) (hcap : data.length ≤ 1048576) :
    ∃ envelope, Put.start toolkit (samplePut data) =
        { stage := .batch, files := [{ name := [102], data }], encryptions := 1
          outgoing := some { data := envelope, ttl := 0, timestamp := 1000 } } ∧
      envelope.length = envelopeSize 1
        (4 + (toolkit.dumpMetadata [102] data.length).length + data.length) := by
  have hencrypt : (encrypt toolkit ((samplePut data).coins 0) (buildPutPayload toolkit [102] data)
      (samplePut data).recipients).isSome = true := by
    refine isSome_encrypt (List.cons_ne_nil _ _) (by decide : 1 ≤ 65535) fun pk hpk => ?_
    obtain rfl := List.mem_singleton.mp hpk
    exact List.length_replicate
  obtain ⟨envelope, henvelope⟩ := Option.isSome_iff_exists.mp hencrypt
  refine ⟨envelope, ?_, ?_⟩
  · have hchunked : ¬data.length > MAX_CHUNKED_FILE_SIZE := by
      unfold MAX_CHUNKED_FILE_SIZE
      omega
    have habove : ¬data.length > (samplePut data).sessionCap.toNat := Nat.not_lt.mpr hcap
    have hlarge : ¬data.length > MAX_FILE_SIZE := by
      unfold MAX_FILE_SIZE
      omega
    show Put.scan toolkit (samplePut data) {} [{ name := [102], data }] = _
    rw [Put.scan, if_neg hsome, if_neg hchunked, if_neg habove, if_neg hlarge]
    show Put.sending (samplePut data)
      { stage := .batch, files := [{ name := [102], data }], encryptions := 1 }
      (encrypt toolkit ((samplePut data).coins 0) (buildPutPayload toolkit [102] data)
        (samplePut data).recipients) 0 = _
    rw [henvelope]
    rfl
  · rw [length_encrypt length_aeadEncrypt henvelope, length_buildPutPayload]
    rfl

theorem length_encodeVector (v : Bytes) :
    (Wire.Sample.encodeVector v).length = 2 * v.length + 1 := by
  induction v with
  | nil => rfl
  | cons b rest ih => simp [Wire.Sample.encodeVector, ih]; omega

theorem manifestSizes_toolkit : ManifestSizes toolkit fun n name => 64 * n + 2 * name + 94 := by
  intro m n hhashes
  simp [encodeManifestPayload, toolkit, finishManifest, Wire.Sample.encodeOptional,
    length_encodeVector, hhashes, CPAR_MAGIC]
  omega

theorem put_size_small : ∃ blob,
    (Put.start toolkit (samplePut [1, 2, 3])).op (samplePut [1, 2, 3]) = .sendAsync blob 1 ∧
    blob.data.length ≤ (samplePut [1, 2, 3]).sessionCap.toNat := by
  obtain ⟨envelope, hstart, -⟩ := @samplePut_start [1, 2, 3] (by decide) (by decide)
  have hop : (Put.start toolkit (samplePut [1, 2, 3])).op (samplePut [1, 2, 3]) =
      .sendAsync { data := envelope, ttl := 0, timestamp := 1000 } 1 := by
    rw [hstart]
    rfl
  refine ⟨_, hop, (put_size_iff toolkit (samplePut [1, 2, 3]) [] length_aeadEncrypt _
    manifestSizes_toolkit (by decide) _ 1 (by rw [run_nil]; exact hop)).2.mpr ?_⟩
  rw [run_nil, hstart]
  intro f hf
  obtain rfl := Option.some.inj hf
  show envelopeSize _ _ ≤ _
  decide

/-- A file of exactly the size of the cap is not chunked, and its envelope exceeds the cap. -/
theorem put_size_exceeded : ∃ blob,
    (Put.start toolkit (samplePut (List.replicate 1048576 7))).op
        (samplePut (List.replicate 1048576 7)) = .sendAsync blob 1 ∧
    (samplePut (List.replicate 1048576 7)).sessionCap.toNat < blob.data.length := by
  have hsize : (List.replicate 1048576 (7 : UInt8)).length = 1048576 := List.length_replicate
  obtain ⟨envelope, hstart, hlength⟩ := @samplePut_start (List.replicate 1048576 7)
    (by rw [hsize]; decide) hsize.le
  refine ⟨_, by rw [hstart]; rfl, ?_⟩
  show _ < envelope.length
  rw [hlength, hsize]
  decide

end Sample

end Cli
