import Chromatin.Cli.Envelope
import Chromatin.Cli.Pipeline
import Chromatin.Infra.Assoc
import Chromatin.Infra.Slices

/-!
# Chunked files (`cli/src/chunked.cpp`, `cli/src/wire.cpp`)

A file above the blob cap of the session is stored as CDAT blobs, one for each chunk, and a CPAR
manifest that lists their hashes. `put_chunked` and `get_chunked` are loops with a window of
requests; both are commands of the pipelined connection.

The signature of a blob, its encoding in a write request, progress output and the waiting time
between attempts are left out. The file to upload does not change while it is read.
-/

namespace Cli

open Infra Util Wire Net

/-! ## Manifests -/

def MANIFEST_VERSION_V1 : UInt32 := 1

def MAX_CHUNKS : Nat := 65536

def CHUNK_SIZE_BYTES_MIN : Nat := 1 * 1024 * 1024

/-- 1 TiB -/
def MAX_CHUNKED_FILE_SIZE : Nat := 1024 * 1024 * 1024 * 1024

def RETRY_ATTEMPTS : Nat := 3

structure ManifestData where
  version : UInt32 := MANIFEST_VERSION_V1
  chunkSizeBytes : UInt32 := 0
  segmentCount : UInt32 := 0
  totalPlaintextBytes : UInt64 := 0
  plaintextSha3 : Hash32
  /-- 32 bytes for each chunk -/
  chunkHashes : Bytes
  filename : Bytes
deriving DecidableEq

/-- `[CPAR magic:4][FlatBuffer Manifest]`. -/
def encodeManifestPayload (T : Toolkit) (m : ManifestData) : Bytes :=
  CPAR_MAGIC.toList ++ T.finishManifest
    { version := m.version, chunkSizeBytes := m.chunkSizeBytes, segmentCount := m.segmentCount
      totalPlaintextBytes := m.totalPlaintextBytes, plaintextSha3 := some m.plaintextSha3.toList
      chunkHashes := some m.chunkHashes, filename := some m.filename }

def decodeManifestPayload (T : Toolkit) (data : Bytes) (sessionCap : UInt64) :
    Option ManifestData := do
  guard (hasMagic CPAR_MAGIC.toList data = true)
  let fb ← T.getManifest (data.drop 4)
  guard (fb.version = MANIFEST_VERSION_V1)
  guard (fb.segmentCount.toNat ≠ 0 ∧ fb.segmentCount.toNat ≤ MAX_CHUNKS)
  guard (CHUNK_SIZE_BYTES_MIN ≤ fb.chunkSizeBytes.toNat)
  guard (fb.chunkSizeBytes.toNat ≤ sessionCap.toNat)
  guard (fb.totalPlaintextBytes.toNat ≠ 0 ∧
    fb.totalPlaintextBytes.toNat ≤ fb.segmentCount.toNat * fb.chunkSizeBytes.toNat)
  let sha3 ← fb.plaintextSha3
  guard (sha3.length = 32)
  let hashes ← fb.chunkHashes
  guard (hashes.length = fb.segmentCount.toNat * 32)
  let plaintextSha3 ← readFixed 32 sha3 0
  some
    { version := fb.version, chunkSizeBytes := fb.chunkSizeBytes, segmentCount := fb.segmentCount
      totalPlaintextBytes := fb.totalPlaintextBytes, plaintextSha3, chunkHashes := hashes
      filename := fb.filename.getD [] }

theorem segmentCount_le_of_decode {T : Toolkit} {payload : Bytes} {sessionCap : UInt64}
    {m : ManifestData} (h : decodeManifestPayload T payload sessionCap = some m) :
    m.segmentCount.toNat ≤ MAX_CHUNKS := by
  simp only [decodeManifestPayload, Option.bind_eq_bind, Option.bind_eq_some_iff,
    guard_eq_some, Option.some.injEq] at h
  obtain ⟨_, -, fb, -, _, -, _, ⟨-, hmax⟩, _, -, _, -, _, -, sha3, -, _, -, hashes, -, _, -,
    sha3', -, hm⟩ := h
  rw [← hm]
  exact hmax

/-- The hash of a chunk in the manifest. -/
def ManifestData.target (m : ManifestData) (i : Nat) : Hash32 :=
  (readFixed 32 m.chunkHashes (i * 32)).getD (FixedBytes.fill 32 0)

/-! ## Upload -/

inductive Exit
  | ok
  | failed
  /-- an exception leaves the function -/
  | threw
deriving DecidableEq

/-- A blob that is written; the signature is left out. -/
structure BlobWrite where
  data : Bytes
  ttl : UInt32
  timestamp : UInt64

/-- The arguments of `put_chunked`, and what it reads from its surroundings. -/
structure UploadArgs where
  file : Bytes
  filename : Bytes
  recipients : List Bytes
  ttl : UInt32
  timestamp : UInt64
  sessionCap : UInt64
  /-- what `ensure_pubk` returns -/
  pubkEnsured : Bool
  /-- the random values of the calls of `envelope::encrypt` -/
  coins : Nat → Envelope.Coins

namespace UploadArgs

variable (a : UploadArgs)

/-- Header, stanzas and tags of a chunk that fills the cap, and its magic. -/
def fixedOverhead : Nat :=
  4 + 20 + a.recipients.length * 1648 + (a.sessionCap.toNat + 1048576 - 1) / 1048576 * 16

def chunkSize : Nat := a.sessionCap.toNat - a.fixedOverhead

def numChunks : Nat := (a.file.length + a.chunkSize - 1) / a.chunkSize

def chunk (i : Nat) : Bytes := sliceAt a.file (i * a.chunkSize) a.chunkSize

/-- The checks before the first chunk. -/
def admitted : Bool :=
  a.sessionCap != 0 &&
  (a.sessionCap.toNat < a.file.length && a.file.length ≤ MAX_CHUNKED_FILE_SIZE) &&
  a.fixedOverhead < a.sessionCap.toNat &&
  a.chunkSize < 2 ^ 32 &&
  (a.numChunks != 0 && a.numChunks ≤ MAX_CHUNKS) &&
  a.pubkEnsured

end UploadArgs

inductive UploadStage
  | chunks
  | manifest
  | manifestAck
deriving DecidableEq

structure Upload where
  rid : UInt32 := 1
  ridToChunkIndex : List (UInt32 × Nat) := []
  next : Nat := 0
  completed : Nat := 0
  /-- what the hasher has absorbed -/
  absorbed : Bytes := []
  chunkHashes : List Hash32
  stage : UploadStage := .chunks
  /-- failed attempts to send the chunk -/
  attempt : Nat := 0
  /-- calls of `envelope::encrypt` so far -/
  encryptions : Nat := 0
  /-- the data of the blob that is being sent -/
  outgoing : Option Bytes := none
  exit : Option Exit := none

namespace Upload

variable (T : Toolkit) (a : UploadArgs)

/-- `build_cdat_blob_flatbuf`. -/
def cdatData (coins : Envelope.Coins) (chunk : Bytes) : Option Bytes :=
  (Envelope.encrypt T coins chunk a.recipients).map (CDAT_MAGIC.toList ++ ·)

def manifest (u : Upload) : ManifestData where
  chunkSizeBytes := UInt32.ofNat a.chunkSize
  segmentCount := UInt32.ofNat a.numChunks
  totalPlaintextBytes := UInt64.ofNat a.file.length
  plaintextSha3 := T.sha3_256 u.absorbed
  chunkHashes := encodeHashes u.chunkHashes
  filename := a.filename

def manifestData (coins : Envelope.Coins) (m : ManifestData) : Option Bytes :=
  (Envelope.encrypt T coins (encodeManifestPayload T m) a.recipients).map (CPAR_MAGIC.toList ++ ·)

/-- A blob is encrypted and about to be sent. -/
def encrypted (u : Upload) (data : Option Bytes) : Upload :=
  match data with
  | none => { u with exit := some .threw, outgoing := none }
  | some data => { u with outgoing := some data, encryptions := u.encryptions + 1 }

/-- The loop up to its next blocking call. -/
def advance (u : Upload) : Upload :=
  if u.completed < a.numChunks then
    if u.next < a.numChunks ∧ u.ridToChunkIndex.length < kPipelineDepth then
      if a.chunk u.next = [] then { u with exit := some .failed, outgoing := none }
      else u.encrypted (cdatData T a (a.coins u.encryptions) (a.chunk u.next))
    else { u with outgoing := none }
  else
    { u with stage := .manifest }.encrypted
      (manifestData T a (a.coins u.encryptions) (u.manifest T a))

def start : Upload :=
  let u : Upload := { chunkHashes := List.replicate a.numChunks (FixedBytes.fill 32 0) }
  if a.admitted then u.advance T a else { u with exit := some .failed }

def op (u : Upload) : Op BlobWrite :=
  match u.exit, u.outgoing with
  | some _, _ => .stop
  | none, some data => .sendAsync { data, ttl := a.ttl, timestamp := a.timestamp } u.rid
  | none, none =>
    match u.stage with
    | .chunks => .recvNext
    -- `mrid` was taken from the counter when the manifest was sent
    | _ => .recvFor (u.rid - 1)

/-- A chunk that could not be sent is read and encrypted again, under the same request id. -/
def afterSend (u : Upload) (ok : Bool) : Upload :=
  match u.stage with
  | .chunks =>
    let chunk := a.chunk u.next
    let u := { u with absorbed := if u.attempt = 0 then u.absorbed ++ chunk else u.absorbed }
    if ok then
      { u with
        rid := u.rid + 1
        ridToChunkIndex := Assoc.assign u.rid u.next u.ridToChunkIndex
        next := u.next + 1
        attempt := 0 }.advance T a
    else if u.attempt < RETRY_ATTEMPTS then
      { u with attempt := u.attempt + 1 }.encrypted (cdatData T a (a.coins u.encryptions) chunk)
    else { u with exit := some .failed, outgoing := none }
  | _ =>
    if ok then { u with rid := u.rid + 1, stage := .manifestAck, outgoing := none }
    else { u with exit := some .failed, outgoing := none }

/-- The hash of a `WriteAck`; `none` for any other reply. -/
def ackedHash (reply : Message) : Option Hash32 :=
  if reply.type = MsgType.WriteAck ∧ 41 ≤ reply.payload.length then readFixed 32 reply.payload 0
  else none

def afterRecv (u : Upload) (reply : Option Message) : Upload :=
  match reply with
  | none => { u with exit := some .failed }
  | some reply =>
    match u.stage with
    | .chunks =>
      match u.ridToChunkIndex.lookup reply.requestId with
      | none => u
      | some chunkIdx =>
        let u := { u with
          ridToChunkIndex := Assoc.unbind reply.requestId u.ridToChunkIndex
          completed := u.completed + 1 }
        match ackedHash reply with
        | none => { u with exit := some .failed }
        | some hash => { u with chunkHashes := u.chunkHashes.set chunkIdx hash }.advance T a
    | _ =>
      match ackedHash reply with
      | none => { u with exit := some .failed }
      | some _ => { u with exit := some .ok }

end Upload

/-- `put_chunked`. -/
def putChunked (T : Toolkit) (a : UploadArgs) : Command Upload BlobWrite where
  op := Upload.op a
  afterSend := Upload.afterSend T a
  afterRecv := Upload.afterRecv T a

/-! ## Download -/

/-- The loop that made a read request. -/
inductive Requester
  /-- `cmd::get` -/
  | batch
  /-- the call of `get_chunked` with this number -/
  | download (number : Nat)
deriving DecidableEq

/-- `[namespace:32][hash:32]`, and the loop it was sent by. -/
structure ReadRequest where
  requester : Requester
  ns : Hash32
  hash : Hash32

/-- What the file system does with the output file. -/
structure Disk where
  /-- the file before the call -/
  previous : Option Bytes := none
  opens : Bool := true
  truncates : Bool := true
  /-- the write of the chunk that would complete so many chunks is complete -/
  writes : Nat → Bool := fun _ => true
  /-- the file can be read for verification -/
  rereads : Bool := true

/-- The arguments of `get_chunked`, and what it reads from its surroundings. -/
structure DownloadArgs where
  ns : Hash32
  manifest : ManifestData
  forceOverwrite : Bool
  disk : Disk
  /-- `envelope::decrypt` with the keys of the identity -/
  decrypt : Bytes → Option Bytes
  requester : Requester := .download 0

structure Download where
  rid : UInt32 := 1
  ridToChunkIndex : List (UInt32 × Nat) := []
  attempts : List Nat
  next : Nat := 0
  completed : Nat := 0
  /-- the chunk whose request is sent again -/
  retrying : Option Nat := none
  /-- the output file, `none` if there is none -/
  file : Option Bytes
  exit : Option Exit := none

/-- `cli::decode_blob`: a signer hint of another length is left zero. -/
def decodeBlob (T : Toolkit) (buffer : Bytes) : Option BlobData :=
  (T.getBlob buffer).map fun fb =>
    { signerHint := (fb.signerHint.bind fun hint =>
        if h : hint.length = 32 then some ⟨hint, h⟩ else none).getD (FixedBytes.fill 32 0)
      data := fb.data.getD [], ttl := fb.ttl, timestamp := fb.timestamp
      signature := fb.signature.getD [] }

namespace Download

variable (T : Toolkit) (a : DownloadArgs)

/-- What `get_chunked` makes of a reply. -/
inductive Content
  /-- not a blob: the request is made again -/
  | unusable
  /-- a blob that is not a chunk, or that cannot be decrypted -/
  | foreign
  | plaintext (bytes : Bytes)

def content (reply : Message) : Content :=
  if reply.type ≠ MsgType.ReadResponse ∨ reply.payload.head? ≠ some 0x01 then .unusable
  else
    match decodeBlob T reply.payload.tail with
    | none => .unusable
    | some blob =>
      if hasMagic CDAT_MAGIC.toList blob.data then
        match a.decrypt (blob.data.drop 4) with
        | none => .foreign
        | some plaintext => .plaintext plaintext
      else .foreign

def chunkCount : Nat := a.manifest.segmentCount.toNat

def chunkSize : Nat := a.manifest.chunkSizeBytes.toNat

def total : Nat := a.manifest.totalPlaintextBytes.toNat

/-- The subtraction for the last chunk is one of `uint64_t`. -/
def expectedLen (chunkIdx : Nat) : Nat :=
  if chunkIdx + 1 = chunkCount a then
    (a.manifest.totalPlaintextBytes - UInt64.ofNat (chunkIdx * chunkSize a)).toNat
  else chunkSize a

/-- A failure after the file was created: `UnlinkGuard` removes it. -/
def fail (d : Download) : Download := { d with file := none, exit := some .failed }

/-- The verification behind the loop. -/
def finish (d : Download) : Download :=
  if a.disk.rereads = true ∧ d.file.map T.sha3_256 = some a.manifest.plaintextSha3 then
    { d with exit := some .ok }
  else d.fail

def advance (d : Download) : Download :=
  if d.completed < chunkCount a then d else d.finish T a

def start : Download :=
  let attempts := List.replicate (chunkCount a) 0
  if a.forceOverwrite = false ∧ a.disk.previous.isSome = true then
    { attempts, file := a.disk.previous, exit := some .failed }
  else if a.disk.opens = false then
    { attempts, file := a.disk.previous, exit := some .failed }
  else if a.disk.truncates = false then
    { attempts, file := none, exit := some .failed }
  else
    ({ attempts, file := some (List.replicate (total a) 0) } : Download).advance T a

def readOf (chunkIdx : Nat) : ReadRequest :=
  { requester := a.requester, ns := a.ns, hash := a.manifest.target chunkIdx }

def op (d : Download) : Op ReadRequest :=
  match d.exit, d.retrying with
  | some _, _ => .stop
  | none, some chunkIdx => .sendAsync (readOf a chunkIdx) d.rid
  | none, none =>
    if d.next < chunkCount a ∧ d.ridToChunkIndex.length < kPipelineDepth then
      .sendAsync (readOf a d.next) d.rid
    else .recvNext

/-- The request is remembered under its id, which is used up in any case. -/
def afterSend (d : Download) (ok : Bool) : Download :=
  let d' := { d with rid := d.rid + 1 }
  if ok then
    match d.retrying with
    | some chunkIdx =>
      { d' with ridToChunkIndex := Assoc.assign d.rid chunkIdx d.ridToChunkIndex, retrying := none }
    | none =>
      { d' with ridToChunkIndex := Assoc.assign d.rid d.next d.ridToChunkIndex, next := d.next + 1 }
  else d'.fail

def retryChunk (d : Download) (chunkIdx : Nat) : Download :=
  if RETRY_ATTEMPTS ≤ d.attempts.getD chunkIdx 0 then d.fail
  else
    { d with
      attempts := d.attempts.set chunkIdx (d.attempts.getD chunkIdx 0 + 1)
      retrying := some chunkIdx }

/-- The plaintext of a chunk is written at its place. -/
def writeChunk (d : Download) (chunkIdx : Nat) (plaintext : Bytes) : Download :=
  if plaintext.length ≠ expectedLen a chunkIdx then d.fail
  else if a.disk.writes d.completed = false then d.fail
  else
    { d with
      file := d.file.map fun content => pwrite 0 content (chunkIdx * chunkSize a) plaintext
      completed := d.completed + 1 }.advance T a

def afterRecv (d : Download) (reply : Option Message) : Download :=
  match reply with
  | none => d.fail
  | some reply =>
    match d.ridToChunkIndex.lookup reply.requestId with
    | none => d
    | some chunkIdx =>
      let d := { d with ridToChunkIndex := Assoc.unbind reply.requestId d.ridToChunkIndex }
      match content T a reply with
      | .unusable => d.retryChunk chunkIdx
      | .foreign => d.fail
      | .plaintext plaintext => d.writeChunk T a chunkIdx plaintext

end Download

/-- `get_chunked`. -/
def getChunked (T : Toolkit) (a : DownloadArgs) : Command Download ReadRequest where
  op := Download.op a
  afterSend := Download.afterSend
  afterRecv := Download.afterRecv T a

end Cli
