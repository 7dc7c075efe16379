import Chromatin.Cli.Chunked

/-!
# `cdb get` (`cli/src/commands.cpp`)

`get` asks for its hashes in a pipelined batch and handles the replies in the order they come. A
reply with a manifest is handled by `get_chunked`, at once and on the same connection, while other
requests of the batch may be under way. Both loops count their request ids from 1.

Only what becomes of a file is left of the output: `saves` says whether it could be written.
-/

namespace Cli

open Infra Util Wire Net

/-- `envelope::is_envelope`. -/
def Envelope.isEnvelope (data : Bytes) : Bool := hasMagic MAGIC data

/-- `GetDispatch`. -/
inductive GetDispatch
  | CPAR
  | CDAT
  | other

def classifyBlobData (data : Bytes) : GetDispatch :=
  if hasMagic CPAR_MAGIC.toList data then .CPAR
  else if hasMagic CDAT_MAGIC.toList data then .CDAT
  else .other

/-- The arguments of `get`, and what it reads from its surroundings. -/
structure GetArgs where
  /-- the hashes; `none` for a text that `parse_hash` refuses -/
  hashes : List (Option Hash32)
  ns : Hash32
  toStdout : Bool := false
  forceOverwrite : Bool := false
  sessionCap : UInt64
  /-- `envelope::decrypt` with the keys of the identity -/
  decrypt : Bytes → Option Bytes
  /-- the name in the JSON metadata, empty if there is none; `none` if it is not JSON -/
  parseMetadata : Bytes → Option Bytes
  /-- the file for the content of the hash at an index can be written -/
  saves : Nat → Bool := fun _ => true
  /-- the output file of the call of `get_chunked` with a number -/
  disk : Nat → Disk := fun _ => {}

/-- The bytes from the end of the length field up to the pointer `4 + metaLen` behind the start, as
far as there is memory. -/
def metadataText (plaintext behind : Bytes) (metaLen : Nat) : Bytes :=
  ((plaintext ++ behind).drop 4).take metaLen

/-- `parse_put_payload`; `none` is an exception. The sums of the check and of the data offset are
ones of `uint32_t`. The end of the metadata is a pointer, which is in the memory `behind` the
payload if they wrap. -/
def parsePutPayload (parseMetadata : Bytes → Option Bytes) (behind plaintext : Bytes) :
    Option (Bytes × Bytes) := do
  let metaLen ← readU32Be plaintext 0
  guard ((4 + metaLen).toNat ≤ plaintext.length)
  let text := metadataText plaintext behind metaLen.toNat
  -- the program does not survive a read behind that memory
  guard (text.length = metaLen.toNat)
  let name ← parseMetadata text
  some (name, plaintext.drop (4 + metaLen).toNat)

structure Get where
  rid : UInt32 := 1
  ridToIndex : List (UInt32 × Nat) := []
  nextToSend : Nat := 0
  completed : Nat := 0
  errors : Nat := 0
  /-- calls of `get_chunked` so far -/
  downloads : Nat := 0
  /-- the call of `get_chunked` that runs -/
  download : Option (DownloadArgs × Download) := none
  exit : Option Exit := none

namespace Get

variable (T : Toolkit) (a : GetArgs)

/-- What a reply with a blob leads to. -/
inductive Outcome
  | saved
  | error
  | manifest (m : ManifestData)

/-- A blob that is neither a chunk nor a manifest; the plaintext is the last there is in the memory.
-/
def saveBlob (index : Nat) (data : Bytes) : Outcome :=
  let plaintext := if Envelope.isEnvelope data then a.decrypt data else some data
  match plaintext.bind (parsePutPayload a.parseMetadata []) with
  | none => .error
  | some _ => if a.toStdout || a.saves index then .saved else .error

def outcome (index : Nat) (reply : Message) : Outcome :=
  if reply.type ≠ MsgType.ReadResponse ∨ reply.payload.head? ≠ some 0x01 then .error
  else
    match decodeBlob T reply.payload.tail with
    | none => .error
    | some blob =>
      match classifyBlobData blob.data with
      | .CDAT => .error
      | .CPAR =>
        if a.toStdout then .error
        else
          match (a.decrypt (blob.data.drop 4)).bind (decodeManifestPayload T · a.sessionCap) with
          | none => .error
          | some m => .manifest m
      | .other => saveBlob a index blob.data

/-- Texts that are no hashes are counted as errors, while the window is open. -/
def skipInvalid (g : Get) : List (Option Hash32) → Get
  | none :: rest =>
    if g.ridToIndex.length < kPipelineDepth then
      skipInvalid { g with errors := g.errors + 1, completed := g.completed + 1
                           nextToSend := g.nextToSend + 1 } rest
    else g
  | _ => g

def finish (g : Get) : Get := { g with exit := some (if g.errors = 0 then .ok else .failed) }

/-- The loop up to its next blocking call. -/
def advance (g : Get) : Get :=
  let g := g.skipInvalid (a.hashes.drop g.nextToSend)
  if g.completed < a.hashes.length then g else g.finish

def start : Get := ({} : Get).advance a

/-- The request for the hash at an index. -/
def readOf (index : Nat) : Option ReadRequest :=
  (a.hashes[index]?).join.map fun hash => { requester := .batch, ns := a.ns, hash }

def op (g : Get) : Op ReadRequest :=
  match g.exit, g.download with
  | some _, _ => .stop
  | none, some (da, d) => Download.op da d
  | none, none =>
    match readOf a g.nextToSend with
    | some request =>
      if g.ridToIndex.length < kPipelineDepth then .sendAsync request g.rid else .recvNext
    | none => .recvNext

/-- `get_chunked` goes on, and the batch behind it. -/
def afterDownload (g : Get) (da : DownloadArgs) (d : Download) : Get :=
  match d.exit with
  | none => { g with download := some (da, d) }
  | some exit =>
    { g with
      download := none, errors := if exit = Exit.ok then g.errors else g.errors + 1 }.advance a

/-- The arguments of the next call of `get_chunked`. -/
def downloadArgs (g : Get) (m : ManifestData) : DownloadArgs where
  ns := a.ns
  manifest := m
  forceOverwrite := a.forceOverwrite
  disk := a.disk g.downloads
  decrypt := a.decrypt
  requester := .download g.downloads

/-- The request id is used up in any case. -/
def afterSend (g : Get) (ok : Bool) : Get :=
  match g.download with
  | some (da, d) => g.afterDownload a da (d.afterSend ok)
  | none =>
    if ok then
      { g with rid := g.rid + 1, nextToSend := g.nextToSend + 1
               ridToIndex := Assoc.assign g.rid g.nextToSend g.ridToIndex }.advance a
    else
      { g with rid := g.rid + 1, nextToSend := g.nextToSend + 1
               errors := g.errors + 1, completed := g.completed + 1 }.advance a

def afterRecv (g : Get) (reply : Option Message) : Get :=
  match g.download with
  | some (da, d) => g.afterDownload a da (d.afterRecv T da reply)
  | none =>
    match reply with
    -- every request under way becomes an error, and the loop is left
    | none => { g with errors := g.errors + g.ridToIndex.length
                       completed := g.completed + g.ridToIndex.length, ridToIndex := [] }.finish
    | some reply =>
      match g.ridToIndex.lookup reply.requestId with
      | none => g
      | some index =>
        let g := { g with ridToIndex := Assoc.unbind reply.requestId g.ridToIndex
                          completed := g.completed + 1 }
        match outcome T a index reply with
        | .saved => g.advance a
        | .error => { g with errors := g.errors + 1 }.advance a
        | .manifest m =>
          let da := g.downloadArgs a m
          { g with downloads := g.downloads + 1 }.afterDownload a da (Download.start T da)

end Get

/-- `cmd::get`. -/
def get (T : Toolkit) (a : GetArgs) : Command Get ReadRequest where
  op := Get.op a
  afterSend := Get.afterSend a
  afterRecv := Get.afterRecv T a

end Cli
