import Chromatin.Cli.Chunked

/-!
# `cdb put` (`cli/src/commands.cpp`)

`put` looks at its files one after the other. A file above the session cap is uploaded at once, by
`put_chunked`; the others are collected and then written in a pipelined batch, one envelope for
each. With `--name` a NAME blob is written behind the content, and with `--replace` a BOMB for what
the name led to before.

The connection has been made. The signature of a blob, its encoding in a write request and the
output are left out, and `fs::file_size` and the later read agree. `conn.send` and `conn.recv` are
the same calls as `send_async` and `recv_next` here: they only differ in what they do to the
counters of the connection.
-/

namespace Cli

open Infra Util Wire Net

/-- `Client-side guard`: 500 MiB -/
def MAX_FILE_SIZE : Nat := 500 * 1024 * 1024

def MsgType.DeleteAck : UInt8 := 18

/-- `[NAME:4][name_len:2][name][target_hash:32]`; `none` is the exception for a long name. -/
def makeNameData (name : Bytes) (targetHash : Hash32) : Option Bytes :=
  if name.length > 65535 then none
  else some (NAME_MAGIC.toList ++ (toBigEndian 2 name.length ++ (name ++ targetHash.toList)))

/-- `[metadata_len:4][metadata_json][file_data]`. -/
def buildPutPayload (T : Toolkit) (filename fileData : Bytes) : Bytes :=
  let metaStr := T.dumpMetadata filename fileData.length
  writeU32Be (UInt32.ofNat metaStr.length) ++ (metaStr ++ fileData)

theorem length_buildPutPayload (T : Toolkit) (name data : Bytes) :
    (buildPutPayload T name data).length =
    4 + (T.dumpMetadata name data.length).length + data.length := by
  rw [buildPutPayload, List.length_append, List.length_append, length_writeU32Be]
  omega

/-- A file: its name without the directory, and its content. -/
structure FileEntry where
  name : Bytes
  data : Bytes

inductive PutInput
  | stdin (bytes : Bytes)
  | files (files : List FileEntry)

/-- The arguments of `put`, and what it reads from its surroundings. -/
structure PutArgs where
  input : PutInput
  /-- the KEM keys, the own one first -/
  recipients : List Bytes
  ttl : UInt32
  /-- the clock, which does not advance during the command -/
  timestamp : UInt64
  sessionCap : UInt64
  /-- what `ensure_pubk` returns -/
  pubkEnsured : Bool := true
  /-- `--name` -/
  name : Option Bytes := none
  replace : Bool := false
  /-- what `resolve_name_to_target_hash` returned -/
  replaceOldTarget : Option Hash32 := none
  /-- the random values of the calls of `envelope::encrypt` -/
  coins : Nat → Envelope.Coins

/-- The call of `put_chunked` for a file, after `encryptions` calls of `envelope::encrypt`. -/
def PutArgs.uploadArgs (a : PutArgs) (f : FileEntry) (encryptions : Nat) : UploadArgs where
  file := f.data
  filename := f.name
  recipients := a.recipients
  ttl := a.ttl
  timestamp := a.timestamp
  sessionCap := a.sessionCap
  pubkEnsured := a.pubkEnsured
  coins i := a.coins (encryptions + i)

inductive PutStage
  /-- the loop over the files -/
  | scan
  | batch
  | name
  | nameAck
  | bomb
  | bombAck
deriving DecidableEq

structure Put where
  stage : PutStage := .scan
  /-- the files behind the one that is being uploaded -/
  todo : List FileEntry := []
  /-- the call of `put_chunked` that runs -/
  upload : Option (FileEntry × Upload) := none
  files : List FileEntry := []
  rid : UInt32 := 1
  ridToIndex : List (UInt32 × Nat) := []
  nextToSend : Nat := 0
  completed : Nat := 0
  errors : Nat := 0
  /-- `content_hash_captured` -/
  contentHash : Option Hash32 := none
  /-- calls of `envelope::encrypt` so far, without those of the running `put_chunked` -/
  encryptions : Nat := 0
  /-- the blob that is being sent -/
  outgoing : Option BlobWrite := none
  exit : Option Exit := none

namespace Put

variable (T : Toolkit) (a : PutArgs)

def fail (p : Put) : Put := { p with exit := some .failed }

def finish (p : Put) : Put := { p with exit := some (if p.errors = 0 then .ok else .failed) }

/-- The data of a blob has been built, or an exception has been thrown. -/
def sending (p : Put) (data : Option Bytes) (ttl : UInt32) : Put :=
  match data with
  | none => { p with exit := some .threw }
  | some data => { p with outgoing := some { data, ttl, timestamp := a.timestamp } }

/-- The BOMB for `--replace`. -/
def emitBomb (p : Put) : Put :=
  match a.replaceOldTarget with
  | some target =>
    if p.errors = 0 ∧ a.replace = true then
      { p with stage := .bomb }.sending a (makeBombData [target]) 0
    else p.finish
  | none => p.finish

/-- What follows the batch: the NAME blob for `--name`. -/
def emitName (p : Put) : Put :=
  match a.name, p.contentHash with
  | some name, some hash =>
    if p.errors = 0 then { p with stage := .name }.sending a (makeNameData name hash) a.ttl
    else p.finish
  | _, _ => p.finish

/-- The batch loop up to its next blocking call. -/
def advance (p : Put) : Put :=
  if p.completed < p.files.length then
    match p.files[p.nextToSend]? with
    | some f =>
      if p.ridToIndex.length < kPipelineDepth then
        { p with encryptions := p.encryptions + 1 }.sending a
          (Envelope.encrypt T (a.coins p.encryptions) (buildPutPayload T f.name f.data)
            a.recipients) a.ttl
      else { p with outgoing := none }
    | none => { p with outgoing := none }
  else p.emitName a

/-- `put_chunked` has returned; a failure is counted. -/
def uploaded (p : Put) (u : Upload) : Put :=
  { p with
    upload := none
    errors := if u.exit = some .ok then p.errors else p.errors + 1
    encryptions := p.encryptions + u.encryptions }

/-- The loop over the files up to a call of `put_chunked` that blocks. -/
def scan (p : Put) : List FileEntry → Put
  | [] => { p with stage := .batch, todo := [] }.advance T a
  | f :: rest =>
    if f.data.length = 0 then p.fail
    else if f.data.length > MAX_CHUNKED_FILE_SIZE then p.fail
    else if f.data.length > a.sessionCap.toNat then
      if a.name.isSome then p.fail
      else
        let u := Upload.start T (a.uploadArgs f p.encryptions)
        match u.exit with
        | none => { p with upload := some (f, u), todo := rest }
        | some .threw => { p with exit := some .threw }
        | some _ => scan (p.uploaded u) rest
    else if f.data.length > MAX_FILE_SIZE then p.fail
    else scan { p with files := p.files ++ [f] } rest

def start : Put :=
  if a.pubkEnsured then
    match a.input with
    | .stdin bytes =>
      if bytes.length = 0 then ({} : Put).fail
      else ({ stage := .batch, files := [{ name := [], data := bytes }] } : Put).advance T a
    | .files files => ({} : Put).scan T a files
  else ({} : Put).fail

def op (p : Put) : Op BlobWrite :=
  match p.exit, p.upload with
  | some _, _ => .stop
  | none, some (f, u) => Upload.op (a.uploadArgs f p.encryptions) u
  | none, none =>
    match p.outgoing with
    | some blob => .sendAsync blob p.rid
    | none => .recvNext

/-- `put_chunked` goes on, and the loop over the files behind it. -/
def afterUpload (p : Put) (f : FileEntry) (u : Upload) : Put :=
  match u.exit with
  | none => { p with upload := some (f, u) }
  | some .threw => { p with exit := some .threw }
  | some _ => (p.uploaded u).scan T a p.todo

/-- The request id is used up in any case. -/
def afterSend (p : Put) (ok : Bool) : Put :=
  match p.upload with
  | some (f, u) => p.afterUpload T a f (Upload.afterSend T (a.uploadArgs f p.encryptions) u ok)
  | none =>
    let p' := { p with rid := p.rid + 1 }
    match p.stage with
    | .batch =>
      if ok then
        { p' with ridToIndex := Assoc.assign p.rid p.nextToSend p.ridToIndex
                  nextToSend := p.nextToSend + 1 }.advance T a
      else
        { p' with errors := p.errors + 1, completed := p.completed + 1
                  nextToSend := p.nextToSend + 1 }.advance T a
    | .name =>
      if ok then { p' with stage := .nameAck, outgoing := none }
      else { p' with errors := p.errors + 1 }.emitBomb a
    | .bomb =>
      if ok then { p' with stage := .bombAck, outgoing := none }
      else { p' with errors := p.errors + 1 }.finish
    | _ => p

/-- A reply to a write of the batch; one with an unknown id is dropped. -/
def afterAck (p : Put) (reply : Message) : Put :=
  match p.ridToIndex.lookup reply.requestId with
  | none => p
  | some _ =>
    let p := { p with ridToIndex := Assoc.unbind reply.requestId p.ridToIndex
                      completed := p.completed + 1 }
    match Upload.ackedHash reply with
    | none => { p with errors := p.errors + 1 }.advance T a
    | some hash =>
      { p with contentHash := if a.name.isSome then some hash else p.contentHash }.advance T a

/-- `submit_name_blob` and `submit_bomb_blob` succeed with an acknowledgement of one of the types.
-/
def acknowledged (types : List UInt8) (reply : Option Message) : Bool :=
  reply.any fun m => types.contains m.type && decide (32 ≤ m.payload.length)

def afterRecv (p : Put) (reply : Option Message) : Put :=
  match p.upload with
  | some (f, u) => p.afterUpload T a f (Upload.afterRecv T (a.uploadArgs f p.encryptions) u reply)
  | none =>
    match p.stage with
    | .batch =>
      match reply with
      -- every request under way becomes an error
      | none => { p with errors := p.errors + p.ridToIndex.length
                         completed := p.completed + p.ridToIndex.length
                         ridToIndex := [] }.emitName a
      | some reply => p.afterAck T a reply
    | .nameAck =>
      if acknowledged [MsgType.WriteAck] reply then p.emitBomb a
      else { p with errors := p.errors + 1 }.emitBomb a
    | .bombAck =>
      if acknowledged [MsgType.WriteAck, MsgType.DeleteAck] reply then p.finish
      else { p with errors := p.errors + 1 }.finish
    | _ => p

end Put

/-- `cmd::put`. -/
def put (T : Toolkit) (a : PutArgs) : Command Put BlobWrite where
  op := Put.op a
  afterSend := Put.afterSend T a
  afterRecv := Put.afterRecv T a

end Cli
