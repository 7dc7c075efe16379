import Chromatin.Cli.Put

/-!
# Removing a chunked file (`cli/src/chunked.cpp`)

`rm_chunked` deletes the chunks of a manifest, in a window of requests, and the manifest behind
them. A chunk whose request could not be sent, or was not acknowledged, is counted as an error and
the loop goes on; with an error the manifest stays.

The signature of a tombstone, its encoding in a delete request and progress output are left out.
-/

namespace Cli

open Infra Util Wire Net

/-- The targets in the order of their tombstones: the chunks, and the manifest behind them. A
manifest has 32 bytes in `chunk_hashes` for each segment. -/
def planTombstoneTargets (manifest : ManifestData) (manifestHash : Hash32) : List Hash32 :=
  (List.range manifest.segmentCount.toNat).map manifest.target ++ [manifestHash]

/-- `build_tombstone_flatbuf`, and the position of the target in the plan. -/
structure Tombstone where
  number : Nat
  ns : Hash32
  blob : BlobWrite

/-- The arguments of `rm_chunked`, and the clock. -/
structure RemoveArgs where
  ns : Hash32
  manifest : ManifestData
  manifestHash : Hash32
  timestamp : UInt64

namespace RemoveArgs

variable (a : RemoveArgs)

def targets : List Hash32 := planTombstoneTargets a.manifest a.manifestHash

/-- `N`, the number of chunks. -/
def chunkCount : Nat := a.targets.length - 1

def tombstone (number : Nat) : Tombstone where
  number
  ns := a.ns
  blob :=
    { data := makeTombstoneData (a.targets.getD number (FixedBytes.fill 32 0)), ttl := 0
      timestamp := a.timestamp }

end RemoveArgs

inductive RemoveStage
  | chunks
  | manifest
  | manifestAck

structure Remove where
  rid : UInt32 := 1
  ridToChunkIndex : List (UInt32 × Nat) := []
  next : Nat := 0
  completed : Nat := 0
  errors : Nat := 0
  stage : RemoveStage := .chunks
  exit : Option Exit := none

namespace Remove

variable (a : RemoveArgs)

/-- What ends the loop over the chunks, and what follows it. -/
def advance (r : Remove) : Remove :=
  if r.completed < a.chunkCount then r
  else if r.errors ≠ 0 then { r with exit := some .failed }
  else { r with stage := .manifest }

def start : Remove := ({} : Remove).advance a

def op (r : Remove) : Op Tombstone :=
  match r.exit, r.stage with
  | some _, _ => .stop
  | none, .chunks =>
    if r.next < a.chunkCount ∧ r.ridToChunkIndex.length < kPipelineDepth then
      .sendAsync (a.tombstone r.next) r.rid
    else .recvNext
  | none, .manifest => .sendAsync (a.tombstone a.chunkCount) r.rid
  -- `mrid` was taken from the counter when the manifest was sent
  | none, .manifestAck => .recvFor (r.rid - 1)

/-- The request id is used up in any case. -/
def afterSend (r : Remove) (ok : Bool) : Remove :=
  match r.stage with
  | .chunks =>
    if ok then
      { r with
        rid := r.rid + 1
        ridToChunkIndex := Assoc.assign r.rid r.next r.ridToChunkIndex
        next := r.next + 1 }.advance a
    else
      { r with
        rid := r.rid + 1
        errors := r.errors + 1
        completed := r.completed + 1
        next := r.next + 1 }.advance a
  | _ =>
    if ok then { r with rid := r.rid + 1, stage := .manifestAck }
    else { r with rid := r.rid + 1, exit := some .failed }

/-- A reply that acknowledges a deletion. -/
def isDeleteAck (reply : Message) : Bool :=
  reply.type = MsgType.DeleteAck && 41 ≤ reply.payload.length

def afterRecv (r : Remove) (reply : Option Message) : Remove :=
  match reply with
  | none => { r with exit := some .failed }
  | some reply =>
    match r.stage with
    | .chunks =>
      match r.ridToChunkIndex.lookup reply.requestId with
      | none => r
      | some _ =>
        { r with
          ridToChunkIndex := Assoc.unbind reply.requestId r.ridToChunkIndex
          completed := r.completed + 1
          errors := if isDeleteAck reply then r.errors else r.errors + 1 }.advance a
    | _ => { r with exit := some (if isDeleteAck reply then .ok else .failed) }

end Remove

/-- `rm_chunked`. -/
def rmChunked (a : RemoveArgs) : Command Remove Tombstone where
  op := Remove.op a
  afterSend := Remove.afterSend a
  afterRecv := Remove.afterRecv a

end Cli
