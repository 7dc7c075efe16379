import Chromatin.Cli.Envelope
import Chromatin.Peer.MessageDispatcher

/-!
# Listing a namespace (`cli/src/commands.cpp`)

`ls`, `list_hashes` and `enumerate_name_blobs` ask for page after page and continue behind the last
entry of the page before. They share the loop `listPages`; an error response or a response that
is cut short ends the loop with what has been read (`ls` then reports an error). What `ls` prints
for an entry is left out.
-/

namespace Cli

open Infra Util Wire Peer

/-- What a listing asks for. -/
structure ListOptions where
  includeAll : Bool := false
  typeFilter : Option (FixedBytes 4) := none

/-- The flags byte is only sent when a flag is set, the type filter only with its flag. -/
def listFlags (options : ListOptions) : Bytes :=
  let flags : UInt8 := if options.includeAll then 0x01 else 0x00
  match options.typeFilter with
  | some filter => (flags ||| 0x02) :: filter.toList
  | none => if options.includeAll then [flags] else []

def listRequest (ns : Hash32) (sinceSeq : UInt64) (limit : UInt32) (options : ListOptions) :
    Bytes :=
  ns.toList ++ (writeU64Be sinceSeq ++ (writeU32Be limit ++ listFlags options))

def parseListEntry (payload : Bytes) (offset : Nat) : Option ListEntry := do
  let blobHash ← readFixed 32 payload offset
  let seqNum ← readU64Be payload (offset + 32)
  let blobType ← readFixed 4 payload (offset + 40)
  let dataSize ← readU64Be payload (offset + 44)
  let timestamp ← readU64Be payload (offset + 52)
  some { blobHash, seqNum, blobType, dataSize, timestamp }

/-- Entries one after the other. -/
def parseListEntries (payload : Bytes) : Nat → Nat → Option (List ListEntry)
  | 0, _ => some []
  | n + 1, offset => do
    let entry ← parseListEntry payload offset
    let rest ← parseListEntries payload n (offset + LIST_ENTRY_SIZE)
    some (entry :: rest)

/-- The entries of a response and its `has_more` byte. -/
def parseListResponse (payload : Bytes) : Option (List ListEntry × UInt8) := do
  let count ← readU32Be payload 0
  let entries ← parseListEntries payload count.toNat 4
  let hasMore ← payload[4 + count.toNat * LIST_ENTRY_SIZE]?
  some (entries, hasMore)

/-- The paging loop against a server; `none` when the fuel runs out. -/
def listPages (server : Bytes → Except UInt8 Bytes) (ns : Hash32) (limit : UInt32)
    (options : ListOptions) : Nat → UInt64 → Option (List ListEntry)
  | 0, _ => none
  | fuel + 1, sinceSeq =>
    match server (listRequest ns sinceSeq limit options) with
    | .error _ => some []
    | .ok payload =>
      match parseListResponse payload with
      | none => some []
      | some (entries, hasMore) =>
        match entries.getLast? with
        | none => some entries
        | some last =>
          if hasMore = 0 then some entries
          else (listPages server ns limit options fuel last.seqNum).map (entries ++ ·)

end Cli
