import Chromatin.Config.Validate
import Chromatin.Peer.SyncOrchestrator

/-!
# Announced namespaces and peer lists (`peer/peer_manager.cpp`, `peer/message_dispatcher.cpp`)

A node reads the namespaces it replicates from its configuration and announces them to every peer,
which keeps them as a set; the empty set stands for all namespaces. Addresses of other peers are
exchanged in peer lists. The count of either list, and the length of an address, are cast to
`uint16_t` when they are written. -/

namespace Peer

open Infra Util

/-- The elements of a `std::set`, in the order of its iterators. -/
def elements (inserted : List Hash32) : List Hash32 := inserted.dedup.insertionSort (· ≤ ·)

/-- `hex_to_namespace`: on a text that has been validated `std::stoul` reads two digits. -/
def hexToNamespace (hex : Bytes) : Option Hash32 :=
  (fromHex hex).bind fun bytes => readFixed 32 bytes 0

/-- `sync_namespaces` of a configuration that has been loaded. -/
structure SyncNamespaces where
  texts : List Bytes
  valid : Config.validateAllowedKeys texts = .ok ()

/-- `sync_namespaces_`. -/
def SyncNamespaces.namespaces (c : SyncNamespaces) : List Hash32 :=
  elements (c.texts.filterMap hexToNamespace)

namespace PeerManager

/-! ## Namespaces -/

def encodeNamespaceList (namespaces : List Hash32) : Bytes :=
  writeU16Be (UInt16.ofNat namespaces.length) ++ encodeHashes namespaces

/-- Empty for a payload that is malformed. -/
def decodeNamespaceList (payload : Bytes) : List Hash32 :=
  match readU16Be payload 0 with
  | none => []
  | some count =>
    match (checkedMul count.toNat 32).bind (checkedAdd 2) with
    | none => []
    | some expected => if payload.length ≠ expected then []
        else (decodeHashes payload count.toNat 2).getD []

/-- What the peer keeps of an announcement. -/
def announcedNamespaces (payload : Bytes) : List Hash32 := elements (decodeNamespaceList payload)

/-! ## Addresses -/

def encodeAddress (addr : Bytes) : Bytes := writeU16Be (UInt16.ofNat addr.length) ++ addr

def encodePeerList (addresses : List Bytes) : Bytes :=
  writeU16Be (UInt16.ofNat addresses.length) ++ addresses.flatMap encodeAddress

/-- The loop of `decode_peer_list` with so many rounds left; it stops at the first entry that is cut
off. -/
def decodeAddresses (payload : Bytes) : Nat → Nat → List Bytes
  | 0, _ => []
  | rounds + 1, offset =>
    match readU16Be payload offset with
    | none => []
    | some len =>
      let offset := offset + 2
      if offset + len.toNat > payload.length then []
      else (payload.drop offset).take len.toNat :: decodeAddresses payload rounds
        (offset + len.toNat)

def decodePeerList (payload : Bytes) : List Bytes :=
  match readU16Be payload 0 with
  | none => []
  | some count => decodeAddresses payload count.toNat 2

end PeerManager

end Peer
