import Chromatin.Peer.Announce

/-!
# Announcements and peer lists survive while their counts fit into 16 bits

* `exists_hexToNamespace` — every text of a validated configuration is a namespace
* `decode_encodeNamespaceList`, `decode_of_many` — an announcement is read back, or as the empty
  list
* `decodePeerList_eq_iff` — a peer list is read back unless it, or one of its addresses, is too long
* `announce_codecs_iff` — both
* `many_namespaces_announce_all` — a configuration whose announcement stands for all namespaces
-/

namespace Peer

open Infra Util Config

/-! ## Configured namespaces -/

/-- A text of digits is read. -/
theorem exists_fromHex : ∀ {text : Bytes}, text.length % 2 = 0 → (∀ c ∈ text, isHexDigit c = true) →
    ∃ bytes, fromHex text = some bytes
  | [], _, _ => ⟨[], rfl⟩
  | [_], heven, _ => absurd heven (by simp)
  | hi :: lo :: rest, heven, hdigits => by
    obtain ⟨h, hh⟩ := nibble_of_isHexDigit (hdigits hi (by simp))
    obtain ⟨l, hl⟩ := nibble_of_isHexDigit (hdigits lo (by simp))
    have hrest : rest.length % 2 = 0 := by
      simp only [List.length_cons] at heven
      omega
    obtain ⟨bytes, hbytes⟩ := exists_fromHex hrest fun c hc => hdigits c (by simp [hc])
    exact ⟨_, by rw [fromHex, hh, hl, hbytes]; rfl⟩

/-- No text of a validated configuration is lost. -/
theorem exists_hexToNamespace (c : SyncNamespaces) {text : Bytes} (htext : text ∈ c.texts) :
    ∃ ns, hexToNamespace text = some ns := by
  obtain ⟨hlength, hdigits⟩ := (validateAllowedKeys_eq_ok _).mp c.valid text htext
  obtain ⟨bytes, hbytes⟩ := exists_fromHex (by rw [hlength]) hdigits
  have hsize := length_of_fromHex hbytes
  rw [hexToNamespace, hbytes]
  show ∃ ns, readFixed 32 bytes 0 = some ns
  exact exists_readFixed (by omega)

namespace PeerManager

/-! ## Announcements -/

theorem length_encodeNamespaceList (l : List Hash32) :
    (encodeNamespaceList l).length = 2 + l.length * 32 := by
  rw [encodeNamespaceList, List.length_append, length_writeU16Be, length_encodeHashes]

/-- The size the decoder expects for a count does not overflow. -/
theorem decodeNamespaceList_encode (l : List Hash32) :
    decodeNamespaceList (encodeNamespaceList l) =
      if (encodeNamespaceList l).length ≠ 2 + (UInt16.ofNat l.length).toNat * 32 then []
      else (decodeHashes (encodeNamespaceList l) (UInt16.ofNat l.length).toNat 2).getD [] := by
  have hread : readU16Be (encodeNamespaceList l) 0 = some (UInt16.ofNat l.length) :=
    readU16Be_append [] _ _
  have hcount := (UInt16.ofNat l.length).toNat_lt
  rw [decodeNamespaceList, hread]
  simp only [checkedMul_of_lt (show (UInt16.ofNat l.length).toNat * 32 < 2 ^ 64 by omega),
    Option.bind_some,
    checkedAdd_of_lt (show 2 + (UInt16.ofNat l.length).toNat * 32 < 2 ^ 64 by omega)]

theorem decode_encodeNamespaceList {l : List Hash32} (h : l.length < 65536) :
    decodeNamespaceList (encodeNamespaceList l) = l := by
  have hcount : (UInt16.ofNat l.length).toNat = l.length := UInt16.toNat_ofNat_of_lt' h
  rw [decodeNamespaceList_encode, hcount, length_encodeNamespaceList, if_neg (not_not.mpr rfl)]
  simp [encodeNamespaceList]

/-- The count has lost its upper bits, and the size does not match it. -/
theorem decode_of_many {l : List Hash32} (h : 65536 ≤ l.length) :
    decodeNamespaceList (encodeNamespaceList l) = [] := by
  have hcount : (UInt16.ofNat l.length).toNat = l.length % 65536 := UInt16.toNat_ofNat'
  have hsize : (encodeNamespaceList l).length ≠ 2 + (UInt16.ofNat l.length).toNat * 32 := by
    rw [length_encodeNamespaceList, hcount]
    omega
  rw [decodeNamespaceList_encode, if_pos hsize]

/-- The announcement is read back as it is; in particular it does not become the one for all
namespaces. -/
structure Announced (l : List Hash32) : Prop where
  same : decodeNamespaceList (encodeNamespaceList l) = l
  restricted : l ≠ [] → decodeNamespaceList (encodeNamespaceList l) ≠ []

theorem announced_iff (l : List Hash32) : Announced l ↔ l.length < 65536 := by
  constructor
  · intro h
    by_contra hmany
    have hempty := decode_of_many (not_lt.mp hmany)
    have hnil : l = [] := h.same.symm.trans hempty
    exact hmany (by rw [hnil]; decide)
  · intro h
    exact ⟨decode_encodeNamespaceList h, fun hne => by rwa [decode_encodeNamespaceList h]⟩

/-! ## Peer lists -/

theorem length_decodeAddresses_le (payload : Bytes) : ∀ rounds offset,
    (decodeAddresses payload rounds offset).length ≤ rounds
  | 0, _ => Nat.zero_le _
  | rounds + 1, offset => by
    rw [decodeAddresses]
    split
    · exact Nat.zero_le _
    · simp only
      split_ifs with hcut
      · exact Nat.zero_le _
      · exact Nat.succ_le_succ (length_decodeAddresses_le payload rounds _)

/-- An address that is read has as many bytes as its length field can say. -/
theorem length_of_mem_decodeAddresses {payload addr : Bytes} : ∀ {rounds offset : Nat},
    addr ∈ decodeAddresses payload rounds offset → addr.length < 65536
  | 0, _, h => absurd h (by simp [decodeAddresses])
  | rounds + 1, offset, h => by
    rw [decodeAddresses] at h
    split at h
    · exact absurd h (by simp)
    · next len _ =>
      simp only at h
      split_ifs at h with hcut
      · exact absurd h (by simp)
      · rcases List.mem_cons.mp h with rfl | hrest
        · have hlen := len.toNat_lt
          rw [List.length_take]
          omega
        · exact length_of_mem_decodeAddresses hrest

theorem decodeAddresses_append : ∀ {addresses : List Bytes}, (∀ a ∈ addresses, a.length < 65536) →
    ∀ pre : Bytes,
    decodeAddresses (pre ++ addresses.flatMap encodeAddress) addresses.length pre.length = addresses
  | [], _, _ => rfl
  | addr :: rest, h, pre => by
    obtain ⟨haddr, hrest⟩ := List.forall_mem_cons.mp h
    have hlen : (UInt16.ofNat addr.length).toNat = addr.length := UInt16.toNat_ofNat_of_lt' haddr
    have hsplit : pre ++ (addr :: rest).flatMap encodeAddress =
        (pre ++ writeU16Be (UInt16.ofNat addr.length)) ++ (addr ++ rest.flatMap encodeAddress) := by
      simp [encodeAddress]
    have hread : readU16Be (pre ++ (addr :: rest).flatMap encodeAddress) pre.length =
        some (UInt16.ofNat addr.length) := by
      rw [hsplit, List.append_assoc]
      exact readU16Be_append pre _ _
    have hheader : (pre ++ writeU16Be (UInt16.ofNat addr.length)).length = pre.length + 2 := by simp
    have hdrop : (pre ++ (addr :: rest).flatMap encodeAddress).drop (pre.length + 2) =
        addr ++ rest.flatMap encodeAddress := by
      rw [hsplit]
      exact List.drop_left' hheader
    have hfits : ¬ pre.length + 2 +
        addr.length > (pre ++ (addr :: rest).flatMap encodeAddress).length := by
      rw [hsplit, List.length_append, hheader, List.length_append]
      omega
    -- the other addresses are read behind this one
    have ih := decodeAddresses_append hrest (pre ++ writeU16Be (UInt16.ofNat addr.length) ++ addr)
    rw [List.append_assoc _ addr, ← hsplit, List.length_append, hheader] at ih
    rw [List.length_cons, decodeAddresses, hread]
    simp only [hlen, if_neg hfits, hdrop, List.take_left, ih]

theorem decodePeerList_eq_iff (addresses : List Bytes) :
    decodePeerList (encodePeerList addresses) = addresses ↔
      addresses.length < 65536 ∧ ∀ a ∈ addresses, a.length < 65536 := by
  have hread : readU16Be (encodePeerList addresses) 0 = some (UInt16.ofNat addresses.length) :=
    readU16Be_append [] _ _
  have hdecode : decodePeerList (encodePeerList addresses) =
      decodeAddresses (encodePeerList addresses) (UInt16.ofNat addresses.length).toNat 2 := by
    rw [decodePeerList, hread]
  rw [hdecode]
  constructor
  · intro h
    constructor
    · have hle :=
        length_decodeAddresses_le (encodePeerList addresses) (UInt16.ofNat addresses.length).toNat 2
      rw [h] at hle
      exact lt_of_le_of_lt hle (UInt16.ofNat addresses.length).toNat_lt
    · intro a ha
      rw [← h] at ha
      exact length_of_mem_decodeAddresses ha
  · rintro ⟨hcount, haddresses⟩
    have happend := decodeAddresses_append haddresses (writeU16Be (UInt16.ofNat addresses.length))
    rw [length_writeU16Be] at happend
    rw [UInt16.toNat_ofNat_of_lt' hcount]
    exact happend

/-- **The announcement of a configuration is read back exactly if it has less than 65536 namespaces,
and a peer list exactly if it has less than 65536 addresses of less than 65536 bytes each.** -/
theorem announce_codecs_iff (c : SyncNamespaces) (addresses : List Bytes) :
    (Announced c.namespaces ↔ c.namespaces.length < 65536) ∧
    (decodePeerList (encodePeerList addresses) = addresses ↔
      addresses.length < 65536 ∧ ∀ a ∈ addresses, a.length < 65536) :=
  ⟨announced_iff c.namespaces, decodePeerList_eq_iff addresses⟩

/-! ## A long configuration -/

/-- The namespace of a number. -/
def numberedNamespace (i : Nat) : Hash32 := ⟨toBigEndian 32 i, length_toBigEndian 32 i⟩

theorem numberedNamespace_inj {i j : Nat} (hi : i < 256 ^ 32) (hj : j < 256 ^ 32)
    (h : numberedNamespace i = numberedNamespace j) : i = j := by
  have hbytes : toBigEndian 32 i = toBigEndian 32 j := congrArg List.Vector.toList h
  rw [← ofBigEndian_toBigEndian hi, hbytes, ofBigEndian_toBigEndian hj]

theorem isHexDigit_hexChar : ∀ n < 16, isHexDigit (hexChar n) = true := by decide

theorem isHexDigit_of_mem_toHex {bytes : Bytes} {c : UInt8} (h : c ∈ toHex bytes) :
    isHexDigit c = true := by
  obtain ⟨b, -, hc⟩ := List.mem_flatMap.mp h
  have hb : b.toNat < 256 := b.toNat_lt
  rcases List.mem_cons.mp hc with rfl | hc
  · exact isHexDigit_hexChar _ (by omega)
  · rw [List.mem_singleton.mp hc]
    exact isHexDigit_hexChar _ (by omega)

/-- The configuration with the namespaces of the numbers below `n`. -/
def numbered (n : Nat) : SyncNamespaces where
  texts := (List.range n).map fun i => toHex (numberedNamespace i).toList
  valid := by
    refine (validateAllowedKeys_eq_ok _).mpr fun key hkey => ?_
    obtain ⟨i, -, rfl⟩ := List.mem_map.mp hkey
    exact ⟨by rw [length_toHex, List.Vector.toList_length], fun c hc => isHexDigit_of_mem_toHex hc⟩

theorem length_namespaces_numbered {n : Nat} (h : n ≤ 256 ^ 32) :
    (numbered n).namespaces.length = n := by
  have hread (ns : Hash32) : hexToNamespace (toHex ns.toList) = some ns := by
    rw [hexToNamespace, fromHex_toHex, Option.bind_some, readFixed_toList]
  have hall : (numbered n).texts.filterMap hexToNamespace =
      (List.range n).map numberedNamespace := by
    show ((List.range n).map fun i =>
      toHex (numberedNamespace i).toList).filterMap hexToNamespace = _
    rw [List.filterMap_map, ← List.filterMap_eq_map]
    refine List.filterMap_congr fun i _ => ?_
    exact hread (numberedNamespace i)
  have hnodup : ((List.range n).map numberedNamespace).Nodup := by
    refine List.Nodup.map_on (fun i hi j hj hij => ?_) List.nodup_range
    rw [List.mem_range] at hi hj
    exact numberedNamespace_inj (by omega) (by omega) hij
  rw [SyncNamespaces.namespaces, hall, elements, hnodup.dedup, List.length_insertionSort,
    List.length_map, List.length_range]

/-- **A node that replicates 65536 namespaces announces that it replicates all of them.** -/
theorem many_namespaces_announce_all :
    (numbered 65536).namespaces.length = 65536 ∧
    decodeNamespaceList (encodeNamespaceList (numbered 65536).namespaces) = [] ∧
    ∀ (env : SyncEnv) (ns : Hash32),
      { env with announcedNamespaces :=
          announcedNamespaces (encodeNamespaceList (numbered 65536).namespaces)
          }.peerSyncs ns = true := by
  have hlength : (numbered 65536).namespaces.length = 65536 :=
    length_namespaces_numbered (by decide)
  have hempty := decode_of_many hlength.ge
  refine ⟨hlength, hempty, fun env ns => ?_⟩
  rw [SyncEnv.peerSyncs]
  simp only [announcedNamespaces, hempty]
  rfl

end PeerManager

end Peer
