import Chromatin.Cli.Contacts
import Chromatin.Cli.Sample

/-!
# What becomes of a contact

`ContactDB::add` on a name that exists deletes the row before it inserts the new one, and the
deletion takes the contact out of its groups. `contact add` stores the keys that the node returns:
they come from one PUBK body, but nothing relates the signing key to the namespace that was asked
for.

* `update_contact_iff` — a contact that is added again keeps its groups only if it is in none
* `contact_keys_iff` — the key that is stored has the namespace if the node returns such a key
-/

namespace Cli

open Infra Util Wire Net Peer

namespace ContactDB

section Update

variable {db : ContactDB} {name : Bytes} {row : ContactRow}

/-- The names in a member list, in order. -/
theorem names_groupMembers (db : ContactDB) (group : Bytes) :
    (db.groupMembers group).map Contact.name =
      db.contacts.keys.filter fun name => (group, name) ∈ db.members := by
  rw [groupMembers, list, List.filter_map, List.map_map, ← Std.ExtTreeMap.map_fst_toList_eq_keys,
    List.filter_map]
  rfl

theorem mem_names_groupMembers {group : Bytes} :
    name ∈ (db.groupMembers group).map Contact.name ↔ (group, name) ∈ db.members := by
  rw [names_groupMembers, List.mem_filter, decide_eq_true_iff, Std.ExtTreeMap.mem_keys]
  exact ⟨And.right, fun hmem => ⟨db.contactExists _ hmem, hmem⟩⟩

/-! ## A row is replaced -/

theorem getElem?_replaceContact (db : ContactDB) (name : Bytes) (row : ContactRow) (other : Bytes) :
    (db.replaceContact name row).contacts[other]? =
        if name = other then some row else db.contacts[other]? := by
  unfold replaceContact
  split_ifs with hold hname hname
  · simp [insertContact, hname]
  · simp [insertContact, deleteContact, getElem?_insert_eq, getElem?_erase_eq, hname]
  · simp [insertContact, hname]
  · simp [insertContact, getElem?_insert_eq, hname]

theorem groups_replaceContact (db : ContactDB) (name : Bytes) (row : ContactRow) :
    (db.replaceContact name row).groups = db.groups := by
  unfold replaceContact
  split_ifs <;> rfl

/-- The row that was there is gone from all groups. -/
theorem members_replaceContact (hname : name ∈ db.contacts) (row : ContactRow) :
    (db.replaceContact name row).members = db.members.filter fun m => m.2 ≠ name := by
  rw [replaceContact, if_pos hname]
  rfl

theorem keys_replaceContact (hname : name ∈ db.contacts) (row : ContactRow) :
    (db.replaceContact name row).contacts.keys = db.contacts.keys := by
  refine keys_eq_of_mem_iff fun other => ?_
  rw [Std.ExtTreeMap.mem_iff_isSome_getElem?, Std.ExtTreeMap.mem_iff_isSome_getElem?,
    getElem?_replaceContact]
  split_ifs with heq
  · subst heq
    exact iff_of_true rfl (Std.ExtTreeMap.mem_iff_isSome_getElem?.mp hname)
  · exact Iff.rfl

variable {signingPk kemPk : KeyVector}

theorem add_of_not_null (hsigning : ¬ signingPk.IsNull) (hkem : ¬ kemPk.IsNull)
    (sha3_256 : Bytes → Hash32) : db.add sha3_256 name signingPk kemPk = db.replaceContact name
      ⟨toHex (sha3_256 signingPk.bytes).toList, signingPk.bytes, kemPk.bytes⟩ := by
  simp [add, bindBlob, hsigning, hkem]

/-- Without a key nothing is stored. -/
theorem add_of_null (h : signingPk.IsNull ∨ kemPk.IsNull) (sha3_256 : Bytes → Hash32) :
    db.add sha3_256 name signingPk kemPk = db := by
  rcases h with hsigning | hkem
  · simp [add, bindBlob, hsigning]
  · by_cases hsigning : signingPk.IsNull <;> simp [add, bindBlob, hsigning, hkem]

/-! ## Groups -/

/-- At most the row of the contact differs: the other contacts, the groups and the names in every
member list are the same. -/
structure OnlyContact (db db' : ContactDB) (name : Bytes) : Prop where
  contacts : ∀ other, other ≠ name → db'.contacts[other]? = db.contacts[other]?
  groups : db'.groups = db.groups
  members : ∀ group, (db'.groupMembers group).map Contact.name =
    (db.groupMembers group).map Contact.name

theorem onlyContact_replaceContact_iff (hname : name ∈ db.contacts) (row : ContactRow) :
    OnlyContact db (db.replaceContact name row) name ↔ ∀ group, (group, name) ∉ db.members := by
  constructor
  · intro h group hmem
    -- the contact is a member before, and the deletion has removed the membership
    have hbefore : name ∈ (db.groupMembers group).map Contact.name :=
      mem_names_groupMembers.mpr hmem
    rw [← h.members group, mem_names_groupMembers, members_replaceContact hname] at hbefore
    exact (Finset.mem_filter.mp hbefore).2 rfl
  · intro hnone
    have hmembers : (db.replaceContact name row).members = db.members := by
      rw [members_replaceContact hname, Finset.filter_true_of_mem]
      rintro ⟨group, contact⟩ hmem rfl
      exact hnone group hmem
    refine ⟨fun other hne => ?_, groups_replaceContact db name row, fun group => ?_⟩
    · rw [getElem?_replaceContact, if_neg hne.symm]
    · rw [names_groupMembers, names_groupMembers, keys_replaceContact hname, hmembers]

theorem OnlyContact.refl (db : ContactDB) (name : Bytes) : OnlyContact db db name :=
  ⟨fun _ _ => rfl, rfl, fun _ => rfl⟩

/-- **A contact that is added again keeps its groups only if it is in none**, or if a key has no
data pointer and nothing is stored. -/
theorem update_contact_iff (hname : name ∈ db.contacts) (sha3_256 : Bytes → Hash32)
    (signingPk kemPk : KeyVector) :
    OnlyContact db (db.add sha3_256 name signingPk kemPk) name ↔
      (∀ group, (group, name) ∉ db.members) ∨ signingPk.IsNull ∨ kemPk.IsNull := by
  by_cases hnull : signingPk.IsNull ∨ kemPk.IsNull
  · rw [add_of_null hnull]
    exact iff_of_true (OnlyContact.refl db name) (.inr hnull)
  · obtain ⟨hsigning, hkem⟩ := not_or.mp hnull
    rw [add_of_not_null hsigning hkem, onlyContact_replaceContact_iff hname, or_iff_left hnull]

end Update

/-! ## A group of one contact -/

def addSample (db : ContactDB) (name : Bytes) (kemPk : Bytes) : ContactDB :=
  db.add Sample.toolkit.sha3_256 name { bytes := [1] } { bytes := kemPk }

/-- The contacts `a` and `b`, with `a` alone in the group `g`. -/
def sampleContacts : ContactDB :=
  ((((created.addSample [97] [2]).addSample [98] [2]).groupCreate [103]).bind
    (·.groupAddMember [103] [97])).toOption.getD created

/-- A contact that is in no group has a new key. -/
theorem update_contact_iff_sample :
    [98] ∈ sampleContacts.contacts ∧
      OnlyContact sampleContacts (sampleContacts.addSample [98] [3]) [98] := by
  refine ⟨by decide, (update_contact_iff (by decide) Sample.toolkit.sha3_256 _ _).mpr (.inl ?_)⟩
  have hmembers : sampleContacts.members = {([103], [97])} := by decide
  simp [hmembers]

/-- The new key of the contact empties its group. -/
theorem update_empties_group :
    [97] ∈ sampleContacts.contacts ∧
      (sampleContacts.groupMembers [103]).map Contact.name = [[97]] ∧
      ((sampleContacts.addSample [97] [3]).groupMembers [103]).map Contact.name = [] ∧
      ¬ OnlyContact sampleContacts (sampleContacts.addSample [97] [3]) [97] := by
  refine ⟨by decide, by decide, by decide, fun h => ?_⟩
  exact absurd (h.members [103]) (by decide)

end ContactDB

/-! ## The keys of a new contact -/

section Keys

variable {T : Toolkit} {node : PubkeyNode} {ns : Hash32} {body : Bytes}

/-- The node's replies lead to the data of a PUBK blob. -/
structure Serves (T : Toolkit) (node : PubkeyNode) (ns : Hash32) (body : Bytes) : Prop where
  pubk : isPubkeyBlob body = true
  replies : ∃ hash resp blob, firstListed node ns = some hash ∧ node.sendsRead = true ∧
    node.read (readRequest ns hash) = some resp ∧ resp.type = MsgType.ReadResponse ∧
    resp.payload.head? = some 0x01 ∧ decodeBlob T resp.payload.tail = some blob ∧ blob.data = body

theorem serves_iff : Serves T node ns body ↔
    ∃ blob, findPubkeyBlob T node ns = some blob ∧ blob.data = body := by
  constructor
  · rintro ⟨hpubk, hash, resp, blob, hhash, hsends, hresp, htype, hfound, hblob, rfl⟩
    refine ⟨blob, ?_, rfl⟩
    simp [findPubkeyBlob, hhash, hsends, hresp, htype, hfound, hblob, hpubk]
  · rintro ⟨blob, hfind, rfl⟩
    simp only [findPubkeyBlob, Option.bind_eq_bind, Option.bind_eq_some_iff, guard_eq_some] at hfind
    obtain ⟨hash, hhash, -, hsends, resp, hresp, -, ⟨htype, hfound⟩, found, hblob, -, hpubk,
      hsame⟩ := hfind
    obtain rfl := Option.some.inj hsame
    exact ⟨hpubk, hash, resp, found, hhash, hsends, hresp, htype, hfound, hblob, rfl⟩

/-- The signing key in the data of a PUBK blob. -/
def signingPart (body : Bytes) : Bytes := (body.drop 4).take 2592

def kemPart (body : Bytes) : Bytes := body.drop (4 + 2592)

theorem length_of_isPubkeyBlob (h : isPubkeyBlob body = true) : body.length = 4 + 2592 + 1568 := by
  simp only [isPubkeyBlob, Bool.and_eq_true, beq_iff_eq] at h
  exact h.1

/-- The magic and the two keys are all of it. -/
theorem parts_of_isPubkeyBlob (h : isPubkeyBlob body = true) :
    body = PUBKEY_MAGIC ++ (signingPart body ++ kemPart body) := by
  have hmagic := hasMagic_of_isPubkeyBlob h
  simp only [hasMagic, beq_iff_eq] at hmagic
  rw [← hmagic, signingPart, kemPart, ← List.drop_drop, List.take_append_drop,
    List.take_append_drop]

theorem parts_ne_nil (h : isPubkeyBlob body = true) :
    signingPart body ≠ [] ∧ kemPart body ≠ [] := by
  have hlength := length_of_isPubkeyBlob h
  constructor
  · apply List.ne_nil_of_length_pos
    rw [signingPart, List.length_take, List.length_drop]
    omega
  · apply List.ne_nil_of_length_pos
    rw [kemPart, List.length_drop]
    omega

/-- What `contact add` stores. -/
theorem contactAdd_eq_added {connected : Bool} {db db' : ContactDB} {name namespaceHex : Bytes}
    (hns : fromHex namespaceHex = some ns.toList) :
    contactAdd T connected node db name namespaceHex = .added db' ↔
      connected = true ∧ ∃ body, Serves T node ns body ∧
        db' = db.replaceContact name
          ⟨toHex (T.sha3_256 (signingPart body)).toList, signingPart body, kemPart body⟩ := by
  have hlength : ns.toList.length = 32 := ns.toList_length
  have harray : (⟨ns.toList, hlength⟩ : Hash32) = ns := rfl
  rw [contactAdd, hns]
  simp only [hlength, dite_true, harray]
  cases connected with
  | false => simp
  | true =>
    simp only [if_true, true_and, serves_iff]
    cases hfind : findPubkeyBlob T node ns with
    | none => simp
    | some blob =>
      have hpubk : isPubkeyBlob blob.data = true := (serves_iff.mpr ⟨blob, hfind, rfl⟩).pubk
      obtain ⟨hsigning, hkem⟩ := parts_ne_nil hpubk
      have hadd : db.add T.sha3_256 name { bytes := signingPart blob.data }
          { bytes := kemPart blob.data } = _ :=
        ContactDB.add_of_not_null (fun h => hsigning h.1) (fun h => hkem h.1) T.sha3_256
      simp only [signingPart, kemPart] at hadd ⊢
      simp only [hadd, AddOutcome.added.injEq, Option.some.injEq]
      constructor
      · rintro rfl
        exact ⟨blob.data, ⟨blob, rfl, rfl⟩, rfl⟩
      · rintro ⟨body, ⟨found, rfl, rfl⟩, rfl⟩
        rfl

/-- The contact under the name has a signing key with the namespace `ns`, and a KEM key from a PUBK
body with that signing key. -/
def Matches (ns : Hash32) (T : Toolkit) (node : PubkeyNode) (name : Bytes) (db : ContactDB) :
    Prop :=
  ∃ row, db.contacts[name]? = some row ∧ T.sha3_256 row.signingPk = ns ∧
    ∃ body, Serves T node ns body ∧ body = PUBKEY_MAGIC ++ (row.signingPk ++ row.kemPk)

/-- **The stored key has the namespace that was asked for exactly if the node returns such a key**:
whatever PUBK body the replies lead to is stored. The KEM key always comes from the same body. -/
theorem contact_keys_iff {namespaceHex : Bytes}
    (hns : fromHex namespaceHex = some ns.toList) (T : Toolkit)
    (connected : Bool) (node : PubkeyNode) (db : ContactDB) (name : Bytes) :
    (∀ db', contactAdd T connected node db name namespaceHex = .added db' →
      Matches ns T node name db') ↔
      (connected = true → ∀ body, Serves T node ns body → T.sha3_256 (signingPart body) = ns) := by
  simp only [contactAdd_eq_added hns]
  constructor
  · rintro h rfl body hserves
    obtain ⟨row, hrow, hhash, -⟩ := h _ ⟨rfl, body, hserves, rfl⟩
    rw [ContactDB.getElem?_replaceContact, if_pos rfl] at hrow
    obtain rfl := Option.some.inj hrow
    exact hhash
  · rintro h db' ⟨hconnected, body, hserves, rfl⟩
    refine ⟨_, by rw [ContactDB.getElem?_replaceContact, if_pos rfl], h hconnected body hserves,
      body, hserves, ?_⟩
    exact parts_of_isPubkeyBlob hserves.pubk

/-! ## A node that returns the key of another namespace -/

open Wire.Sample in
/-- Whatever it is asked, the node lists one blob and returns the public keys of `n`. -/
def samplePubkeyNode (n : UInt8) : PubkeyNode where
  list _ := some ⟨MsgType.ListResponse, writeU32Be 1 ++ List.replicate (LIST_ENTRY_SIZE + 1) 0, 1⟩
  read _ := some
    ⟨MsgType.ReadResponse,
      0x01 :: finishBlob
        { signerHint := some (owned n).toList,
          data := some (makePubkData (key n) (FixedBytes.fill 1568 n))
          ttl := 0, timestamp := 0, signature := some [] }, 2⟩

open Wire.Sample in
theorem serves_samplePubkeyNode (n : UInt8) (ns : Hash32) :
    Serves Sample.toolkit (samplePubkeyNode n) ns
    (makePubkData (key n) (FixedBytes.fill 1568 n)) where
  pubk := isPubkeyBlob_makePubkData _ _
  replies := by
    refine ⟨FixedBytes.fill 32 0, _,
      { signerHint := owned n, data := makePubkData (key n) (FixedBytes.fill 1568 n),
        signature := [] }, rfl, rfl, rfl, rfl, rfl, ?_, rfl⟩
    simp only [decodeBlob, Sample.toolkit, List.tail_cons, getBlob_finishBlob, Option.map_some]
    rfl

open Wire.Sample in
theorem sha3_256_signingPart (n : UInt8) :
    Sample.toolkit.sha3_256 (signingPart (makePubkData (key n) (FixedBytes.fill 1568 n))) =
        owned n := by
  have hmagic : PUBKEY_MAGIC.length = 4 := rfl
  have hpart : signingPart (makePubkData (key n) (FixedBytes.fill 1568 n)) = (key n).toList := by
    rw [signingPart, makePubkData, List.drop_left' hmagic, List.take_left' (key n).toList_length]
  rw [hpart]
  exact hash_key n

open Wire.Sample in
theorem contact_keys_iff_sample :
    (∀ db', contactAdd Sample.toolkit true (samplePubkeyNode 1) .created [97]
      (toHex (owned 1).toList) =
        .added db' → Matches (owned 1) Sample.toolkit (samplePubkeyNode 1) [97] db') ↔
      (true = true → ∀ body, Serves Sample.toolkit (samplePubkeyNode 1) (owned 1) body →
        Sample.toolkit.sha3_256 (signingPart body) = owned 1) :=
  contact_keys_iff (fromHex_toHex _) Sample.toolkit true (samplePubkeyNode 1) .created [97]

open Wire.Sample in
/-- The key of namespace 2 is stored for namespace 1. -/
theorem foreign_key_stored :
    ∃ db', contactAdd Sample.toolkit true (samplePubkeyNode 2) .created [97]
    (toHex (owned 1).toList) =
        .added db' ∧ ¬ Matches (owned 1) Sample.toolkit (samplePubkeyNode 2) [97] db' := by
  refine ⟨_, (contactAdd_eq_added (fromHex_toHex _)).mpr ⟨rfl, _,
    serves_samplePubkeyNode 2 (owned 1), rfl⟩, ?_⟩
  rintro ⟨row, hrow, hhash, -⟩
  rw [ContactDB.getElem?_replaceContact, if_pos rfl] at hrow
  obtain rfl := Option.some.inj hrow
  rw [sha3_256_signingPart] at hhash
  exact absurd hhash (by decide)

end Keys

end Cli
