import Chromatin.Cli.Listing
import Chromatin.Cli.Chunked
import Chromatin.Infra.TreeMap
import Chromatin.Util.Hex
import Mathlib.Data.Finset.Basic

/-!
# Contacts (`cli/src/contacts.cpp`, `cli/src/commands.cpp`)

The contact database has the tables `contacts`, `groups` and `group_members`; a row of the last one
refers to the other two with `ON DELETE CASCADE`, and foreign keys are enforced. So the references
are part of what a database is (`ContactDB`), and a deletion takes the rows that refer to the
deleted one with it.

A statement that violates a constraint changes nothing. A text is the byte string of its characters.
The commands that delete rows, the migrations of older databases and statements that fail for
another reason are left out. -/

namespace Cli

open Infra Util Wire Net Peer

/-- A row of `contacts` without its key. -/
structure ContactRow where
  namespaceHex : Bytes
  signingPk : Bytes
  kemPk : Bytes

structure Contact extends ContactRow where
  name : Bytes

structure ContactDB where
  contacts : Table Bytes ContactRow := ∅
  groups : Finset Bytes := ∅
  /-- `(group_name, contact_name)` -/
  members : Finset (Bytes × Bytes) := ∅
  /-- `group_name REFERENCES groups(name)` -/
  groupExists : ∀ m ∈ members, m.1 ∈ groups
  /-- `contact_name REFERENCES contacts(name)` -/
  contactExists : ∀ m ∈ members, m.2 ∈ contacts

/-- A key as it is passed, a `std::vector`; `hasStorage` is only read when it is empty. -/
structure KeyVector where
  bytes : Bytes
  hasStorage : Bool := true

/-- `data()` is a null pointer. -/
def KeyVector.IsNull (key : KeyVector) : Prop := key.bytes = [] ∧ key.hasStorage = false

instance (key : KeyVector) : Decidable key.IsNull := inferInstanceAs (Decidable (_ ∧ _))

/-- The exceptions of the group commands. -/
inductive ContactError
  | groupAlreadyExists (group : Bytes)
  | contactNotFound (contact : Bytes)
  | failedToAdd (contact group : Bytes)

namespace ContactDB

/-- The database that the migrations create. -/
def created : ContactDB where
  groupExists := by simp
  contactExists := by simp

variable (db : ContactDB)

/-! ## What a statement does to the tables -/

/-- A row of `contacts` is deleted, and with it the rows of `group_members` that refer to it. -/
def deleteContact (name : Bytes) : ContactDB where
  contacts := db.contacts.erase name
  groups := db.groups
  members := db.members.filter fun m => m.2 ≠ name
  groupExists m hm := db.groupExists m (Finset.mem_filter.mp hm).1
  contactExists m hm := by
    obtain ⟨hmem, hne⟩ := Finset.mem_filter.mp hm
    rw [Std.ExtTreeMap.mem_erase]
    exact ⟨fun heq => hne (compare_eq_iff_eq.mp heq).symm, db.contactExists m hmem⟩

def insertContact (name : Bytes) (row : ContactRow) : ContactDB where
  contacts := db.contacts.insert name row
  groups := db.groups
  members := db.members
  groupExists := db.groupExists
  contactExists m hm := Std.ExtTreeMap.mem_insert.mpr (.inr (db.contactExists m hm))

/-- `INSERT OR REPLACE`: the row with the same key is deleted first. -/
def replaceContact (name : Bytes) (row : ContactRow) : ContactDB :=
  if name ∈ db.contacts then (db.deleteContact name).insertContact name row
  else db.insertContact name row

def insertGroup (group : Bytes) : ContactDB where
  contacts := db.contacts
  groups := insert group db.groups
  members := db.members
  groupExists m hm := Finset.mem_insert_of_mem (db.groupExists m hm)
  contactExists := db.contactExists

/-- The row is inserted if it is new; `none` if it refers to nothing. -/
def insertMember (group contact : Bytes) : Option ContactDB :=
  if h : group ∈ db.groups ∧ contact ∈ db.contacts then
    some
      { contacts := db.contacts
        groups := db.groups
        members := insert (group, contact) db.members
        groupExists := fun m hm => by
          rcases Finset.mem_insert.mp hm with rfl | hm
          · exact h.1
          · exact db.groupExists m hm
        contactExists := fun m hm => by
          rcases Finset.mem_insert.mp hm with rfl | hm
          · exact h.2
          · exact db.contactExists m hm }
  else none

/-! ## The methods -/

/-- Without a data pointer `sqlite3_bind_blob` binds NULL. -/
def bindBlob (key : KeyVector) : Option Bytes := if key.IsNull then none else some key.bytes

/-- Both keys are `NOT NULL`; the result of the statement is not looked at. -/
def add (sha3_256 : Bytes → Hash32) (name : Bytes) (signingPk kemPk : KeyVector) : ContactDB :=
  let namespaceHex := toHex (sha3_256 signingPk.bytes).toList
  match bindBlob signingPk, bindBlob kemPk with
  | some signingPk, some kemPk => db.replaceContact name { namespaceHex, signingPk, kemPk }
  | _, _ => db

def get (name : Bytes) : Option Contact := db.contacts[name]?.map fun row => { row with name }

/-- `ORDER BY name`. -/
def list : List Contact := db.contacts.toList.map fun (name, row) => { row with name }

def groupCreate (group : Bytes) : Except ContactError ContactDB :=
  if group ∈ db.groups then .error (.groupAlreadyExists group) else .ok (db.insertGroup group)

/-- `INSERT OR IGNORE` ignores a row that is there, not one that refers to no group. -/
def groupAddMember (group contact : Bytes) : Except ContactError ContactDB :=
  match db.get contact with
  | none => .error (.contactNotFound contact)
  | some _ =>
    match db.insertMember group contact with
    | none => .error (.failedToAdd contact group)
    | some db => .ok db

/-- The join of `contacts` and `group_members`, `ORDER BY c.name`. -/
def groupMembers (group : Bytes) : List Contact :=
  db.list.filter fun c => (group, c.name) ∈ db.members

end ContactDB

/-! ## `contact add` -/

def MsgType.ListResponse : UInt8 := 34

/-- The node at the other end of the connection: its reply to a request, if one is received, and
whether the requests can be sent. The reply need not have anything to do with the request. -/
structure PubkeyNode where
  sendsList : Bool := true
  list : Bytes → Option Message
  sendsRead : Bool := true
  read : Bytes → Option Message

/-- `[namespace:32][hash:32]`. -/
def readRequest (ns hash : Hash32) : Bytes := ns.toList ++ hash.toList

def pubkeyType : FixedBytes 4 := ⟨PUBKEY_MAGIC, rfl⟩

/-- The hash of the first entry of the list the node returns. -/
def firstListed (node : PubkeyNode) (ns : Hash32) : Option Hash32 := do
  guard (node.sendsList = true)
  let resp ← node.list (listRequest ns 0 100 { typeFilter := some pubkeyType })
  guard (resp.type = MsgType.ListResponse ∧ 5 ≤ resp.payload.length)
  let count ← readU32Be resp.payload 0
  guard (count ≠ 0)
  guard (4 + count.toNat * LIST_ENTRY_SIZE + 1 ≤ resp.payload.length)
  readFixed 32 resp.payload 4

/-- The request ids of the replies are not looked at. -/
def findPubkeyBlob (T : Toolkit) (node : PubkeyNode) (ns : Hash32) : Option BlobData := do
  let hash ← firstListed node ns
  guard (node.sendsRead = true)
  let resp ← node.read (readRequest ns hash)
  guard (resp.type = MsgType.ReadResponse ∧ resp.payload.head? = some 0x01)
  let blob ← decodeBlob T resp.payload.tail
  guard (isPubkeyBlob blob.data = true)
  some blob

inductive AddOutcome
  /-- the text is not hexadecimal, and `from_hex` has nothing to dereference -/
  | undefined
  | failed
  | added (db : ContactDB)

/-- `connected` is the result of `connect`. -/
def contactAdd (T : Toolkit) (connected : Bool) (node : PubkeyNode) (db : ContactDB)
    (name namespaceHex : Bytes) : AddOutcome :=
  match fromHex namespaceHex with
  | none => .undefined
  | some targetNs =>
    if h : targetNs.length = 32 then
      if connected then
        match findPubkeyBlob T node ⟨targetNs, h⟩ with
        | none => .failed
        | some blob =>
          let signingPk := (blob.data.drop 4).take 2592
          let kemPk := blob.data.drop (4 + 2592)
          .added (db.add T.sha3_256 name { bytes := signingPk } { bytes := kemPk })
      else .failed
    else .failed

end Cli
