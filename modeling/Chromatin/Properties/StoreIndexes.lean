import Chromatin.Properties.StoreRuns
import Mathlib.Data.Set.Function

/-!
# The delegation index and the expiry index

Both indexes have one entry for what several stored blobs may need: the delegation index one entry
per namespace and delegate, the expiry index one per time and blob hash.

* `delegation_index_iff` — the index is right until a delegation blob is deleted beside another one
  for the same key, or the delegation blob that the index names expires; and these are the only
  steps that make it wrong
* `expiry_scan_iff` — an expiry scan removes exactly the expired blobs until a blob with a time to
  live is stored in two namespaces at a time
-/

namespace Storage

open Infra Util Wire

variable {P : Primitives} {t : Tables} {ns ns' hash hash' : Hash32} {blob : BlobData} {time : Nat}
  {op : StoreOp} {entry : ExpiryEntry} {now : UInt64}

/-! ## The blobs in play -/

/-- The blobs an operation is given. -/
def StoreOp.blobs : StoreOp → List PrecomputedBlob
  | .storeBlob _ _ ns blob _ => [{ targetNamespace := ns, blob }]
  | .storeBlobsAtomic _ _ batch _ => batch
  | _ => []

theorem StoreOp.writes_subset (P : Primitives) (t : Tables) (op : StoreOp) :
    op.writes P t ⊆ op.blobs := by
  intro pb hpb
  obtain ⟨result, hresult, rfl⟩ := List.mem_map.mp hpb
  have hmem := (List.mem_filter.mp hresult).1
  cases op with
  | storeBlob usedBytes writeError ns blob limits =>
    rw [List.mem_singleton.mp hmem]
    exact List.mem_singleton.mpr rfl
  | storeBlobsAtomic usedBytes writeError batch limits => exact (List.of_mem_zip hmem).1
  | deleteBlobData ns hash => exact absurd hmem List.not_mem_nil
  | runExpiryScan now => exact absurd hmem List.not_mem_nil
  | reopen => exact absurd hmem List.not_mem_nil

/-- Every stored blob is one of those in play, under its own hash. -/
def Named (P : Primitives) (known : Set BlobData) (t : Tables) : Prop :=
  ∀ ns hash blob, t.getBlob ns hash = some blob → blob ∈ known ∧ contentHash P blob = hash

/-- Every expiry entry is that of a blob in play. -/
def Timed (P : Primitives) (known : Set BlobData) (t : Tables) : Prop :=
  ∀ time hash ns, get₂ t.expiry time hash = some ns → ∃ blob ∈ known, contentHash P blob = hash ∧
    blob.ttl > 0 ∧ (saturatingExpiry blob.timestamp blob.ttl).toNat = time

section Rows

variable {known : Set BlobData}

theorem named_empty : Named P known {} := fun _ _ _ h => absurd h (by simp)

theorem timed_empty : Timed P known {} := fun _ _ _ h => absurd h (by simp [get₂])

theorem Named.insertBlob (h : Named P known t) (hblob : blob ∈ known) :
    Named P known (t.insertBlob P ns blob) := by
  intro ns' hash' blob' hstored
  rw [getBlob_insertBlob] at hstored
  split_ifs at hstored with hkey
  · rw [← Option.some.inj hstored]
    exact ⟨hblob, hkey.2⟩
  · exact h ns' hash' blob' hstored

theorem Named.removeBlob (h : Named P known t) : Named P known (t.removeBlob P ns hash blob) := by
  intro ns' hash' blob' hstored
  rw [getBlob_removeBlob] at hstored
  split_ifs at hstored
  exact h ns' hash' blob' hstored

theorem Named.expireEntry (h : Named P known t) (entry : ExpiryEntry) :
    Named P known (expireEntry P t entry) := by
  intro ns' hash' blob' hstored
  rw [getBlob_expireEntry] at hstored
  split_ifs at hstored
  exact h ns' hash' blob' hstored

theorem expiry_insertBlob : get₂ (t.insertBlob P ns blob).expiry time hash =
    if blob.ttl > 0 ∧ (saturatingExpiry blob.timestamp blob.ttl).toNat = time ∧
    contentHash P blob = hash then
      some ns
    else get₂ t.expiry time hash := by
  unfold Tables.insertBlob
  by_cases httl : blob.ttl > 0
  · simp only [httl, if_true, true_and]
    exact get₂_insert₂ _ _ _ _ _ _
  · simp only [httl, if_false, false_and]

theorem expiry_removeBlob : get₂ (t.removeBlob P ns hash blob).expiry time hash' =
    if blob.ttl > 0 ∧ (saturatingExpiry blob.timestamp blob.ttl).toNat = time ∧
    hash = hash' then none
    else get₂ t.expiry time hash' := by
  unfold Tables.removeBlob
  by_cases httl : blob.ttl > 0
  · simp only [httl, if_true, true_and]
    exact get₂_erase₂ _ _ _ _ _
  · simp only [httl, if_false, false_and]

theorem expiry_expireEntry :
    get₂ (expireEntry P t entry).expiry time hash =
      if entry.time = time ∧ entry.hash = hash then none else get₂ t.expiry time hash := by
  unfold expireEntry
  cases t.getBlob entry.ns entry.hash with
  | none => exact get₂_erase₂ _ _ _ _ _
  | some blob => exact get₂_erase₂ _ _ _ _ _

theorem Timed.insertBlob (h : Timed P known t) (hblob : blob ∈ known) :
    Timed P known (t.insertBlob P ns blob) := by
  intro time hash' ns' hentry
  rw [expiry_insertBlob] at hentry
  split_ifs at hentry with hnew
  · exact ⟨blob, hblob, hnew.2.2, hnew.1, hnew.2.1⟩
  · exact h time hash' ns' hentry

theorem Timed.removeBlob (h : Timed P known t) : Timed P known (t.removeBlob P ns hash blob) := by
  intro time hash' ns' hentry
  rw [expiry_removeBlob] at hentry
  split_ifs at hentry
  exact h time hash' ns' hentry

theorem Timed.expireEntry (h : Timed P known t) (entry : ExpiryEntry) :
    Timed P known (expireEntry P t entry) := by
  intro time hash' ns' hentry
  rw [expiry_expireEntry] at hentry
  split_ifs at hentry
  exact h time hash' ns' hentry

end Rows

/-- **Rule for the rows.** What every row write, every deletion, every turn of the expiry scan and
every change of an aggregate keeps, an operation keeps. -/
theorem StoreOp.step_rule {motive : Tables → Prop} (h : motive t)
    (hquota : ∀ t quota, motive t → motive { t with quota })
    (hrow : ∀ t, ∀ pb ∈ op.blobs, motive t → motive (t.insertBlob P pb.targetNamespace pb.blob))
    (hremove : ∀ t ns hash blob, motive t → motive (t.removeBlob P ns hash blob))
    (hexpire : ∀ t entry, motive t → motive (expireEntry P t entry)) : motive (op.step P t) := by
  rcases op.step_cases (P := P) t with hstores | ⟨ns, hash, rfl⟩ | ⟨now, rfl⟩
  · obtain ⟨quota, htables⟩ := hstores.tables
    rw [htables]
    refine hquota _ quota (List.foldlRecOn _ _ h fun t' ht' pb hpb => ?_)
    exact hquota _ t'.quota (hrow t' pb (op.writes_subset P t hpb) ht')
  · rw [StoreOp.step, Storage.deleteBlobData]
    cases hblob : t.getBlob ns hash with
    | none => exact h
    | some blob => exact hremove t ns hash blob h
  · exact runExpiryScan_preserves now (fun t' entry ht' => hexpire t' entry ht') h

/-- The blobs that an operation is given are in play. -/
def Given (known : Set BlobData) (op : StoreOp) : Prop := ∀ pb ∈ op.blobs, pb.blob ∈ known

theorem named_step {known : Set BlobData} (h : Named P known t) (hgiven : Given known op) :
    Named P known (op.step P t) :=
  StoreOp.step_rule h (fun _ _ ht => ht) (fun _ pb hpb ht => ht.insertBlob (hgiven pb hpb))
    (fun _ _ _ _ ht => ht.removeBlob) fun _ entry ht => ht.expireEntry entry

theorem timed_step {known : Set BlobData} (h : Timed P known t) (hgiven : Given known op) :
    Timed P known (op.step P t) :=
  StoreOp.step_rule h (fun _ _ ht => ht) (fun _ pb hpb ht => ht.insertBlob (hgiven pb hpb))
    (fun _ _ _ _ ht => ht.removeBlob) fun _ entry ht => ht.expireEntry entry

/-! ## What an expiry scan removes -/

/-- The expiry index has an entry for the blob that is due. -/
def Tables.scheduled (t : Tables) (now : UInt64) (ns hash : Hash32) : Bool :=
  t.expiryEntries.any fun entry => entry.time ≤ now.toNat && entry.ns == ns && entry.hash == hash

theorem scheduled_iff : t.scheduled now ns hash = true ↔
    ∃ time, get₂ t.expiry time hash = some ns ∧ time ≤ now.toNat := by
  rw [Tables.scheduled, List.any_eq_true]
  constructor
  · rintro ⟨entry, hmem, hdue⟩
    simp only [Bool.and_eq_true, decide_eq_true_eq, beq_iff_eq] at hdue
    obtain ⟨⟨hle, rfl⟩, rfl⟩ := hdue
    exact ⟨entry.time, mem_expiryEntries.mp hmem, hle⟩
  · rintro ⟨time, hentry, hle⟩
    exact ⟨{ time, hash, ns }, mem_expiryEntries.mpr hentry, by simp [hle]⟩

theorem pairwise_expiryEntries (t : Tables) :
    t.expiryEntries.Pairwise fun a b => a.time ≤ b.time := by
  rw [Tables.expiryEntries, List.pairwise_flatMap]
  constructor
  · rintro ⟨time, row⟩ -
    refine List.pairwise_map.mpr (row.distinct_keys_toList.imp fun _ => Nat.le_refl _)
  · refine t.expiry.ordered_keys_toList.imp fun {a b} hlt x hx y hy => ?_
    obtain ⟨_, -, rfl⟩ := List.mem_map.mp hx
    obtain ⟨_, -, rfl⟩ := List.mem_map.mp hy
    exact le_of_lt (compare_lt_iff_lt.mp hlt)

/-- The entries are in the order of their times, so the scan stops at the first that is not due. -/
theorem mem_due :
    entry ∈ t.expiryEntries.takeWhile (fun entry => entry.time ≤ now.toNat) ↔
      get₂ t.expiry entry.time entry.hash = some entry.ns ∧ entry.time ≤ now.toNat := by
  rw [takeWhile_eq_filter ((pairwise_expiryEntries t).imp fun hle hb => ?_), List.mem_filter,
    mem_expiryEntries, decide_eq_true_iff]
  exact decide_eq_true (hle.trans (of_decide_eq_true hb))

/-- What a scan takes out of the tables is what its entries take out. -/
theorem foldl_expireEntry {β : Type} (read : Tables → Option β) (removes : ExpiryEntry → Bool)
    (h : ∀ t entry, read (expireEntry P t entry) = if removes entry then none else read t) :
    ∀ (due : List ExpiryEntry) (t : Tables),
      read (due.foldl (expireEntry P) t) = if due.any removes then none else read t
  | [], _ => rfl
  | entry :: rest, t => by
    rw [List.foldl_cons, foldl_expireEntry read removes h rest, h, List.any_cons]
    cases rest.any removes <;> cases removes entry <;> rfl

/-- The scan removes the blobs whose entries are due. -/
theorem getBlob_runExpiryScan (t : Tables) (now : UInt64) (ns hash : Hash32) :
    (runExpiryScan P t now).1.getBlob ns hash =
      if t.scheduled now ns hash then none else t.getBlob ns hash := by
  have hany : (t.expiryEntries.takeWhile fun entry => entry.time ≤ now.toNat).any
      (fun entry => entry.ns == ns && entry.hash == hash) = t.scheduled now ns hash := by
    rw [Bool.eq_iff_iff, List.any_eq_true, scheduled_iff]
    constructor
    · rintro ⟨entry, hmem, hkey⟩
      simp only [Bool.and_eq_true, beq_iff_eq] at hkey
      obtain ⟨rfl, rfl⟩ := hkey
      exact ⟨entry.time, mem_due.mp hmem⟩
    · rintro ⟨time, hentry, hle⟩
      exact ⟨{ time, hash, ns }, mem_due.mpr ⟨hentry, hle⟩, by simp⟩
  rw [← hany, runExpiryScan]
  exact foldl_expireEntry (·.getBlob ns hash) _ (fun t entry => by simp [getBlob_expireEntry]) _ _

/-- The scan removes the entries that are due. -/
theorem expiry_runExpiryScan (t : Tables) (now : UInt64) (time : Nat) (hash : Hash32) :
    get₂ (runExpiryScan P t now).1.expiry time hash =
      if time ≤ now.toNat then none else get₂ t.expiry time hash := by
  rw [runExpiryScan, foldl_expireEntry (fun t => get₂ t.expiry time hash)
    (fun entry => entry.time == time && entry.hash == hash)
    fun t entry => by simp [expiry_expireEntry]]
  by_cases hle : time ≤ now.toNat
  · rw [if_pos hle]
    cases hentry : get₂ t.expiry time hash with
    | none => split_ifs <;> rfl
    | some ns =>
      refine if_pos (List.any_eq_true.mpr ⟨{ time, hash, ns }, mem_due.mpr ⟨hentry, hle⟩, by simp⟩)
  · rw [if_neg hle, if_neg ?_]
    rw [List.any_eq_true]
    rintro ⟨entry, hmem, hkey⟩
    simp only [Bool.and_eq_true, beq_iff_eq] at hkey
    exact hle (hkey.1 ▸ (mem_due.mp hmem).2)

/-! ## The delegation index -/

/-- The blob stored under the hash delegates to the key. -/
def Delegates (t : Tables) (ns : Hash32) (pubkey : PubKey) (hash : Hash32) : Prop :=
  ∃ blob, t.getBlob ns hash = some blob ∧ isDelegation blob.data = true ∧
    extractDelegatePubkey blob.data = pubkey

/-- The hash under which a key is indexed. -/
def delegateHint (P : Primitives) (pubkey : PubKey) : Hash32 := P.sha3_256 pubkey.toList

/-- The entries of the index are those of the stored delegations. -/
structure DelegationExact (P : Primitives) (t : Tables) : Prop where
  entry : ∀ ns hint hash, t.delegation[makeBlobKey ns hint]? = some hash →
    ∃ pubkey, delegateHint P pubkey = hint ∧ Delegates t ns pubkey hash
  stored : ∀ ns pubkey hash, Delegates t ns pubkey hash →
    (t.delegation[makeBlobKey ns (delegateHint P pubkey)]?).isSome = true

theorem delegationExact_empty : DelegationExact P {} where
  entry ns hint hash h := absurd h (by simp)
  stored ns pubkey hash h := by
    obtain ⟨blob, hblob, -⟩ := h
    exact absurd hblob (by simp)

theorem delegation_insertBlob {hint : Hash32} :
    (t.insertBlob P ns blob).delegation[makeBlobKey ns' hint]? =
      if isDelegation blob.data = true ∧ ns = ns' ∧
          delegateHint P (extractDelegatePubkey blob.data) = hint then some (contentHash P blob)
      else t.delegation[makeBlobKey ns' hint]? := by
  unfold Tables.insertBlob
  by_cases hdelegation : isDelegation blob.data = true
  · simp only [hdelegation, if_true, true_and, getElem?_insert_eq, makeBlobKey_inj]
    rfl
  · simp only [hdelegation]
    rfl

theorem delegation_removeBlob {hint : Hash32} :
    (t.removeBlob P ns hash blob).delegation[makeBlobKey ns' hint]? =
      if isDelegation blob.data = true ∧ ns = ns' ∧
          delegateHint P (extractDelegatePubkey blob.data) = hint then none
      else t.delegation[makeBlobKey ns' hint]? := by
  unfold Tables.removeBlob
  by_cases hdelegation : isDelegation blob.data = true
  · simp only [hdelegation, if_true, true_and, getElem?_erase_eq, makeBlobKey_inj]
    rfl
  · simp only [hdelegation]
    rfl

theorem delegation_runExpiryScan (t : Tables) (now : UInt64) :
    (runExpiryScan P t now).1.delegation = t.delegation := by
  refine runExpiryScan_preserves (motive := fun t' => t'.delegation = t.delegation) now
    (fun t' entry h => ?_) rfl
  unfold expireEntry
  cases t'.getBlob entry.ns entry.hash with
  | none => exact h
  | some blob => exact h

/-- A stored blob keeps its row when another one, or the same one again, is written. -/
theorem getBlob_insertBlob_of_stored {stored : BlobData} (h : t.getBlob ns' hash = some stored)
    (hslot : ns = ns' → contentHash P blob = hash → stored = blob) :
    (t.insertBlob P ns blob).getBlob ns' hash = some stored := by
  rw [getBlob_insertBlob]
  split_ifs with hkey
  · rw [hslot hkey.1 hkey.2]
  · exact h

/-- A row write keeps the index right. -/
theorem DelegationExact.insertBlob (h : DelegationExact P t)
    (hslot : ∀ stored, t.getBlob ns (contentHash P blob) = some stored → stored = blob) :
    DelegationExact P (t.insertBlob P ns blob) where
  entry ns' hint hash hentry := by
    rw [delegation_insertBlob] at hentry
    split_ifs at hentry with hnew
    · obtain ⟨hdelegation, rfl, hhint⟩ := hnew
      obtain rfl := Option.some.inj hentry
      exact ⟨_, hhint, blob, by rw [getBlob_insertBlob, if_pos ⟨rfl, rfl⟩], hdelegation, rfl⟩
    · obtain ⟨pubkey, hhint, stored, hstored, hshape⟩ := h.entry ns' hint hash hentry
      refine ⟨pubkey, hhint, stored, getBlob_insertBlob_of_stored hstored ?_, hshape⟩
      rintro rfl rfl
      exact hslot stored hstored
  stored ns' pubkey hash hdelegates := by
    obtain ⟨stored, hstored, hdelegation, rfl⟩ := hdelegates
    rw [getBlob_insertBlob] at hstored
    rw [delegation_insertBlob]
    split_ifs at hstored with hkey
    · obtain rfl := Option.some.inj hstored
      rw [if_pos ⟨hdelegation, hkey.1, rfl⟩]
      rfl
    · split_ifs
      · rfl
      · exact h.stored ns' _ hash ⟨stored, hstored, hdelegation, rfl⟩

/-- No step that follows takes a delegation from the index that is needed, or leaves one that is
not: a deleted delegation blob is the only one for its key, and no delegation blob that the index
names expires. -/
def DelegationSafe (P : Primitives) (t : Tables) : StoreOp → Prop
  | .deleteBlobData ns hash => ∀ pubkey, Delegates t ns pubkey hash →
    ∀ hash', Delegates t ns pubkey hash' → hash' = hash
  | .runExpiryScan now => ∀ ns pubkey hash, Delegates t ns pubkey hash →
    t.delegation[makeBlobKey ns (delegateHint P pubkey)]? = some hash →
    t.scheduled now ns hash = false
  | _ => True

/-- The keys that are delegated to, and no two of them have the same hint. -/
structure Distinct (P : Primitives) (known : Set BlobData) (keys : Set PubKey) : Prop where
  hashes : Set.InjOn (contentHash P) known
  hints : Set.InjOn (delegateHint P) keys
  delegated : ∀ blob ∈ known, isDelegation blob.data = true → extractDelegatePubkey blob.data ∈ keys

section Delegations

variable {known : Set BlobData} {keys : Set PubKey} {pubkey : PubKey}

theorem delegates_removeBlob : Delegates (t.removeBlob P ns hash blob) ns' pubkey hash' ↔
    ¬ (ns = ns' ∧ hash = hash') ∧ Delegates t ns' pubkey hash' := by
  unfold Delegates
  rw [getBlob_removeBlob]
  split_ifs with hkey
  · simp [hkey]
  · simp [hkey]

theorem delegates_runExpiryScan :
    Delegates (runExpiryScan P t now).1 ns pubkey hash ↔
      t.scheduled now ns hash = false ∧ Delegates t ns pubkey hash := by
  unfold Delegates
  rw [getBlob_runExpiryScan]
  cases t.scheduled now ns hash <;> simp

variable (hdistinct : Distinct P known keys)

include hdistinct

/-- The rows of a batch keep the index right. -/
theorem DelegationExact.storeRows : ∀ (batch : List PrecomputedBlob) (t : Tables),
    (∀ pb ∈ batch, pb.blob ∈ known) → Named P known t → DelegationExact P t →
    DelegationExact P (storeRows P t batch)
  | [], _, _, _, h => h
  | pb :: rest, t, hgiven, hnamed, h => by
    have hblob := hgiven pb List.mem_cons_self
    have hrow : DelegationExact P (t.insertBlob P pb.targetNamespace pb.blob) := by
      refine h.insertBlob fun stored hstored => ?_
      obtain ⟨hknown, hhash⟩ := hnamed _ _ _ hstored
      exact hdistinct.hashes hknown hblob hhash
    refine DelegationExact.storeRows rest (storeRow P t pb)
      (fun pb' hpb' => hgiven pb' (List.mem_cons_of_mem _ hpb')) (hnamed.insertBlob hblob) ?_
    exact ⟨hrow.entry, hrow.stored⟩

variable (hnamed : Named P known t)

include hnamed

theorem Delegates.mem_keys (h : Delegates t ns pubkey hash) : pubkey ∈ keys := by
  obtain ⟨blob, hblob, hdelegation, rfl⟩ := h
  exact hdistinct.delegated blob (hnamed ns hash blob hblob).1 hdelegation

/-- Two delegation blobs with the same hint are for the same key. -/
theorem Delegates.eq_of_hint {pubkey' : PubKey} (h : Delegates t ns pubkey hash)
    (h' : Delegates t ns' pubkey' hash')
    (hhint : delegateHint P pubkey = delegateHint P pubkey') : pubkey = pubkey' :=
  hdistinct.hints (h.mem_keys hdistinct hnamed) (h'.mem_keys hdistinct hnamed) hhint

/-- A safe operation keeps the index right. -/
theorem DelegationExact.step (hgiven : Given known op) (h : DelegationExact P t)
    (hsafe : DelegationSafe P t op) : DelegationExact P (op.step P t) := by
  rcases op.step_cases (P := P) t with hstores | ⟨ns, hash, rfl⟩ | ⟨now, rfl⟩
  · obtain ⟨quota, htables⟩ := hstores.tables
    have hrows := h.storeRows hdistinct (op.writes P t) t
      (fun pb hpb => hgiven pb (op.writes_subset P t hpb)) hnamed
    rw [htables]
    exact ⟨hrows.entry, hrows.stored⟩
  · rw [StoreOp.step, deleteBlobData]
    cases hblob : t.getBlob ns hash with
    | none => exact h
    | some blob =>
      refine ⟨fun ns' hint hash' hentry => ?_, fun ns' pubkey hash' hdelegates => ?_⟩
      · dsimp only at hentry
        rw [delegation_removeBlob] at hentry
        split_ifs at hentry with hgone
        obtain ⟨pubkey, hhint, hdelegates⟩ := h.entry ns' hint hash' hentry
        refine ⟨pubkey, hhint, delegates_removeBlob.mpr ⟨?_, hdelegates⟩⟩
        -- an entry for the deleted blob would have been removed
        rintro ⟨rfl, rfl⟩
        obtain ⟨stored, hstored, hdelegation, rfl⟩ := hdelegates
        rw [hblob] at hstored
        obtain rfl := Option.some.inj hstored
        exact hgone ⟨hdelegation, rfl, hhint⟩
      · obtain ⟨hother, hdelegates⟩ := delegates_removeBlob.mp hdelegates
        dsimp only
        rw [delegation_removeBlob, if_neg ?_]
        · exact h.stored ns' pubkey hash' hdelegates
        · rintro ⟨hdelegation, rfl, hhint⟩
          have hdeleted : Delegates t ns (extractDelegatePubkey blob.data) hash :=
            ⟨blob, hblob, hdelegation, rfl⟩
          obtain rfl := hdeleted.eq_of_hint hdistinct hnamed hdelegates hhint
          exact hother ⟨rfl, (hsafe _ hdeleted hash' hdelegates).symm⟩
  · rw [StoreOp.step]
    refine ⟨fun ns hint hash hentry => ?_, fun ns pubkey hash hdelegates => ?_⟩
    · rw [delegation_runExpiryScan] at hentry
      obtain ⟨pubkey, rfl, hdelegates⟩ := h.entry ns hint hash hentry
      exact ⟨pubkey, rfl,
        delegates_runExpiryScan.mpr ⟨hsafe ns pubkey hash hdelegates hentry, hdelegates⟩⟩
    · rw [delegation_runExpiryScan]
      exact h.stored ns pubkey hash (delegates_runExpiryScan.mp hdelegates).2

/-- The index has an entry for a key exactly if a delegation to it is stored, the entry names such
a blob, and `list_delegations` lists exactly these keys. -/
structure DelegationsIndexed (P : Primitives) (keys : Set PubKey) (t : Tables) : Prop where
  present : ∀ ns, ∀ pubkey ∈ keys,
    (t.delegation[makeBlobKey ns (delegateHint P pubkey)]?).isSome = true ↔
      ∃ hash, Delegates t ns pubkey hash
  value : ∀ ns, ∀ pubkey ∈ keys, ∀ hash,
    t.delegation[makeBlobKey ns (delegateHint P pubkey)]? = some hash → Delegates t ns pubkey hash
  listed : ∀ ns hint, (∃ entry ∈ t.listDelegations ns, entry.delegatePkHash = hint) ↔
    ∃ pubkey ∈ keys, delegateHint P pubkey = hint ∧ ∃ hash, Delegates t ns pubkey hash

theorem DelegationExact.indexed (h : DelegationExact P t) : DelegationsIndexed P keys t := by
  have hvalue : ∀ ns, ∀ pubkey ∈ keys, ∀ hash,
      t.delegation[makeBlobKey ns (delegateHint P pubkey)]? = some hash →
          Delegates t ns pubkey hash := by
    intro ns pubkey hkey hash hentry
    obtain ⟨pubkey', hhint, hdelegates⟩ := h.entry ns _ hash hentry
    obtain rfl := hdistinct.hints (hdelegates.mem_keys hdistinct hnamed) hkey hhint
    exact hdelegates
  refine ⟨fun ns pubkey hkey => ⟨fun hsome => ?_, fun hstored => ?_⟩, hvalue,
    fun ns hint => ⟨?_, ?_⟩⟩
  · obtain ⟨hash, hentry⟩ := Option.isSome_iff_exists.mp hsome
    exact ⟨hash, hvalue ns pubkey hkey hash hentry⟩
  · obtain ⟨hash, hdelegates⟩ := hstored
    exact h.stored ns pubkey hash hdelegates
  · rintro ⟨entry, hentry, rfl⟩
    obtain ⟨pubkey, hhint, hdelegates⟩ := h.entry ns _ _ (mem_listDelegations.mp hentry)
    exact ⟨pubkey, hdelegates.mem_keys hdistinct hnamed, hhint, _, hdelegates⟩
  · rintro ⟨pubkey, -, rfl, hash, hdelegates⟩
    obtain ⟨hash', hentry⟩ := Option.isSome_iff_exists.mp (h.stored ns pubkey hash hdelegates)
    exact ⟨{ delegatePkHash := delegateHint P pubkey, delegationBlobHash := hash' },
      mem_listDelegations.mpr hentry, rfl⟩

/-- An operation that is not safe leaves the index wrong. -/
theorem DelegationsIndexed.safe (h : DelegationsIndexed P keys (op.step P t)) :
    DelegationSafe P t op := by
  cases op with
  | deleteBlobData ns hash =>
    intro pubkey hdelegates hash' hdelegates'
    have hkey := hdelegates.mem_keys hdistinct hnamed
    obtain ⟨blob, hblob, hdelegation, rfl⟩ := hdelegates
    by_contra hne
    have hstep : StoreOp.step P t (.deleteBlobData ns hash) = t.removeBlob P ns hash blob := by
      rw [StoreOp.step, Storage.deleteBlobData, hblob]
    have hkept :
      Delegates (t.removeBlob P ns hash blob) ns (extractDelegatePubkey blob.data) hash' :=
      delegates_removeBlob.mpr ⟨fun heq => hne heq.2.symm, hdelegates'⟩
    have hsome := (h.present ns _ hkey).mpr ⟨hash', hstep ▸ hkept⟩
    rw [hstep, delegation_removeBlob, if_pos ⟨hdelegation, rfl, rfl⟩] at hsome
    exact absurd hsome (by simp)
  | runExpiryScan now =>
    intro ns pubkey hash hdelegates hentry
    have hkept := h.value ns pubkey (hdelegates.mem_keys hdistinct hnamed) hash (by
      rw [StoreOp.step, delegation_runExpiryScan]
      exact hentry)
    exact (delegates_runExpiryScan.mp hkept).1
  | storeBlob usedBytes writeError ns blob limits => trivial
  | storeBlobsAtomic usedBytes writeError batch limits => trivial
  | reopen => trivial

end Delegations

/-- **The delegation index.** After every run of safe operations the index is right, and it stays
right after one more operation exactly if that one is safe. -/
theorem delegation_index_iff (P : Primitives) {known : Set BlobData} {keys : Set PubKey}
    (hdistinct : Distinct P known keys) (ops : List StoreOp) (op : StoreOp)
    (hgiven : ∀ op' ∈ op :: ops, Given known op')
    (hsafe : AllSteps (StoreOp.step P) (DelegationSafe P) {} ops) :
    let t := run (StoreOp.step P) {} ops
    DelegationsIndexed P keys t ∧
      (DelegationsIndexed P keys (op.step P t) ↔ DelegationSafe P t op) := by
  intro t
  have hinv : Named P known t ∧ DelegationExact P t := by
    have hall : AllSteps (StoreOp.step P) (fun t op => DelegationSafe P t op ∧
      Given known op) {} ops :=
      hsafe.imp fun _ op' hop' hsafe' => ⟨hsafe', hgiven op' (List.mem_cons_of_mem _ hop')⟩
    refine run_invariant (I := fun t => Named P known t ∧ DelegationExact P t) ?_
      ⟨named_empty, delegationExact_empty⟩ hall
    rintro t op ⟨hnamed, hexact⟩ ⟨hsafe, hgiven⟩
    exact ⟨named_step hnamed hgiven, hexact.step hdistinct hnamed hgiven hsafe⟩
  obtain ⟨hnamed, hexact⟩ := hinv
  have hop := hgiven op List.mem_cons_self
  refine ⟨hexact.indexed hdistinct hnamed, fun h => h.safe hdistinct hnamed, fun hsafe => ?_⟩
  exact (hexact.step hdistinct hnamed hop hsafe).indexed hdistinct (named_step hnamed hop)

section Sample

open Wire.Sample

set_option maxRecDepth 20000

/-- Two delegations for the same key. -/
def twoGrants : List StoreOp :=
  [.storeBlob 0 false (owned 1) (grant 3000000) {}, .storeBlob 0 false (owned 1) (grant 3000001) {}]

theorem isDelegation_grant (timestamp : UInt64) : isDelegation (grant timestamp).data = true ∧
    extractDelegatePubkey (grant timestamp).data = key 2 := by
  have hdata : (grant timestamp).data = makeDelegationData (key 2) := rfl
  rw [hdata]
  decide

theorem delegation_index_grants :
    let t := run (StoreOp.step primitives) {} twoGrants
    let revoke : StoreOp := .deleteBlobData (owned 1) (contentHash primitives (grant 3000000))
    DelegationsIndexed primitives {key 2} t ∧
      (DelegationsIndexed primitives {key 2} (revoke.step primitives t) ↔
        DelegationSafe primitives t revoke) := by
  have hdistinct : Distinct primitives (Set.range grant) {key 2} := by
    refine ⟨?_, Set.injOn_singleton _ _, ?_⟩
    · rintro _ ⟨timestamp, rfl⟩ _ ⟨timestamp', rfl⟩ heq
      exact congrArg grant (timestamp_eq_of_contentHash heq)
    · rintro _ ⟨timestamp, rfl⟩ -
      exact (isDelegation_grant timestamp).2
  refine delegation_index_iff primitives hdistinct twoGrants _ ?_ ⟨trivial, trivial, trivial⟩
  intro op hop pb hpb
  simp only [twoGrants, List.mem_cons, List.not_mem_nil, or_false] at hop
  rcases hop with rfl | rfl | rfl
  · exact absurd hpb List.not_mem_nil
  · rw [List.mem_singleton.mp hpb]
    exact ⟨_, rfl⟩
  · rw [List.mem_singleton.mp hpb]
    exact ⟨_, rfl⟩

/-- The older of two delegations is deleted: the other one is still stored, but not in the index. -/
theorem delegation_index_revoked :
    let t := run (StoreOp.step primitives) {}
      (twoGrants ++ [.deleteBlobData (owned 1) (contentHash primitives (grant 3000000))])
    Delegates t (owned 1) (key 2) (contentHash primitives (grant 3000001)) ∧
      t.delegation[makeBlobKey (owned 1) (delegateHint primitives (key 2))]? = none := by
  refine ⟨⟨grant 3000001, by decide, isDelegation_grant 3000001⟩, by decide⟩

end Sample

/-! ## The expiry index -/

/-- The blob has a time to live that has run out. -/
def due (now : UInt64) (blob : BlobData) : Bool :=
  blob.ttl > 0 && saturatingExpiry blob.timestamp blob.ttl ≤ now

/-- Whenever an expiry scan runs, it removes exactly the expired blobs. -/
def ScanExact (P : Primitives) (t : Tables) : Prop :=
  ∀ now ns hash, (runExpiryScan P t now).1.getBlob ns hash =
    (t.getBlob ns hash).filter fun blob => !due now blob

/-- Every stored blob with a time to live has its entry. -/
def Slotted (t : Tables) : Prop :=
  ∀ ns hash blob, t.getBlob ns hash = some blob → blob.ttl > 0 →
    get₂ t.expiry (saturatingExpiry blob.timestamp blob.ttl).toNat hash = some ns

/-- What the operation stores with a time to live is stored in no other namespace. -/
def Sole (P : Primitives) (t : Tables) (op : StoreOp) : Prop :=
  ∀ pb ∈ op.writes P t, pb.blob.ttl > 0 →
    (∀ ns, ns ≠ pb.targetNamespace → t.getBlob ns (contentHash P pb.blob) = none) ∧
    ∀ pb' ∈ op.writes P t, contentHash P pb'.blob = contentHash P pb.blob →
      pb'.targetNamespace = pb.targetNamespace

section Expiry

variable {known : Set BlobData} (hinj : Set.InjOn (contentHash P) known)

include hinj

/-- The entry of a blob is the only one with its hash. -/
theorem Timed.time_eq (h : Timed P known t) (hblob : blob ∈ known)
    (hentry : get₂ t.expiry time (contentHash P blob) = some ns) :
    blob.ttl > 0 ∧ (saturatingExpiry blob.timestamp blob.ttl).toNat = time := by
  obtain ⟨blob', hknown, hhash, httl, htime⟩ := h time _ ns hentry
  obtain rfl := hinj hknown hblob hhash
  exact ⟨httl, htime⟩

/-- The scan is exact if all entries are there. -/
theorem Slotted.scanExact (h : Slotted t) (hnamed : Named P known t) (htimed : Timed P known t) :
    ScanExact P t := by
  intro now ns hash
  rw [getBlob_runExpiryScan]
  cases hstored : t.getBlob ns hash with
  | none => split_ifs <;> rfl
  | some blob =>
    obtain ⟨hknown, rfl⟩ := hnamed ns hash blob hstored
    have hiff : t.scheduled now ns (contentHash P blob) = true ↔ due now blob = true := by
      rw [scheduled_iff, due, Bool.and_eq_true, decide_eq_true_iff, decide_eq_true_iff,
        UInt64.le_iff_toNat_le]
      constructor
      · rintro ⟨time, hentry, hle⟩
        obtain ⟨httl, htime⟩ := htimed.time_eq hinj hknown hentry
        exact ⟨httl, htime ▸ hle⟩
      · rintro ⟨httl, hle⟩
        exact ⟨_, h ns _ blob hstored httl, hle⟩
    cases hdue : due now blob with
    | true => rw [if_pos (hiff.mpr hdue), Option.filter, hdue]; rfl
    | false =>
      rw [if_neg fun hscheduled => by simp [hiff.mp hscheduled] at hdue, Option.filter, hdue]
      rfl

/-- A row write keeps the entries if the blob is stored in no other namespace. -/
theorem Slotted.insertBlob (h : Slotted t) (hnamed : Named P known t) (hblob : blob ∈ known)
    (hsole : blob.ttl > 0 → ∀ ns', ns' ≠ ns → t.getBlob ns' (contentHash P blob) = none) :
    Slotted (t.insertBlob P ns blob) := by
  intro ns' hash' stored hstored httl
  rw [getBlob_insertBlob] at hstored
  rw [expiry_insertBlob]
  split_ifs at hstored with hkey
  · obtain rfl := Option.some.inj hstored
    rw [if_pos ⟨httl, rfl, hkey.2⟩, hkey.1]
  · split_ifs with hslot
    · -- the entry is overwritten only by the same blob
      obtain ⟨hknown, hhash⟩ := hnamed ns' hash' stored hstored
      obtain rfl := hinj hknown hblob (hhash.trans hslot.2.2.symm)
      by_cases hns : ns' = ns
      · exact absurd ⟨hns.symm, hslot.2.2⟩ hkey
      · rw [← hslot.2.2, hsole hslot.1 ns' hns] at hstored
        exact absurd hstored (by simp)
    · exact h ns' hash' stored hstored httl

theorem Slotted.storeRows : ∀ (batch : List PrecomputedBlob) (t : Tables),
    (∀ pb ∈ batch, pb.blob ∈ known) → Named P known t → Slotted t →
    (∀ pb ∈ batch, pb.blob.ttl > 0 →
      (∀ ns, ns ≠ pb.targetNamespace → t.getBlob ns (contentHash P pb.blob) = none) ∧
      ∀ pb' ∈ batch, contentHash P pb'.blob = contentHash P pb.blob →
        pb'.targetNamespace = pb.targetNamespace) → Slotted (storeRows P t batch)
  | [], _, _, _, h, _ => h
  | pb :: rest, t, hgiven, hnamed, h, hsole => by
    have hblob := hgiven pb List.mem_cons_self
    have hrow : Slotted (storeRow P t pb) :=
      h.insertBlob hinj hnamed hblob fun httl => (hsole pb List.mem_cons_self httl).1
    refine Slotted.storeRows rest (storeRow P t pb)
      (fun pb' hpb' => hgiven pb' (List.mem_cons_of_mem _ hpb')) (hnamed.insertBlob hblob) hrow ?_
    intro pb' hpb' httl
    obtain ⟨habsent, hsame⟩ := hsole pb' (List.mem_cons_of_mem _ hpb') httl
    refine ⟨fun ns hns => ?_, fun pb'' hpb'' => hsame pb'' (List.mem_cons_of_mem _ hpb'')⟩
    change (t.insertBlob P pb.targetNamespace pb.blob).getBlob ns _ = none
    rw [getBlob_insertBlob, if_neg ?_]
    · exact habsent ns hns
    · rintro ⟨rfl, hhash⟩
      exact hns (hsame pb List.mem_cons_self hhash)

/-- An operation keeps the entries if what it stores is stored in no other namespace. -/
theorem Slotted.step (hnamed : Named P known t) (hgiven : Given known op) (h : Slotted t)
    (hsole : Sole P t op) : Slotted (op.step P t) := by
  rcases op.step_cases (P := P) t with hstores | ⟨ns, hash, rfl⟩ | ⟨now, rfl⟩
  · obtain ⟨quota, htables⟩ := hstores.tables
    rw [htables]
    exact h.storeRows hinj (op.writes P t) t (fun pb hpb =>
      hgiven pb (op.writes_subset P t hpb)) hnamed hsole
  · rw [StoreOp.step, Storage.deleteBlobData]
    cases hblob : t.getBlob ns hash with
    | none => exact h
    | some blob =>
      intro ns' hash' stored hstored httl
      dsimp only at hstored ⊢
      rw [getBlob_removeBlob] at hstored
      split_ifs at hstored with hkey
      have hentry := h ns' hash' stored hstored httl
      rw [expiry_removeBlob, if_neg ?_]
      · exact hentry
      · -- the entry that is removed is that of the deleted blob
        rintro ⟨httl', htime, rfl⟩
        have hentry' := h ns hash blob hblob httl'
        rw [htime, hentry] at hentry'
        exact hkey ⟨(Option.some.inj hentry').symm, rfl⟩
  · rw [StoreOp.step]
    intro ns hash stored hstored httl
    rw [getBlob_runExpiryScan] at hstored
    split_ifs at hstored with hscheduled
    have hentry := h ns hash stored hstored httl
    rw [expiry_runExpiryScan, if_neg ?_]
    · exact hentry
    · intro hle
      exact hscheduled (scheduled_iff.mpr ⟨_, hentry, hle⟩)

/-- A stored row stays when others are written. -/
theorem getBlob_storeRows_of_stored : ∀ (batch : List PrecomputedBlob) (t : Tables),
    (∀ pb ∈ batch, pb.blob ∈ known) → blob ∈ known →
    t.getBlob ns (contentHash P blob) = some blob →
    (storeRows P t batch).getBlob ns (contentHash P blob) = some blob
  | [], _, _, _, h => h
  | pb :: rest, t, hgiven, hblob, h => by
    refine getBlob_storeRows_of_stored rest (storeRow P t pb)
      (fun pb' hpb' => hgiven pb' (List.mem_cons_of_mem _ hpb')) hblob ?_
    exact getBlob_insertBlob_of_stored h fun _ hhash =>
      (hinj (hgiven pb List.mem_cons_self) hblob hhash).symm

/-- Every written row is there in the end. -/
theorem getBlob_storeRows : ∀ (batch : List PrecomputedBlob) (t : Tables),
    (∀ pb ∈ batch, pb.blob ∈ known) → ∀ pb ∈ batch,
    (storeRows P t batch).getBlob pb.targetNamespace (contentHash P pb.blob) = some pb.blob
  | first :: rest, t, hgiven, pb, hpb => by
    have hrest : ∀ pb' ∈ rest, pb'.blob ∈ known :=
      fun pb' hpb' => hgiven pb' (List.mem_cons_of_mem _ hpb')
    rcases List.mem_cons.mp hpb with rfl | hpb
    · refine getBlob_storeRows_of_stored hinj rest (storeRow P t pb) hrest
        (hgiven pb List.mem_cons_self) ?_
      change (t.insertBlob P pb.targetNamespace pb.blob).getBlob _ _ = _
      rw [getBlob_insertBlob, if_pos ⟨rfl, rfl⟩]
    · exact getBlob_storeRows rest (storeRow P t first) hrest pb hpb

/-- A blob that is stored in two namespaces has only one entry. -/
theorem not_scanExact (htimed : Timed P known t) (hblob : blob ∈ known) (httl : blob.ttl > 0)
    (hne : ns ≠ ns') (h : t.getBlob ns (contentHash P blob) = some blob)
    (h' : t.getBlob ns' (contentHash P blob) = some blob) : ¬ ScanExact P t := by
  intro hexact
  have hdue : due (saturatingExpiry blob.timestamp blob.ttl) blob = true := by
    simp [due, httl]
  have hentry {ns : Hash32} (h : t.getBlob ns (contentHash P blob) = some blob) :
      get₂ t.expiry (saturatingExpiry blob.timestamp blob.ttl).toNat (contentHash P blob) =
          some ns := by
    have hremoved := hexact (saturatingExpiry blob.timestamp blob.ttl) ns (contentHash P blob)
    have hgone : ((some blob).filter fun b =>
        !due (saturatingExpiry blob.timestamp blob.ttl) b) = none := by
      simp [Option.filter, hdue]
    rw [getBlob_runExpiryScan, h, hgone] at hremoved
    split_ifs at hremoved with hscheduled
    obtain ⟨time, hentry, -⟩ := scheduled_iff.mp hscheduled
    rw [(htimed.time_eq hinj hblob hentry).2]
    exact hentry
  exact hne (Option.some.inj ((hentry h).symm.trans (hentry h')))

theorem sole_of_scanExact (hnamed : Named P known t) (htimed : Timed P known t)
    (hgiven : Given known op) (h : ScanExact P (op.step P t)) : Sole P t op := by
  rcases op.step_cases (P := P) t with hstores | ⟨ns, hash, rfl⟩ | ⟨now, rfl⟩
  · obtain ⟨quota, htables⟩ := hstores.tables
    have hknown : ∀ pb ∈ op.writes P t, pb.blob ∈ known :=
      fun pb hpb => hgiven pb (op.writes_subset P t hpb)
    have hrow : ∀ ns hash, (op.step P t).getBlob ns hash =
        (storeRows P t (op.writes P t)).getBlob ns hash := by
      rw [htables]
      intro ns hash
      rfl
    intro pb hpb httl
    have hwritten := getBlob_storeRows hinj (op.writes P t) t hknown pb hpb
    rw [← hrow] at hwritten
    -- a second namespace with the blob would be left out by the scan
    have honly (ns : Hash32) (hother : ns ≠ pb.targetNamespace)
        (hstored : (op.step P t).getBlob ns (contentHash P pb.blob) = some pb.blob) : False :=
      not_scanExact hinj (timed_step htimed hgiven) (hknown pb hpb) httl hother hstored hwritten h
    refine ⟨fun ns hother => ?_, fun pb' hpb' hhash => ?_⟩
    · cases hstored : t.getBlob ns (contentHash P pb.blob) with
      | none => rfl
      | some stored =>
        obtain ⟨hknown', hhash⟩ := hnamed _ _ _ hstored
        obtain rfl := hinj hknown' (hknown pb hpb) hhash
        refine absurd (getBlob_storeRows_of_stored hinj (op.writes P t) t hknown hknown' hstored)
          fun hkept => ?_
        exact honly ns hother ((hrow _ _).trans hkept)
    · by_contra hother
      have hwritten' := getBlob_storeRows hinj (op.writes P t) t hknown pb' hpb'
      rw [← hrow, hhash, hinj (hknown pb' hpb') (hknown pb hpb) hhash] at hwritten'
      exact honly _ hother hwritten'
  · intro pb hpb
    exact absurd hpb List.not_mem_nil
  · intro pb hpb
    exact absurd hpb List.not_mem_nil

end Expiry

/-- **Exactness of the expiry scan.** After every run that stores no blob with a time to live in two
namespaces, every expiry scan removes exactly the expired blobs; and after one more operation that
is still so exactly if the operation does not do that either. -/
theorem expiry_scan_iff (P : Primitives) {known : Set BlobData}
    (hinj : Set.InjOn (contentHash P) known)
    (ops : List StoreOp) (op : StoreOp) (hgiven : ∀ op' ∈ op :: ops, Given known op')
    (hsole : AllSteps (StoreOp.step P) (Sole P) {} ops) :
    let t := run (StoreOp.step P) {} ops
    ScanExact P t ∧ (ScanExact P (op.step P t) ↔ Sole P t op) := by
  intro t
  have hinv : Named P known t ∧ Timed P known t ∧ Slotted t := by
    have hall : AllSteps (StoreOp.step P) (fun t op => Sole P t op ∧ Given known op) {} ops :=
      hsole.imp fun _ op' hop' hsole' => ⟨hsole', hgiven op' (List.mem_cons_of_mem _ hop')⟩
    refine run_invariant (I := fun t => Named P known t ∧ Timed P known t ∧ Slotted t) ?_
      ⟨named_empty, timed_empty, fun _ _ _ h => absurd h (by simp)⟩ hall
    rintro t op ⟨hnamed, htimed, hslotted⟩ ⟨hsole, hgiven⟩
    exact ⟨named_step hnamed hgiven, timed_step htimed hgiven,
      hslotted.step hinj hnamed hgiven hsole⟩
  obtain ⟨hnamed, htimed, hslotted⟩ := hinv
  have hop := hgiven op List.mem_cons_self
  refine ⟨hslotted.scanExact hinj hnamed htimed, fun h =>
    sole_of_scanExact hinj hnamed htimed hop h, fun hsole => ?_⟩
  exact (hslotted.step hinj hnamed hop hsole).scanExact hinj (named_step hnamed hop)
    (timed_step htimed hop)

section Sample

open Wire.Sample

/-- A blob that lives for ten seconds. -/
def shortLived (timestamp : UInt64) : BlobData :=
  signed (key 1) (owned 1) (owned 1) [1, 2, 3] 10 timestamp

theorem expiry_scan_single :
    let ops : List StoreOp := [.storeBlob 0 false (owned 1) (shortLived 3000000) {}]
    let t := run (StoreOp.step primitives) {} ops
    let again : StoreOp := .storeBlob 0 false (owned 2) (shortLived 3000000) {}
    ScanExact primitives t ∧
    (ScanExact primitives (again.step primitives t) ↔ Sole primitives t again) := by
  have hinj : Set.InjOn (contentHash primitives) (Set.range shortLived) := by
    rintro _ ⟨timestamp, rfl⟩ _ ⟨timestamp', rfl⟩ heq
    exact congrArg shortLived (timestamp_eq_of_contentHash heq)
  refine expiry_scan_iff primitives hinj _ _ ?_ ⟨?_, trivial⟩
  · intro op hop pb hpb
    simp only [List.mem_cons, List.not_mem_nil, or_false] at hop
    rcases hop with rfl | rfl
    · rw [List.mem_singleton.mp hpb]
      exact ⟨_, rfl⟩
    · rw [List.mem_singleton.mp hpb]
      exact ⟨_, rfl⟩
  · intro pb hpb _
    have honly := List.mem_singleton.mp ((StoreOp.storeBlob 0 false (owned 1) (shortLived 3000000)
      {}).writes_subset primitives {} hpb)
    refine ⟨fun ns _ => getBlob_empty, fun pb' hpb' _ => ?_⟩
    rw [honly, List.mem_singleton.mp ((StoreOp.storeBlob 0 false (owned 1) (shortLived 3000000)
      {}).writes_subset primitives {} hpb')]

/-- The same blob is stored in two namespaces. A scan long after its time removes it from the
second one only. -/
theorem expiry_scan_shared :
    let t := run (StoreOp.step primitives) {}
      [.storeBlob 0 false (owned 1) (shortLived 3000000) {},
        .storeBlob 0 false (owned 2) (shortLived 3000000) {}]
    due 4000000 (shortLived 3000000) = true ∧
      (runExpiryScan primitives t 4000000).1.getBlob (owned 1)
        (contentHash primitives (shortLived 3000000)) =
        some (shortLived 3000000) := by
  decide

end Sample

end Storage
