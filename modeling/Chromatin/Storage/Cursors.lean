import Chromatin.Infra.Cursor
import Chromatin.Storage.Tables
import Mathlib.Data.List.Destutter
import Mathlib.Data.List.Perm.Subperm
import Mathlib.Data.Prod.Lex
import Mathlib.Order.Bounds.Basic

/-!
# The searches with cursors (`storage/storage.cpp`)

`Tables.seq` is a table of tables. In the source it is one map with keys `[namespace:32][seq:8]`,
and the largest sequence number of a namespace is found by a cursor: it is put at the upper end of
the namespace, and may land in the namespace, in another one, or behind the last key.
`list_namespaces` walks over the namespaces by seeking the one after the last one it found, and
`list_delegations` walks over the keys of one namespace, and so does `delete_peer_cursors` over
those of one peer.

`nextSeqNum_eq` and `listNamespaces_eq` say that the searches in the sequence map compute
`Tables.nextSeqNum` and `Tables.listNamespaces`, as long as the numbers fit into 64 bits.
-/

namespace Storage

open Infra Util Wire

variable {ns' : Hash32}

/-! ## The entries of a namespace -/

section Entries

variable {t : Tables} {ns hash : Hash32} {n : Nat} {entry : SeqEntry}

theorem mem_seqEntries : (n, entry) ∈ t.seqEntries ns ↔ get₂ t.seq ns n = some entry := by
  unfold Tables.seqEntries get₂
  cases t.seq[ns]? with
  | none => simp
  | some row => exact Std.ExtTreeMap.mem_toList_iff_getElem?_eq_some

/-- The entries are in ascending order of their numbers. -/
theorem pairwise_seqEntries (t : Tables) (ns : Hash32) :
    (t.seqEntries ns).Pairwise fun a b => a.1 < b.1 := by
  unfold Tables.seqEntries
  cases t.seq[ns]? with
  | none => exact .nil
  | some row => exact row.ordered_keys_toList.imp fun h => compare_lt_iff_lt.mp h

/-- The next number is above all numbers in use. -/
theorem lt_nextSeqNum (h : get₂ t.seq ns n = some entry) : n < t.nextSeqNum ns := by
  have hmem := mem_seqEntries.mpr h
  unfold Tables.nextSeqNum
  cases hlast : (t.seqEntries ns).getLast? with
  | none =>
    rw [List.getLast?_eq_none_iff.mp hlast] at hmem
    exact absurd hmem List.not_mem_nil
  | some last =>
    obtain ⟨init, hinit⟩ := List.getLast?_eq_some_iff.mp hlast
    have hsorted := pairwise_seqEntries t ns
    rw [hinit] at hmem hsorted
    rcases List.mem_append.mp hmem with hbefore | heq
    · have hlt := (List.pairwise_append.mp hsorted).2.2 _ hbefore last (List.mem_singleton.mpr rfl)
      exact Nat.lt_succ_of_lt hlt
    · rw [← List.mem_singleton.mp heq]
      exact Nat.lt_succ_self n

theorem findSeq_eq_some (h : t.findSeq ns hash = some n) :
    ∃ entry, get₂ t.seq ns n = some entry ∧ entry.hash = hash := by
  obtain ⟨⟨m, entry⟩, hfind, rfl⟩ := Option.map_eq_some_iff.mp h
  have hhash := List.find?_some hfind
  exact ⟨entry, mem_seqEntries.mp (List.mem_of_find?_eq_some hfind), beq_iff_eq.mp hhash⟩

theorem findSeq_eq_none (h : t.findSeq ns hash = none) (hentry : get₂ t.seq ns n = some entry) :
    entry.hash ≠ hash := by
  rw [Tables.findSeq, Option.map_eq_none_iff, List.find?_eq_none] at h
  intro heq
  exact h (n, entry) (mem_seqEntries.mpr hentry) (beq_iff_eq.mpr heq)

end Entries

/-! ## Searches -/

/-- `[namespace:32][seq:8]`; both parts are big-endian, so keys are ordered as pairs. -/
abbrev SeqKey := Hash32 ×ₗ Nat

def makeSeqKey (ns : Hash32) (seqNum : Nat) : SeqKey := toLex (ns, seqNum)

def UINT64_MAX : Nat := 2 ^ 64 - 1

namespace SeqMap

variable {m : Nat}

/-- The keys of the map in their order. -/
def keys (t : Tables) : List SeqKey :=
  t.seq.toList.flatMap fun (ns, row) => row.toList.map fun (n, _) => makeSeqKey ns n

/-- The sequence number of a key, if there is one and it is in the namespace. -/
def seqNumIn (ns : Hash32) (key : Option SeqKey) : Option Nat :=
  key.bind fun k => if (ofLex k).1 = ns then some (ofLex k).2 else none

/-- The search for the largest sequence number of a namespace. -/
def latest (keys : List SeqKey) (ns : Hash32) : Option Nat :=
  let upperKey := makeSeqKey ns UINT64_MAX
  match (seek id keys upperKey).head? with
  | some key =>
    match seqNumIn ns (some key) with
    | some current => some current
    -- `to_previous`
    | none => seqNumIn ns (passed id keys upperKey).getLast?
  -- `to_last`
  | none => seqNumIn ns keys.getLast?

/-- `next_seq_num`; the sum is one of `uint64_t`. -/
def nextSeqNum (t : Tables) (ns : Hash32) : Nat :=
  match latest (keys t) ns with
  | some current => (current + 1) % 2 ^ 64
  | none => 1

/-- The loop of `list_namespaces`, from the keys at the cursor on. -/
def listFrom (keys : List SeqKey) : Nat → List SeqKey → List NamespaceInfo
  | 0, _ => []
  | _ + 1, [] => []
  | fuel + 1, key :: _ =>
    let ns := (ofLex key).1
    let info : NamespaceInfo := { namespaceId := ns, latestSeqNum := (latest keys ns).getD 0 }
    match FixedBytes.increment ns with
    | none => [info]
    | some nextNs => info :: listFrom keys fuel (seek id keys (makeSeqKey nextNs 0))

def listNamespaces (t : Tables) : List NamespaceInfo := listFrom (keys t) (keys t).length (keys t)

/-! ## The search for the largest number -/

theorem makeSeqKey_lt {ns : Hash32} {n : Nat} :
    makeSeqKey ns n < makeSeqKey ns' m ↔ ns < ns' ∨ ns = ns' ∧ n < m :=
  Prod.Lex.toLex_lt_toLex

theorem makeSeqKey_le {ns : Hash32} {n : Nat} :
    makeSeqKey ns n ≤ makeSeqKey ns' m ↔ ns < ns' ∨ ns = ns' ∧ n ≤ m :=
  Prod.Lex.toLex_le_toLex

@[simp] theorem makeSeqKey_inj {ns : Hash32} {n : Nat} :
    makeSeqKey ns n = makeSeqKey ns' m ↔ ns = ns' ∧ n = m :=
  toLex_inj.trans Prod.mk_inj

@[simp] theorem seqNumIn_some (ns ns' : Hash32) (n : Nat) :
    seqNumIn ns (some (makeSeqKey ns' n)) = if ns' = ns then some n else none := rfl

theorem exists_makeSeqKey (key : SeqKey) : ∃ ns n, key = makeSeqKey ns n := ⟨key.1, key.2, rfl⟩

/-- What a search for the largest number of a namespace has to find among the keys. -/
def Latest (keys : List SeqKey) (ns : Hash32) : Option Nat → Prop
  | some n => IsGreatest {m | makeSeqKey ns m ∈ keys} n
  | none => ∀ m, makeSeqKey ns m ∉ keys

variable {keys : List SeqKey} {ns : Hash32}

theorem Latest.unique {found found' : Option Nat} (h : Latest keys ns found)
    (h' : Latest keys ns found') :
    found = found' := by
  cases found with
  | none =>
    cases found' with
    | none => rfl
    | some m => exact absurd h'.1 (h m)
  | some n =>
    cases found' with
    | none => exact absurd h.1 (h' n)
    | some m => rw [IsGreatest.unique h h']

/-- If no key is beyond the namespace, its largest number is in the last key or nowhere. -/
theorem latest_getLast (h : Ascending id keys)
    (hns : ∀ ns' n, makeSeqKey ns' n ∈ keys → ns' ≤ ns) :
    Latest keys ns (seqNumIn ns keys.getLast?) := by
  rcases List.eq_nil_or_concat keys with rfl | ⟨init, last, rfl⟩
  · intro m
    exact List.not_mem_nil
  · rw [List.concat_eq_append] at h hns ⊢
    obtain ⟨ns', n, rfl⟩ := exists_makeSeqKey last
    have hlast : ∀ m, makeSeqKey ns m ∈ init → makeSeqKey ns m < makeSeqKey ns' n :=
      fun m hm => (List.pairwise_append.mp h).2.2 _ hm _ (List.mem_singleton.mpr rfl)
    rw [List.getLast?_concat, seqNumIn_some]
    by_cases heq : ns' = ns
    · subst heq
      rw [if_pos rfl]
      refine ⟨List.mem_append_right _ (List.mem_singleton.mpr rfl), fun m hm => ?_⟩
      rcases List.mem_append.mp hm with hbefore | hsame
      · rcases makeSeqKey_lt.mp (hlast m hbefore) with hlt | ⟨-, hlt⟩
        · exact absurd hlt (lt_irrefl _)
        · exact Nat.le_of_lt hlt
      · exact Nat.le_of_eq (makeSeqKey_inj.mp (List.mem_singleton.mp hsame)).2
    · rw [if_neg heq]
      have hbelow : ns' < ns :=
        lt_of_le_of_ne (hns ns' n (List.mem_append_right _ (List.mem_singleton.mpr rfl))) heq
      intro m hm
      rcases List.mem_append.mp hm with hbefore | hsame
      · rcases makeSeqKey_lt.mp (hlast m hbefore) with hlt | ⟨hns', -⟩
        · exact absurd hlt (not_lt.mpr (le_of_lt hbelow))
        · exact heq hns'.symm
      · exact heq (makeSeqKey_inj.mp (List.mem_singleton.mp hsame)).1.symm

/-- The search finds the largest number, wherever the cursor lands. -/
theorem latest_spec (h : Ascending id keys)
    (hfits : ∀ ns' n, makeSeqKey ns' n ∈ keys → n ≤ UINT64_MAX) (ns : Hash32) :
    Latest keys ns (latest keys ns) := by
  have hpassed : ∀ ns' n, makeSeqKey ns' n ∈ passed id keys (makeSeqKey ns UINT64_MAX) →
      ns' ≤ ns := by
    intro ns' n hmem
    rcases makeSeqKey_lt.mp ((mem_passed h).mp hmem).2 with hlt | ⟨heq, -⟩
    · exact le_of_lt hlt
    · exact le_of_eq heq
  unfold latest
  dsimp only
  cases hhead : (seek id keys (makeSeqKey ns UINT64_MAX)).head? with
  | none =>
    -- behind the last key
    have hall : passed id keys (makeSeqKey ns UINT64_MAX) = keys := by
      have hsplit := passed_append_seek id keys (makeSeqKey ns UINT64_MAX)
      rwa [List.head?_eq_none_iff.mp hhead, List.append_nil] at hsplit
    rw [hall] at hpassed
    exact latest_getLast h hpassed
  | some key =>
    obtain ⟨tail, htail⟩ := List.head?_eq_some_iff.mp hhead
    obtain ⟨ns', n, rfl⟩ := exists_makeSeqKey key
    have hkey : makeSeqKey ns' n ∈ seek id keys (makeSeqKey ns UINT64_MAX) := by
      rw [htail]
      exact List.mem_cons_self
    obtain ⟨hmem, hbound⟩ := (mem_seek h).mp hkey
    simp only [seqNumIn_some]
    by_cases heq : ns' = ns
    · -- in the namespace, so at its upper end
      subst heq
      rw [if_pos rfl]
      refine ⟨hmem, fun m hm => ?_⟩
      rcases makeSeqKey_le.mp hbound with hlt | ⟨-, hle⟩
      · exact absurd hlt (lt_irrefl _)
      · exact (hfits ns' m hm).trans hle
    · -- in another one, so all keys of this one have been passed
      rw [if_neg heq]
      have hbeyond : ns < ns' := by
        rcases makeSeqKey_le.mp hbound with hlt | ⟨hsame, -⟩
        · exact hlt
        · exact absurd hsame.symm heq
      have hiff : ∀ m, makeSeqKey ns m ∈ keys ↔
          makeSeqKey ns m ∈ passed id keys (makeSeqKey ns UINT64_MAX) := by
        intro m
        refine ⟨fun hm => ?_, fun hm => ((mem_passed h).mp hm).1⟩
        rw [← passed_append_seek id keys (makeSeqKey ns UINT64_MAX), htail] at hm
        rcases List.mem_append.mp hm with hbefore | hafter
        · exact hbefore
        · have hge : makeSeqKey ns' n ≤ makeSeqKey ns m := by
            rcases List.mem_cons.mp hafter with hsame | hrest
            · exact le_of_eq hsame.symm
            · have hsorted := h.sublist (seek_sublist id keys (makeSeqKey ns UINT64_MAX))
              rw [htail] at hsorted
              exact le_of_lt (List.rel_of_pairwise_cons hsorted hrest)
          rcases makeSeqKey_le.mp hge with hlt | ⟨hsame, -⟩
          · exact absurd hlt (not_lt.mpr (le_of_lt hbeyond))
          · exact absurd hsame heq
      have hfound :=
        latest_getLast (h.sublist (passed_sublist id keys (makeSeqKey ns UINT64_MAX))) hpassed
      cases hlast : seqNumIn ns (passed id keys (makeSeqKey ns UINT64_MAX)).getLast? with
      | none =>
        rw [hlast] at hfound
        exact fun m hm => hfound m ((hiff m).mp hm)
      | some found =>
        rw [hlast] at hfound
        exact ⟨(hiff found).mpr hfound.1, fun m hm => hfound.2 ((hiff m).mp hm)⟩

/-! ## The keys of the tables -/

section Keys

variable {t : Tables}

theorem mem_keys {n : Nat} : makeSeqKey ns n ∈ SeqMap.keys t ↔ (get₂ t.seq ns n).isSome = true := by
  rw [Option.isSome_iff_exists]
  refine (mem_cells (f := fun ns n _ => makeSeqKey ns n)).trans
    ⟨?_, fun ⟨entry, hentry⟩ => ⟨ns, n, entry, hentry, rfl⟩⟩
  rintro ⟨ns', m, entry, hentry, heq⟩
  obtain ⟨rfl, rfl⟩ := makeSeqKey_inj.mp heq
  exact ⟨entry, hentry⟩

theorem ascending_keys (t : Tables) : Ascending id (SeqMap.keys t) := by
  rw [Ascending, SeqMap.keys, List.pairwise_flatMap]
  constructor
  · rintro ⟨ns, row⟩ -
    refine List.pairwise_map.mpr (row.ordered_keys_toList.imp fun {a b} hlt => ?_)
    exact makeSeqKey_lt.mpr (.inr ⟨rfl, compare_lt_iff_lt.mp hlt⟩)
  · refine t.seq.ordered_keys_toList.imp fun {a b} hlt x hx y hy => ?_
    obtain ⟨_, -, rfl⟩ := List.mem_map.mp hx
    obtain ⟨_, -, rfl⟩ := List.mem_map.mp hy
    exact makeSeqKey_lt.mpr (.inl (compare_lt_iff_lt.mp hlt))

/-- The last entry of a namespace holds its largest number. -/
theorem latest_seqEntries (t : Tables) (ns : Hash32) :
    Latest (SeqMap.keys t) ns ((t.seqEntries ns).getLast?.map Prod.fst) := by
  cases hlast : (t.seqEntries ns).getLast? with
  | none =>
    intro m hm
    obtain ⟨entry, hentry⟩ := Option.isSome_iff_exists.mp (mem_keys.mp hm)
    have hmem := mem_seqEntries.mpr hentry
    rw [List.getLast?_eq_none_iff.mp hlast] at hmem
    exact absurd hmem List.not_mem_nil
  | some last =>
    obtain ⟨n, entry⟩ := last
    have hmem : (n, entry) ∈ t.seqEntries ns := List.mem_of_getLast? hlast
    refine ⟨mem_keys.mpr (by rw [mem_seqEntries.mp hmem]; rfl), fun m hm => ?_⟩
    obtain ⟨entry', hentry'⟩ := Option.isSome_iff_exists.mp (mem_keys.mp hm)
    have hlt := lt_nextSeqNum hentry'
    simp only [Tables.nextSeqNum, hlast] at hlt
    exact Nat.le_of_lt_succ hlt

/-- The numbers of all entries leave room for the next one. -/
def Fits (t : Tables) : Prop := ∀ ns n, (get₂ t.seq ns n).isSome = true → n < UINT64_MAX

theorem latest_keys (h : Fits t) (ns : Hash32) :
    latest (SeqMap.keys t) ns = (t.seqEntries ns).getLast?.map Prod.fst := by
  refine (latest_spec (ascending_keys t) ?_ ns).unique (latest_seqEntries t ns)
  intro ns' n hmem
  exact Nat.le_of_lt (h ns' n (mem_keys.mp hmem))

/-- `next_seq_num` returns one more than the largest number of the namespace. -/
theorem nextSeqNum_eq (h : Fits t) (ns : Hash32) : SeqMap.nextSeqNum t ns = t.nextSeqNum ns := by
  unfold SeqMap.nextSeqNum Tables.nextSeqNum
  rw [latest_keys h ns]
  cases hlast : (t.seqEntries ns).getLast? with
  | none => rfl
  | some last =>
    obtain ⟨n, entry⟩ := last
    have hentry := mem_seqEntries.mp (List.mem_of_getLast? hlast)
    have hlt := h ns n (by rw [hentry]; rfl)
    unfold UINT64_MAX at hlt
    exact Nat.mod_eq_of_lt (by omega)

end Keys

/-! ## The walk over the namespaces -/

/-- A namespace from `bound` on that has a key, with its largest number. -/
def Listed (keys : List SeqKey) (bound : Hash32) (info : NamespaceInfo) : Prop :=
  bound ≤ info.namespaceId ∧ (∃ n, makeSeqKey info.namespaceId n ∈ keys) ∧
    info.latestSeqNum = (latest keys info.namespaceId).getD 0

theorem listed_iff_eq {bound : Hash32} {info : NamespaceInfo} {n : Nat} (hbound : bound ≤ ns)
    (hkey : makeSeqKey ns n ∈ keys) (hns : info.namespaceId = ns) :
    Listed keys bound info ↔ info = ⟨ns, (latest keys ns).getD 0⟩ := by
  obtain ⟨ns', latestSeqNum⟩ := info
  obtain rfl : ns' = ns := hns
  constructor
  · rintro ⟨-, -, hlatest⟩
    exact congrArg (NamespaceInfo.mk ns') hlatest
  · intro hinfo
    rw [hinfo]
    exact ⟨hbound, ⟨n, hkey⟩, rfl⟩

/-- The keys from the start of a namespace on. -/
theorem mem_seek_makeSeqKey (h : Ascending id keys) {bound : Hash32} {n : Nat} :
    makeSeqKey ns n ∈ seek id keys (makeSeqKey bound 0) ↔ bound ≤ ns ∧ makeSeqKey ns n ∈ keys := by
  rw [mem_seek h, id, makeSeqKey_le, and_comm, and_congr_left_iff]
  intro _
  have hzero : 0 ≤ n := Nat.zero_le n
  rw [and_iff_left hzero, ← le_iff_lt_or_eq]

theorem not_listed_of_seek_nil (h : Ascending id keys) {bound : Hash32}
    (hnil : seek id keys (makeSeqKey bound 0) = []) (info : NamespaceInfo) :
    ¬ Listed keys bound info := by
  rintro ⟨hbound, ⟨n, hn⟩, -⟩
  have hin := (mem_seek_makeSeqKey h).mpr ⟨hbound, hn⟩
  rw [hnil] at hin
  exact absurd hin List.not_mem_nil

section Head

variable {bound : Hash32} {n : Nat} {tail : List SeqKey}

/-- The first key is in the least namespace from the bound on. -/
theorem le_of_seek_cons (h : Ascending id keys)
    (hseek : seek id keys (makeSeqKey bound 0) = makeSeqKey ns n :: tail)
    (hbound : bound ≤ ns') (hkey : makeSeqKey ns' m ∈ keys) : ns ≤ ns' := by
  have hin := (mem_seek_makeSeqKey h).mpr ⟨hbound, hkey⟩
  have hsorted := h.sublist (seek_sublist id keys (makeSeqKey bound 0))
  rw [hseek] at hin hsorted
  rcases List.mem_cons.mp hin with hsame | hrest
  · exact le_of_eq (makeSeqKey_inj.mp hsame).1.symm
  · rcases makeSeqKey_lt.mp (List.rel_of_pairwise_cons hsorted hrest) with hlt | ⟨heq, -⟩
    · exact le_of_lt hlt
    · exact le_of_eq heq

/-- From the start of a later namespace on there are fewer keys. -/
theorem length_seek_lt (h : Ascending id keys)
    (hseek : seek id keys (makeSeqKey bound 0) = makeSeqKey ns n :: tail) {nextNs : Hash32}
    (hbound : bound ≤ ns) (hnext : ns < nextNs) :
    (seek id keys (makeSeqKey nextNs 0)).length < (seek id keys (makeSeqKey bound 0)).length := by
  have hsub : seek id keys (makeSeqKey nextNs 0) ⊆ tail := by
    intro key hin
    obtain ⟨ns', m, rfl⟩ := exists_makeSeqKey key
    obtain ⟨hge, hkey⟩ := (mem_seek_makeSeqKey h).mp hin
    have hlt := lt_of_lt_of_le hnext hge
    have hin' := (mem_seek_makeSeqKey h).mpr ⟨hbound.trans (le_of_lt hlt), hkey⟩
    rw [hseek] at hin'
    rcases List.mem_cons.mp hin' with hsame | hrest
    · exact absurd (makeSeqKey_inj.mp hsame).1 (ne_of_gt hlt)
    · exact hrest
  have hnodup : (seek id keys (makeSeqKey nextNs 0)).Nodup :=
    (h.sublist (seek_sublist id keys _)).imp fun hlt => ne_of_lt hlt
  have hlength := (List.subperm_of_subset hnodup hsub).length_le
  rw [hseek, List.length_cons]
  omega

end Head

/-- From the keys of the namespaces from `bound` on, the loop lists these namespaces in order. By
induction on the fuel: the keys from the next namespace on are fewer. -/
theorem listFrom_spec (h : Ascending id keys) (fuel : Nat) : ∀ bound : Hash32,
    (seek id keys (makeSeqKey bound 0)).length ≤ fuel →
    (listFrom keys fuel (seek id keys (makeSeqKey bound 0))).Pairwise
      (fun a b => a.namespaceId < b.namespaceId) ∧
    ∀ info, info ∈ listFrom keys fuel (seek id keys (makeSeqKey bound 0)) ↔
      Listed keys bound info := by
  have hempty (bound : Hash32) (hnil : seek id keys (makeSeqKey bound 0) = [])
      (info : NamespaceInfo) : info ∈ ([] : List NamespaceInfo) ↔ Listed keys bound info :=
    iff_of_false List.not_mem_nil (not_listed_of_seek_nil h hnil info)
  induction fuel with
  | zero =>
    intro bound hfuel
    have hnil := List.length_eq_zero_iff.mp (Nat.le_zero.mp hfuel)
    exact ⟨.nil, hempty bound hnil⟩
  | succ fuel ih =>
    intro bound hfuel
    cases hseek : seek id keys (makeSeqKey bound 0) with
    | nil => exact ⟨.nil, hempty bound hseek⟩
    | cons key tail =>
      obtain ⟨ns, n, rfl⟩ := exists_makeSeqKey key
      have hfirst : makeSeqKey ns n ∈ seek id keys (makeSeqKey bound 0) :=
        hseek ▸ List.mem_cons_self
      obtain ⟨hbound, hkey⟩ := (mem_seek_makeSeqKey h).mp hfirst
      rw [listFrom]
      simp only [show (ofLex (makeSeqKey ns n)).1 = ns from rfl]
      cases hnext : FixedBytes.increment ns with
      | none =>
        refine ⟨List.pairwise_singleton _ _, fun info => ?_⟩
        rw [List.mem_singleton]
        constructor
        · rintro rfl
          exact (listed_iff_eq hbound hkey rfl).mpr rfl
        · intro hlisted
          obtain ⟨hbound', ⟨m, hkey'⟩, -⟩ := id hlisted
          have hsame : info.namespaceId = ns :=
            le_antisymm (FixedBytes.increment_eq_none hnext _)
              (le_of_seek_cons h hseek hbound' hkey')
          exact (listed_iff_eq hbound hkey hsame).mp hlisted
      | some nextNs =>
        have habove := FixedBytes.increment_eq_some hnext
        have hshorter := length_seek_lt h hseek hbound ((habove nextNs).mp le_rfl)
        obtain ⟨hsorted, hrest⟩ := ih nextNs (by omega)
        refine ⟨List.pairwise_cons.mpr ⟨fun info hin => ?_, hsorted⟩, fun info => ?_⟩
        · exact (habove _).mp ((hrest info).mp hin).1
        · rw [List.mem_cons, hrest info]
          constructor
          · rintro (rfl | ⟨hge, hkey', hlatest⟩)
            · exact (listed_iff_eq hbound hkey rfl).mpr rfl
            · exact ⟨hbound.trans (le_of_lt ((habove _).mp hge)), hkey', hlatest⟩
          · intro hlisted
            obtain ⟨hbound', ⟨m, hkey'⟩, hlatest⟩ := id hlisted
            rcases eq_or_lt_of_le (le_of_seek_cons h hseek hbound' hkey') with hsame | hlt
            · exact .inl ((listed_iff_eq hbound hkey hsame.symm).mp hlisted)
            · exact .inr ⟨(habove _).mpr hlt, ⟨m, hkey'⟩, hlatest⟩

variable {t : Tables}

/-- From the first key on, the walk lists the namespaces that have a key in order. -/
theorem listFrom_zero (h : Ascending id keys) :
    (listFrom keys keys.length keys).Pairwise (fun a b => a.namespaceId < b.namespaceId) ∧
    ∀ info, info ∈ listFrom keys keys.length keys ↔ (∃ n, makeSeqKey info.namespaceId n ∈ keys) ∧
      info.latestSeqNum = (latest keys info.namespaceId).getD 0 := by
  have hseek : seek id keys (makeSeqKey (FixedBytes.fill 32 0) 0) = keys := by
    refine seek_eq_self id fun key _ => ?_
    obtain ⟨ns, n, rfl⟩ := exists_makeSeqKey key
    rcases eq_or_lt_of_le (FixedBytes.fill_zero_le ns) with heq | hlt
    · exact makeSeqKey_le.mpr (.inr ⟨heq, Nat.zero_le n⟩)
    · exact makeSeqKey_le.mpr (.inl hlt)
  have hspec := listFrom_spec h keys.length (FixedBytes.fill 32 0)
  rw [hseek] at hspec
  obtain ⟨hsorted, hmem⟩ := hspec (Nat.le_refl _)
  refine ⟨hsorted, fun info => (hmem info).trans ?_⟩
  simp only [Listed, FixedBytes.fill_zero_le, true_and]

/-- The walk lists the namespaces that have an entry in order, with their largest numbers. -/
theorem listNamespaces_spec (t : Tables) :
    (SeqMap.listNamespaces t).Pairwise (fun a b => a.namespaceId < b.namespaceId) ∧
    ∀ info, info ∈ SeqMap.listNamespaces t ↔ (∃ n, (get₂ t.seq info.namespaceId n).isSome = true) ∧
      info.latestSeqNum = (latest (SeqMap.keys t) info.namespaceId).getD 0 := by
  obtain ⟨hsorted, hmem⟩ := listFrom_zero (ascending_keys t)
  refine ⟨hsorted, fun info => (hmem info).trans ?_⟩
  simp only [mem_keys]

/-- `list_namespaces` lists every namespace of the table with its largest number. -/
theorem listNamespaces_eq (hfits : Fits t)
    (hrows : ∀ (ns : Hash32) (row : Table Nat SeqEntry), t.seq[ns]? = some row →
      ∃ n : Nat, (row[n]?).isSome = true) :
    SeqMap.listNamespaces t = t.listNamespaces := by
  obtain ⟨hsorted, hmem⟩ := listNamespaces_spec t
  have hsorted' : t.listNamespaces.Pairwise fun a b => a.namespaceId < b.namespaceId :=
    List.pairwise_map.mpr (t.seq.ordered_keys_toList.imp fun hlt => compare_lt_iff_lt.mp hlt)
  have hmem' : ∀ info, info ∈ SeqMap.listNamespaces t ↔ info ∈ t.listNamespaces := by
    intro info
    rw [hmem info, Tables.listNamespaces, List.mem_map, latest_keys hfits]
    constructor
    · rintro ⟨⟨n, hn⟩, hlatest⟩
      obtain ⟨entry, hentry⟩ := Option.isSome_iff_exists.mp hn
      obtain ⟨row, hrow, -⟩ := Option.bind_eq_some_iff.mp hentry
      refine ⟨(info.namespaceId, row), Std.ExtTreeMap.mem_toList_iff_getElem?_eq_some.mpr hrow, ?_⟩
      rw [Tables.seqEntries, hrow] at hlatest
      exact congrArg (NamespaceInfo.mk info.namespaceId) hlatest.symm
    · rintro ⟨⟨ns, row⟩, hrow, rfl⟩
      rw [Std.ExtTreeMap.mem_toList_iff_getElem?_eq_some] at hrow
      obtain ⟨n, hn⟩ := hrows ns row hrow
      refine ⟨⟨n, ?_⟩, ?_⟩
      · rw [get₂, hrow]
        exact hn
      · rw [Tables.seqEntries, hrow]
  exact Ascending.ext hsorted hsorted' hmem'

end SeqMap

/-! ## The delegations of a namespace -/

structure DelegationEntry where
  delegatePkHash : Hash32
  delegationBlobHash : Hash32

/-- The two halves of a key `[namespace:32][hash:32]`. -/
def splitBlobKey (key : FixedBytes 64) : Hash32 × Hash32 :=
  (⟨key.toList.take 32, length_take_key key⟩, ⟨key.toList.drop 32, by simp⟩)

/-- `list_delegations`: the walk starts at the zero hash and stops at the next namespace. -/
def Tables.listDelegations (t : Tables) (ns : Hash32) : List DelegationEntry :=
  let rows := seek Prod.fst t.delegation.toList (makeBlobKey ns (FixedBytes.fill 32 0))
  (rows.takeWhile fun row => (splitBlobKey row.1).1 = ns).map fun row =>
    { delegatePkHash := (splitBlobKey row.1).2, delegationBlobHash := row.2 }

theorem makeBlobKey_splitBlobKey (key : FixedBytes 64) :
    makeBlobKey (splitBlobKey key).1 (splitBlobKey key).2 = key := by
  refine List.Vector.toList_injective ?_
  exact List.take_append_drop 32 key.toList

theorem splitBlobKey_makeBlobKey (ns hash : Hash32) :
    splitBlobKey (makeBlobKey ns hash) = (ns, hash) := by
  have hkey := makeBlobKey_splitBlobKey (makeBlobKey ns hash)
  rw [makeBlobKey_inj] at hkey
  exact Prod.ext hkey.1 hkey.2

theorem append_lt_append_iff : ∀ {a a' : Bytes} (b b' : Bytes), a.length = a'.length →
    (a ++ b < a' ++ b' ↔ a < a' ∨ a = a' ∧ b < b')
  | [], [], b, b', _ => by simp
  | x :: a, x' :: a', b, b', h => by
    rw [List.cons_append, List.cons_append, List.cons_lt_cons_iff, List.cons_lt_cons_iff,
      append_lt_append_iff b b' (Nat.succ.inj h), List.cons.injEq]
    tauto

theorem makeBlobKey_lt {ns hash hash' : Hash32} :
    makeBlobKey ns hash < makeBlobKey ns' hash' ↔ ns < ns' ∨ ns = ns' ∧ hash < hash' := by
  have hlt := append_lt_append_iff hash.toList hash'.toList
    (ns.toList_length.trans ns'.toList_length.symm)
  rw [List.Vector.toList_injective.eq_iff] at hlt
  exact hlt

/-- A walk from the zero hash of a namespace to the next namespace finds all rows of the namespace.
-/
theorem mem_walk {γ : Type} (rows : Table (FixedBytes 64) γ) (ns : Hash32)
    (row : FixedBytes 64 × γ) :
    row ∈ (seek Prod.fst rows.toList (makeBlobKey ns (FixedBytes.fill 32 0))).takeWhile
        (fun row => decide ((splitBlobKey row.1).1 = ns)) ↔
      row ∈ rows.toList ∧ (splitBlobKey row.1).1 = ns := by
  have hsorted : Ascending Prod.fst rows.toList :=
    rows.ordered_keys_toList.imp fun hlt => compare_lt_iff_lt.mp hlt
  rw [mem_takeWhile_seek hsorted (fun row hns => ?_) fun a b hge hlt hns => ?_, decide_eq_true_iff]
  · -- no key of the namespace is below the one with the zero hash
    rw [← of_decide_eq_true hns, ← not_lt]
    intro hbelow
    rw [← makeBlobKey_splitBlobKey row.1, splitBlobKey_makeBlobKey, makeBlobKey_lt] at hbelow
    rcases hbelow with hlt | ⟨-, hlt⟩
    · exact absurd hlt (lt_irrefl _)
    · exact absurd hlt (not_lt.mpr (FixedBytes.fill_zero_le _))
  · rw [← makeBlobKey_splitBlobKey a.1, ← makeBlobKey_splitBlobKey b.1, of_decide_eq_true hns,
      makeBlobKey_lt] at hlt
    rw [← makeBlobKey_splitBlobKey a.1, ← not_lt, makeBlobKey_lt] at hge
    rcases hlt with hbefore | ⟨hsame, -⟩
    · exact absurd (.inl hbefore) hge
    · exact decide_eq_true hsame

/-- The walk finds every entry of the namespace. -/
theorem mem_listDelegations {t : Tables} {ns : Hash32} {entry : DelegationEntry} :
    entry ∈ t.listDelegations ns ↔
      t.delegation[makeBlobKey ns entry.delegatePkHash]? = some entry.delegationBlobHash := by
  rw [Tables.listDelegations, List.mem_map]
  constructor
  · rintro ⟨row, hrow, rfl⟩
    obtain ⟨hmem, hns⟩ := (mem_walk t.delegation ns row).mp hrow
    rw [← hns, makeBlobKey_splitBlobKey]
    exact Std.ExtTreeMap.mem_toList_iff_getElem?_eq_some.mp hmem
  · intro hentry
    refine ⟨(makeBlobKey ns entry.delegatePkHash, entry.delegationBlobHash),
      (mem_walk t.delegation ns _).mpr ⟨?_, ?_⟩, ?_⟩
    · exact Std.ExtTreeMap.mem_toList_iff_getElem?_eq_some.mpr hentry
    · rw [splitBlobKey_makeBlobKey]
    · rw [splitBlobKey_makeBlobKey]

/-! ## The sync cursors of a peer -/

/-- The keys are collected before the first of them is erased. -/
def Tables.deletePeerCursors (t : Tables) (peerHash : Hash32) : Tables × Nat :=
  let rows := seek Prod.fst t.cursor.toList (makeBlobKey peerHash (FixedBytes.fill 32 0))
  let keys := (rows.takeWhile fun row => (splitBlobKey row.1).1 = peerHash).map Prod.fst
  ({ t with cursor := keys.foldl (fun cursors key => cursors.erase key) t.cursor }, keys.length)

/-- The peers with a cursor. A peer is listed where it differs from the one before it. -/
def Tables.listCursorPeers (t : Tables) : List Hash32 :=
  (t.cursor.toList.map fun row => (splitBlobKey row.1).1).destutter (· ≠ ·)

/-- Delete the cursors of all peers that are not known. -/
def Tables.cleanupStaleCursors (t : Tables) (knownPeerHashes : List Hash32) : Tables × Nat :=
  t.listCursorPeers.foldl (fun (t, total) peer =>
    if peer ∈ knownPeerHashes then (t, total)
    else
      let (t, deleted) := t.deletePeerCursors peer
      (t, total + deleted)) (t, 0)

theorem getElem?_foldl_erase {γ : Type} (key : FixedBytes 64) :
    ∀ (keys : List (FixedBytes 64)) (rows : Table (FixedBytes 64) γ),
      (keys.foldl (fun rows k => rows.erase k) rows)[key]? = if key ∈ keys then none else rows[key]?
  | [], rows => by simp
  | k :: keys, rows => by
    rw [List.foldl_cons, getElem?_foldl_erase key keys, getElem?_erase_eq]
    by_cases hk : k = key
    · simp [hk]
    · simp [hk, Ne.symm hk]

theorem getSyncCursor_deletePeerCursors (t : Tables) (peerHash peer ns : Hash32) :
    (t.deletePeerCursors peerHash).1.getSyncCursor peer ns =
      if peer = peerHash then none else t.getSyncCursor peer ns := by
  unfold Tables.deletePeerCursors Tables.getSyncCursor
  dsimp only
  rw [getElem?_foldl_erase]
  by_cases hpeer : peer = peerHash
  · subst hpeer
    rw [if_pos rfl]
    split_ifs with hkey
    · rfl
    · -- a cursor of the peer that is left would be one of the collected rows
      rw [← Option.not_isSome_iff_eq_none]
      intro hsome
      obtain ⟨cursor, hcursor⟩ := Option.isSome_iff_exists.mp hsome
      refine hkey (List.mem_map.mpr ⟨(makeBlobKey peer ns, cursor),
        (mem_walk t.cursor peer _).mpr ⟨?_, ?_⟩, rfl⟩)
      · exact Std.ExtTreeMap.mem_toList_iff_getElem?_eq_some.mpr hcursor
      · rw [splitBlobKey_makeBlobKey]
  · rw [if_neg hpeer, if_neg]
    intro hmem
    obtain ⟨row, hrow, hkey⟩ := List.mem_map.mp hmem
    obtain ⟨-, hns⟩ := (mem_walk t.cursor peerHash row).mp hrow
    rw [hkey, splitBlobKey_makeBlobKey] at hns
    exact hpeer hns

/-- Known peers keep their cursors. -/
theorem getSyncCursor_cleanupStaleCursors {t : Tables} {known : List Hash32} {peer : Hash32}
    (h : peer ∈ known) (ns : Hash32) :
    (t.cleanupStaleCursors known).1.getSyncCursor peer ns = t.getSyncCursor peer ns := by
  unfold Tables.cleanupStaleCursors
  generalize t.listCursorPeers = peers
  suffices hfold : ∀ (peers : List Hash32) (state : Tables × Nat),
      (peers.foldl (fun (t, total) peer =>
        if peer ∈ known then (t, total)
        else
          let (t, deleted) := t.deletePeerCursors peer
          (t, total + deleted)) state).1.getSyncCursor peer ns = state.1.getSyncCursor peer ns from
    hfold peers (t, 0)
  intro peers
  induction peers with
  | nil => intro state; rfl
  | cons p peers ih =>
    intro state
    rw [List.foldl_cons, ih]
    split_ifs with hp
    · rfl
    · rw [getSyncCursor_deletePeerCursors, if_neg]
      rintro rfl
      exact hp h

end Storage
