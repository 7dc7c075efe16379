import Chromatin.Infra.Paging
import Chromatin.Peer.QueryClient
import Chromatin.Wire.Sample
import Mathlib.Order.Lattice.Nat

/-!
# Enumerating the namespaces

`list_namespaces` finds every namespace with its greatest number (`listNamespaces_greatest`). The
pages of `NamespaceListRequest` cut that list, and a client that continues behind the last namespace
of a page is `follow` on it: the numbers of the big-endian namespaces are its positions, and the
zero cursor is position 0, before every namespace but the all-zero one.

* `namespace_enumeration` — the listing, and the client that reads it page by page
-/

namespace Peer

open Infra Util Wire Storage

/-- The number that a namespace is in big endian. -/
def nsValue (ns : Hash32) : Nat := ofBigEndian ns.toList

theorem nsValue_lt {a b : Hash32} : nsValue a < nsValue b ↔ a < b :=
  (ofBigEndian_lt_iff (by simp)).symm

section

variable {s : SeqStore} {limit : UInt32}

theorem insertionSort_listNamespaces (s : SeqStore) :
    (s.listNamespaces.insertionSort fun a b => a.namespaceId ≤ b.namespaceId) = s.listNamespaces :=
  ((listNamespaces_greatest s).1.imp fun h => le_of_lt h).insertionSort_eq

/-- The namespaces behind a cursor, if there is no all-zero namespace. -/
theorem namespacesBehind_eq
    (hzero : ∀ info ∈ s.listNamespaces, info.namespaceId ≠ zeroHash) (afterNs : Hash32) :
    namespacesBehind afterNs s.listNamespaces =
      behind (fun info => nsValue info.namespaceId) (nsValue afterNs) s.listNamespaces := by
  unfold namespacesBehind behind
  split_ifs with hafter
  · subst hafter
    refine (List.filter_eq_self.mpr fun info hinfo => ?_).symm
    have hpos : zeroHash < info.namespaceId :=
      lt_of_le_of_ne (FixedBytes.fill_zero_le _) (hzero info hinfo).symm
    exact decide_eq_true (nsValue_lt.mpr hpos)
  · rw [dropWhile_eq_filter ((listNamespaces_greatest s).1.imp ?_)]
    · refine List.filter_congr fun info _ => ?_
      rw [← decide_not, decide_eq_decide, not_le, nsValue_lt]
    · intro a b hab hb
      rw [decide_eq_true_iff] at hb ⊢
      exact hab.le.trans hb

theorem namespaceLimit_bounds (limit : UInt32) :
    0 < namespaceLimit limit ∧ namespaceLimit limit ≤ 1000 := by
  unfold namespaceLimit
  split_ifs <;> omega

/-- What the client reads of a page. -/
theorem parse_handleNamespaceListRequest
    (hzero : ∀ info ∈ s.listNamespaces, info.namespaceId ≠ zeroHash) (afterNs : Hash32)
    (limit : UInt32) {rest : List NamespaceInfo} (hrest :
      behind (fun info => nsValue info.namespaceId) (nsValue afterNs) s.listNamespaces = rest) :
    ∃ payload, handleNamespaceListRequest s (namespaceListRequest afterNs limit) = .ok payload ∧
      parseNamespaceListResponse payload =
        some ((rest.take (namespaceLimit limit)).map (namespaceRow s),
        if rest.length ≤ namespaceLimit limit then 0 else 1) := by
  have hlength : ((rest.take (namespaceLimit limit)).map (namespaceRow s)).length < 2 ^ 32 := by
    have hbound := (namespaceLimit_bounds limit).2
    rw [List.length_map, List.length_take]
    omega
  refine ⟨_, ?_,
    (parseNamespaceListResponse_encode hlength
      !(rest.drop (namespaceLimit limit)).isEmpty).trans ?_⟩
  · rw [handleNamespaceListRequest, parseNamespaceListRequest_namespaceListRequest]
    dsimp only
    rw [insertionSort_listNamespaces, namespacesBehind_eq hzero, hrest]
  · have hmore : (!(rest.drop (namespaceLimit limit)).isEmpty) = true ↔
      ¬rest.length ≤ namespaceLimit limit := by
      rw [Bool.not_eq_true', List.isEmpty_eq_false_iff, ne_eq, List.drop_eq_nil_iff]
    rw [if_congr hmore rfl rfl, ite_not]

/-- The pages of a client are those of `follow`. -/
theorem namespacePages_eq_follow (hzero : ∀ info ∈ s.listNamespaces, info.namespaceId ≠ zeroHash) :
    ∀ (fuel : Nat) (afterNs : Hash32),
      namespacePages (handleNamespaceListRequest s) limit fuel afterNs =
        (follow (fun info => nsValue info.namespaceId) (fun _ => true) (namespaceLimit limit)
          s.listNamespaces fuel (nsValue afterNs)).map (List.map (namespaceRow s))
  | 0, _ => rfl
  | fuel + 1, afterNs => by
    obtain ⟨payload, hanswer, hread⟩ := parse_handleNamespaceListRequest hzero afterNs limit rfl
    set rest :=
      behind (fun info => nsValue info.namespaceId) (nsValue afterNs) s.listNamespaces with hrest
    have hshown : shown (fun _ => true) (namespaceLimit limit) rest =
      rest.take (namespaceLimit limit) :=
      List.filter_eq_self.mpr fun _ _ => rfl
    simp only [namespacePages, hanswer, hread, follow, ← hrest, hshown, List.getLast?_map]
    cases hlast : (rest.take (namespaceLimit limit)).getLast? with
    | none =>
      have hnil := List.getLast?_eq_none_iff.mp hlast
      simp [hnil]
    | some last =>
      by_cases hmore : rest.length ≤ namespaceLimit limit
      · simp [hmore]
      · have ih := namespacePages_eq_follow hzero fuel last.namespaceId
        have hrow : (namespaceRow s last).namespaceId = last.namespaceId := rfl
        simp [hmore, hrow, ih, Function.comp_def]

theorem mem_namespaces {ns : Hash32} : ns ∈ s.listNamespaces.map NamespaceInfo.namespaceId ↔
    (s.numbers ns).Nonempty := by
  rw [List.mem_map]
  constructor
  · rintro ⟨info, hinfo, rfl⟩
    exact ⟨_, ((listNamespaces_greatest s).2 info |>.mp hinfo).1⟩
  · intro hsome
    have hbounded : BddAbove (s.numbers ns) := by
      refine ⟨2 ^ 64, ?_⟩
      rintro _ ⟨seqNum, rfl, -⟩
      exact seqNum.toNat_lt.le
    exact ⟨⟨ns, sSup (s.numbers ns)⟩, (listNamespaces_greatest s).2 ⟨ns, sSup (s.numbers ns)⟩ |>.mpr
      ⟨Nat.sSup_mem hsome hbounded, fun _ h => le_csSup hbounded h⟩, rfl⟩

end

/-- **Every namespace that has a sequence entry is listed once**, in order and with its greatest
number; and a client that starts at the zero cursor and continues behind the last namespace of each
page comes to the end and has got each of them once, if the all-zero namespace is not one of them.
-/
theorem namespace_enumeration (s : SeqStore) :
    (s.listNamespaces.Pairwise fun a b => a.namespaceId < b.namespaceId) ∧
    (∀ info, info ∈ s.listNamespaces ↔ IsGreatest (s.numbers info.namespaceId) info.latestSeqNum) ∧
    (s.numbers zeroHash = ∅ → ∀ (limit : UInt32) (fuel : Nat), s.listNamespaces.length < fuel →
      ∃ entries, namespacePages (handleNamespaceListRequest s) limit fuel zeroHash = some entries ∧
        (entries.map NamespaceEntry.namespaceId).Nodup ∧
        ∀ ns, ns ∈ entries.map NamespaceEntry.namespaceId ↔ (s.numbers ns).Nonempty) := by
  obtain ⟨hsorted, hgreatest⟩ := listNamespaces_greatest s
  refine ⟨hsorted, hgreatest, fun hzero limit fuel hfuel => ?_⟩
  have hnonzero : ∀ info ∈ s.listNamespaces, info.namespaceId ≠ zeroHash := by
    intro info hinfo heq
    have hnumber := ((hgreatest info).mp hinfo).1
    rw [heq, hzero] at hnumber
    exact hnumber
  -- nothing comes before the zero cursor
  have hall : behind (fun info => nsValue info.namespaceId) (nsValue zeroHash) s.listNamespaces =
      s.listNamespaces := by
    rw [← namespacesBehind_eq hnonzero, namespacesBehind, if_pos rfl]
  have hfollow :=
    follow_all (hsorted.imp fun h => nsValue_lt.mpr h) (namespaceLimit_bounds limit).1 fuel
    (nsValue zeroHash) (by rw [hall]; exact hfuel)
  rw [hall] at hfollow
  have hentries : (s.listNamespaces.map (namespaceRow s)).map NamespaceEntry.namespaceId =
      s.listNamespaces.map NamespaceInfo.namespaceId := by
    rw [List.map_map]
    rfl
  refine ⟨s.listNamespaces.map (namespaceRow s), ?_, ?_, fun ns => ?_⟩
  · rw [namespacePages_eq_follow hnonzero, hfollow]
    rfl
  · rw [hentries]
    exact List.pairwise_map.mpr (hsorted.imp fun h => h.ne)
  · rw [hentries, mem_namespaces]

section Sample

open Wire.Sample

/-- Two namespaces, one of them with two entries. -/
def twoNamespaces : SeqStore where
  seqMap := Std.ExtTreeMap.ofList
    [(seqMapKey (owned 1) 1, zeroSentinel), (seqMapKey (owned 1) 2, zeroSentinel),
      (seqMapKey (owned 2) 1, zeroSentinel)]

theorem numbers_twoNamespaces : twoNamespaces.numbers zeroHash = ∅ := by
  refine Set.eq_empty_of_forall_notMem ?_
  rintro n ⟨seqNum, -, hsome⟩
  have hkey := Std.ExtTreeMap.mem_ofList.mp (Std.ExtTreeMap.mem_iff_isSome_getElem?.mpr hsome)
  have hone : zeroHash ≠ owned 1 := by decide
  have htwo : zeroHash ≠ owned 2 := by decide
  simp [seqMapKey_inj, hone, htwo] at hkey

set_option maxRecDepth 20000 in
/-- Page by page, one namespace a page. -/
theorem namespace_enumeration_two :
    ∃ entries, namespacePages (handleNamespaceListRequest twoNamespaces) 1 3 zeroHash =
      some entries ∧
      (entries.map NamespaceEntry.namespaceId).Nodup ∧
      ∀ ns, ns ∈ entries.map NamespaceEntry.namespaceId ↔ (twoNamespaces.numbers ns).Nonempty :=
  (namespace_enumeration twoNamespaces).2.2 numbers_twoNamespaces 1 3 (by decide)

end Sample

end Peer
