import Mathlib.Data.List.Induction
import Mathlib.Tactic.Common

/-!
# Paging through a filtered list

A list is read page by page: a page is taken from the entries behind a position, and only then the
entries that are not visible are left out. The reader continues behind the last entry it was shown
and stops when it is told that there is no more, or when a page shows nothing.

`follow` is that reader. It always ends, and it has been shown the visible entries up to the first
page-length run of hidden ones (`follow_spec`).
-/

namespace Infra

variable {α : Type*} (key : α → Nat) (visible : α → Bool) (limit : Nat)

/-- The entries behind a position. -/
def behind (position : Nat) (l : List α) : List α := l.filter fun x => position < key x

/-- What a page shows. -/
def shown (rest : List α) : List α := (rest.take limit).filter visible

/-- The reader; `none` when the fuel runs out. -/
def follow (l : List α) : Nat → Nat → Option (List α)
  | 0, _ => none
  | fuel + 1, position =>
    let rest := behind key position l
    match (shown visible limit rest).getLast? with
    | none => some []
    | some last =>
      if rest.length ≤ limit then some (shown visible limit rest)
      else (follow l fuel (key last)).map (shown visible limit rest ++ ·)

/-- `limit` consecutive hidden entries come before the entry. -/
def Obscured (l : List α) (x : α) : Prop :=
  ∃ before gap rest, l = before ++ (gap ++ rest) ∧ gap.length = limit ∧
    (∀ y ∈ gap, visible y = false) ∧ x ∈ rest

variable {key visible limit} {l : List α}

/-- The last visible entry of a list, with the hidden ones behind it. -/
theorem exists_last_visible {last : α} (h : (l.filter visible).getLast? = some last) :
    ∃ pre hidden, l = pre ++ last :: hidden ∧ visible last = true ∧
      ∀ x ∈ hidden, visible x = false := by
  induction l using List.reverseRecOn with
  | nil => simp at h
  | append_singleton l x ih =>
    rw [List.filter_append] at h
    cases hx : visible x with
    | true =>
      obtain rfl : x = last := by simpa [hx] using h
      exact ⟨l, [], rfl, hx, by simp⟩
    | false =>
      rw [List.filter_cons_of_neg (by simp [hx]), List.filter_nil, List.append_nil] at h
      obtain ⟨pre, hidden, rfl, hlast, hhidden⟩ := ih h
      refine ⟨pre, hidden ++ [x], by simp, hlast, fun y hy => ?_⟩
      rcases List.mem_append.mp hy with hmem | hmem
      · exact hhidden y hmem
      · rw [List.mem_singleton.mp hmem, hx]

theorem filter_eq_nil_of_hidden (h : ∀ x ∈ l, visible x = false) : l.filter visible = [] := by
  rw [List.filter_eq_nil_iff]
  intro x hx
  simp [h x hx]

theorem not_obscured_of_length_le (h : l.length ≤ limit) (x : α) : ¬Obscured visible limit l x := by
  rintro ⟨before, gap, rest, rfl, hgap, -, hx⟩
  have hpos := List.length_pos_of_mem hx
  simp only [List.length_append] at h
  omega

theorem not_obscured_of_countP_lt (h : l.countP (fun y => !visible y) < limit) (x : α) :
    ¬Obscured visible limit l x := by
  rintro ⟨before, gap, rest, rfl, hgap, hhidden, -⟩
  have hcount : gap.countP (fun y => !visible y) = gap.length :=
    List.countP_eq_length.mpr fun y hy => by simp [hhidden y hy]
  rw [List.countP_append, List.countP_append, hcount] at h
  omega

/-- Dropping a visible entry and fewer than `limit` before it does not change what is obscured. -/
theorem obscured_append_cons {pre post : List α} {x y : α} (hx : visible x = true)
    (hpre : pre.length < limit) :
    Obscured visible limit (pre ++ x :: post) y ↔ Obscured visible limit post y := by
  constructor
  · rintro ⟨before, gap, rest, hsplit, hlength, hhidden, hy⟩
    by_cases hlate : pre.length < before.length
    · -- the gap lies behind `x`
      have hbegins : pre ++ [x] <+: before := by
        refine List.prefix_of_prefix_length_le ⟨post, by simp⟩ ⟨gap ++ rest, hsplit.symm⟩ ?_
        simpa using Nat.succ_le_of_lt hlate
      obtain ⟨before', rfl⟩ := hbegins
      have hcancel : (pre ++ [x]) ++ post = (pre ++ [x]) ++ (before' ++ (gap ++ rest)) := by
        simpa using hsplit
      exact ⟨before', gap, rest, List.append_cancel_left hcancel, hlength, hhidden, hy⟩
    · -- `x` would lie in the gap
      have hget : (before ++ (gap ++ rest))[pre.length]? = some x := by
        rw [← hsplit]
        simp
      rw [List.getElem?_append_right (by omega), List.getElem?_append_left (by omega)] at hget
      have hmem := hhidden x (List.mem_of_getElem? hget)
      rw [hx] at hmem
      exact absurd hmem (by simp)
  · rintro ⟨before, gap, rest, rfl, h⟩
    exact ⟨pre ++ x :: before, gap, rest, by simp, h⟩

section Follow

variable (hsorted : l.Pairwise fun a b => key a < key b)

include hsorted

/-- Behind an entry of the rest comes the rest of the rest. -/
theorem behind_key {position : Nat} {pre post : List α} {x : α}
    (h : behind key position l = pre ++ x :: post) : behind key (key x) l = post := by
  have hposition : position < key x := by
    have hmem : x ∈ behind key position l := by simp [h]
    simpa [behind] using (List.mem_filter.mp hmem).2
  have hrest : behind key (key x) l = behind key (key x) (behind key position l) := by
    rw [behind, behind, behind, List.filter_filter]
    refine List.filter_congr fun y _ => ?_
    simp only [← Bool.decide_and, decide_eq_decide]
    omega
  have hordered : (pre ++ x :: post).Pairwise fun a b => key a < key b := by
    rw [← h]
    exact hsorted.filter _
  obtain ⟨-, hpost, hcross⟩ := List.pairwise_append.mp hordered
  have hpre : pre.filter (fun y => decide (key x < key y)) = [] := by
    rw [List.filter_eq_nil_iff]
    intro y hy
    have hlt := hcross y hy x List.mem_cons_self
    simp only [decide_eq_true_eq]
    omega
  have htail : post.filter (fun y => decide (key x < key y)) = post := by
    rw [List.filter_eq_self]
    intro y hy
    simpa using (List.pairwise_cons.mp hpost).1 y hy
  rw [hrest, h, behind, List.filter_append, hpre, List.filter_cons_of_neg (by simp), htail,
    List.nil_append]

/-- **The reader ends**, and what it was shown is a beginning of what is visible: the entries that
are not obscured. -/
theorem follow_spec : ∀ (fuel position : Nat), (behind key position l).length < fuel →
    ∃ given, follow key visible limit l fuel position = some given ∧
      given <+: (behind key position l).filter visible ∧
      ∀ x, x ∈ given ↔ x ∈ behind key position l ∧ visible x = true ∧
        ¬Obscured visible limit (behind key position l) x
  | 0, _, h => absurd h (Nat.not_lt_zero _)
  | fuel + 1, position, hfuel => by
    rw [follow]
    set rest := behind key position l with hrest
    have hsplit : rest = rest.take limit ++ rest.drop limit := (List.take_append_drop _ _).symm
    cases hlast : (shown visible limit rest).getLast? with
    | none =>
      have hhidden : ∀ x ∈ rest.take limit, visible x = false := by
        intro x hx
        simpa using List.filter_eq_nil_iff.mp (List.getLast?_eq_none_iff.mp hlast) x hx
      refine ⟨[], rfl, List.nil_prefix, fun x => ⟨fun h => absurd h List.not_mem_nil, ?_⟩⟩
      rintro ⟨hx, hvisible, hclear⟩
      rw [hsplit] at hx
      rcases List.mem_append.mp hx with htake | hdrop
      · exact absurd (hhidden x htake) (by simp [hvisible])
      · refine absurd ⟨[], rest.take limit, rest.drop limit, hsplit, ?_, hhidden, hdrop⟩ hclear
        have hpos := List.length_pos_of_mem hdrop
        rw [List.length_drop] at hpos
        rw [List.length_take]
        omega
    | some last =>
      dsimp only
      split_ifs with hlength
      · have hall : shown visible limit rest = rest.filter visible := by
          rw [shown, List.take_of_length_le hlength]
        refine ⟨_, rfl, ⟨[], by rw [hall, List.append_nil]⟩, fun x => ?_⟩
        rw [hall, List.mem_filter, and_iff_left (not_obscured_of_length_le hlength x)]
      · obtain ⟨pre, hidden, htake, hvisible, hhidden⟩ := exists_last_visible hlast
        obtain ⟨post, hpost⟩ : ∃ post, post = hidden ++ rest.drop limit := ⟨_, rfl⟩
        have hrest' : rest = (pre ++ [last]) ++ post := by
          rw [hpost]
          conv_lhs => rw [hsplit, htake]
          simp
        have hrest'' : rest = pre ++ last :: post := by
          rw [hrest']
          simp
        have hshown : shown visible limit rest = (pre ++ [last]).filter visible := by
          rw [shown, htake, List.append_cons, List.filter_append (pre ++ [last]) hidden,
            filter_eq_nil_of_hidden hhidden, List.append_nil]
        have hbehind := behind_key hsorted hrest''
        have hpre : pre.length < limit := by
          have hcount := congrArg List.length htake
          simp only [List.length_take, List.length_append, List.length_cons] at hcount
          omega
        have hshorter : (behind key (key last) l).length < fuel := by
          have hcount := congrArg List.length hrest''
          simp only [List.length_append, List.length_cons] at hcount
          rw [hbehind]
          omega
        have hordered : ((pre ++ [last]) ++ post).Pairwise fun a b => key a < key b := by
          rw [← hrest']
          exact hsorted.filter _
        obtain ⟨given, hgiven, hbegins, hmem⟩ := follow_spec fuel (key last) hshorter
        rw [hbehind] at hbegins hmem
        refine ⟨shown visible limit rest ++ given, by rw [hgiven]; rfl, ?_, fun x => ?_⟩
        · rw [hshown, hrest', List.filter_append (pre ++ [last]) post]
          exact (List.prefix_append_right_inj _).mpr hbegins
        · -- what is on this page is not obscured, and not behind the page
          have hseen : x ∈ pre ++ [last] → ¬Obscured visible limit post x := by
            rintro hx ⟨before, gap, tail, rfl, -, -, htail⟩
            have hlt := (List.pairwise_append.mp hordered).2.2 x hx x
              (List.mem_append_right _ (List.mem_append_right _ htail))
            exact absurd hlt (Nat.lt_irrefl _)
          have hparts : x ∈ rest ↔ x ∈ pre ++ [last] ∨ x ∈ post := by
            rw [hrest', List.mem_append]
          have hbeyond : Obscured visible limit rest x ↔ Obscured visible limit post x := by
            rw [hrest'']
            exact obscured_append_cons hvisible hpre
          rw [List.mem_append, hmem, hshown, List.mem_filter, hparts, hbeyond]
          tauto

/-- Where nothing is hidden, the reader is shown all entries. -/
theorem follow_all (hlimit : 0 < limit) (fuel position : Nat)
    (hfuel : (behind key position l).length < fuel) :
    follow key (fun _ => true) limit l fuel position = some (behind key position l) := by
  obtain ⟨given, hgiven, ⟨more, hmore⟩, hmem⟩ :=
    @follow_spec _ key (fun _ => true) limit l hsorted fuel position hfuel
  rw [List.filter_eq_self.mpr fun _ _ => rfl] at hmore
  obtain _ | ⟨x, more⟩ := more
  · rw [hgiven, ← hmore, List.append_nil]
  · -- an entry that was not shown would be obscured, so one of the entries would be hidden
    have hx : x ∈ behind key position l := by simp [← hmore]
    have hordered : (given ++ x :: more).Pairwise fun a b => key a < key b := by
      rw [hmore]
      exact hsorted.filter _
    have hgivenx : x ∈ given := by
      refine (hmem x).mpr ⟨hx, rfl, ?_⟩
      rintro ⟨before, gap, rest, -, hgap, hhidden, -⟩
      obtain ⟨y, hy⟩ := List.exists_mem_of_length_pos (hgap ▸ hlimit)
      exact absurd (hhidden y hy) (by simp)
    exact absurd ((List.pairwise_append.mp hordered).2.2 x hgivenx x List.mem_cons_self)
      (Nat.lt_irrefl _)

end Follow

/-- The entries with a given image are counted once exactly if there is one of them. -/
theorem count_map_eq_one_iff {β : Type*} [DecidableEq β] {f : α → β} {b : β} (hnodup : l.Nodup) :
    (l.map f).count b = 1 ↔ ∃! x, x ∈ l ∧ f x = b := by
  have hcount : (l.map f).count b = (l.filter fun x => f x == b).length := by
    rw [List.count_eq_countP, List.countP_map, List.countP_eq_length_filter]
    rfl
  have hmem (x : α) : x ∈ l.filter (fun x => f x == b) ↔ x ∈ l ∧ f x = b := by simp
  have hnodup' := hnodup.filter fun x => f x == b
  rw [hcount, List.length_eq_one_iff]
  constructor
  · rintro ⟨x, hx⟩
    simp only [hx, List.mem_singleton] at hmem
    exact ⟨x, (hmem x).mp rfl, fun y hy => (hmem y).mpr hy⟩
  · rintro ⟨x, hx, hunique⟩
    refine ⟨x, List.perm_singleton.mp ?_⟩
    refine (List.perm_ext_iff_of_nodup hnodup' (List.nodup_cons.mpr (by simp))).mpr fun y => ?_
    rw [hmem, List.mem_singleton]
    exact ⟨hunique y, fun h => h ▸ hx⟩

end Infra
