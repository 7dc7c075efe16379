import Chromatin.Sync.Reconciliation

/-!
# The reconciliation exchange converges

Every message of an honest exchange cuts the key space `[minHash, maxHash)` into ranges and says
something true about its sender's items in each (`Describes`): they agree with the receiver's,
they have this count and fingerprint, or they are these. One answer of `process_ranges` keeps
this, with the roles swapped (`processRanges_spec`), and halves the larger side of every open
range, so that the exchange closes all ranges within the round limit (`Converging`).

* `reconcileLocal_exact` — `reconcile_local` returns exactly the two set differences
-/

namespace Sync

open Infra Util

variable {hi : Hash32} {sender receiver : List Hash32} {p s : Nat}
  {range : RangeEntry} {lo : Hash32}
  {n : Nat}

/-! ## What a message says -/

/-- XOR of all hashes of a list. -/
def xorAll (l : List Hash32) : Hash32 := l.foldl FixedBytes.xor minHash

/-- The fingerprint entry for the items `l` below `upper`. -/
def fingerprintOf (l : List Hash32) (upper : Hash32) : RangeEntry :=
  { upperBound := upper, mode := .fingerprint, count := UInt32.ofNat l.length,
    fingerprint := xorAll l }

/-- The item entry for the items `l` below `upper`. -/
def itemsOf (l : List Hash32) (upper : Hash32) : RangeEntry :=
  { upperBound := upper, mode := .itemList, count := UInt32.ofNat l.length, items := l }

@[simp] theorem fingerprintOf_upperBound (l : List Hash32) (upper : Hash32) :
    (fingerprintOf l upper).upperBound = upper := rfl

@[simp] theorem fingerprintOf_mode (l : List Hash32) (upper : Hash32) :
    (fingerprintOf l upper).mode = .fingerprint := rfl

@[simp] theorem itemsOf_upperBound (l : List Hash32) (upper : Hash32) :
    (itemsOf l upper).upperBound = upper := rfl

@[simp] theorem itemsOf_mode (l : List Hash32) (upper : Hash32) :
    (itemsOf l upper).mode = .itemList := rfl

@[simp] theorem itemsOf_items (l : List Hash32) (upper : Hash32) :
    (itemsOf l upper).items = l := rfl

@[simp] theorem skipEntry_upperBound (upper : Hash32) : (skipEntry upper).upperBound = upper := rfl

@[simp] theorem skipEntry_mode (upper : Hash32) : (skipEntry upper).mode = .skip := rfl

/--
What an entry of an honest message tells about the sender's items from `lower` on. In an open
range the receiver has at most `p` items and the sender at most `s`.
-/
inductive Describes (sender receiver : List Hash32) (p s : Nat) (lower : Hash32) :
    RangeEntry → Prop
  | skip {upper : Hash32} (heq : between sender lower upper = between receiver lower upper) :
    Describes sender receiver p s lower (skipEntry upper)
  | fingerprint {upper : Hash32} (hp : (between receiver lower upper).length ≤ p)
    (hs : (between sender lower upper).length ≤ s) :
    Describes sender receiver p s lower (fingerprintOf (between sender lower upper) upper)
  | items {upper : Hash32} :
    Describes sender receiver p s lower (itemsOf (between sender lower upper) upper)

/-- The entries cut `[lo, hi)` into ranges and describe the sender's items in each. -/
abbrev Tiled (sender receiver : List Hash32) (p s : Nat) (hi lo : Hash32) :
    List RangeEntry → Prop :=
  Tiles RangeEntry.upperBound (Describes sender receiver p s) hi lo

/-- Two lists agree on a range, or differ there in count or fingerprint. -/
def Distinguished (l₁ l₂ : List Hash32) (lo hi : Hash32) : Prop :=
  (between l₁ lo hi).length = (between l₂ lo hi).length →
    xorAll (between l₁ lo hi) = xorAll (between l₂ lo hi) → between l₁ lo hi = between l₂ lo hi

instance (l₁ l₂ : List Hash32) (lo hi : Hash32) : Decidable (Distinguished l₁ l₂ lo hi) := by
  unfold Distinguished
  infer_instance

theorem Distinguished.symm {l₁ l₂ : List Hash32} (h : Distinguished l₁ l₂ lo hi) :
    Distinguished l₂ l₁ lo hi :=
  fun hlen hxor => (h hlen.symm hxor.symm).symm

/-- The bounds of the fingerprint ranges of a message: the ranges its receiver compares. -/
def fingerprintBounds (lower : Hash32) (ranges : List RangeEntry) : List (Hash32 × Hash32) :=
  ((withLower RangeEntry.upperBound lower ranges).filter fun p => p.2.mode = .fingerprint).map
    fun p => (p.1, p.2.upperBound)

/-- The bounds of the ranges compared while two nodes answer each other's messages; the first
list belongs to the node that processes `ranges`. -/
def comparedRanges (processor other : List Hash32) :
    Nat → List RangeEntry → List (Hash32 × Hash32)
  | 0, _ => []
  | rounds + 1, ranges =>
    fingerprintBounds minHash ranges ++
      match processRanges processor ranges with
      | none => []
      | some result =>
        if result.complete then [] else comparedRanges other processor rounds result.responseRanges

/-- No range compared in the exchange that `initiator` starts has equal counts and fingerprints
but different items. -/
def NoCollision (initiator responder : List Hash32) : Prop :=
  ∀ p ∈ comparedRanges responder initiator MAX_RECONCILE_ROUNDS [initRange initiator],
    Distinguished initiator responder p.1 p.2

instance decidableNoCollision (initiator responder : List Hash32) :
    Decidable (NoCollision initiator responder) :=
  List.decidableBAll (fun p : Hash32 × Hash32 => Distinguished initiator responder p.1 p.2) _

/-! ## Index arithmetic of honest ranges -/

section

variable {ourSorted : List Hash32} (hs : ourSorted.Pairwise (· < ·))
  (hlen : ourSorted.length < 2 ^ 32) {lower upper : Hash32} {b e : Nat}

include hlen in
theorem sizeSub_eq (hbe : b ≤ e) (he : e ≤ ourSorted.length) : sizeSub e b = e - b := by
  unfold sizeSub
  omega

include hs in
theorem pairwise_le : ourSorted.Pairwise (· ≤ ·) := hs.imp le_of_lt

include hlen in
theorem fingerprintEntry_eq (hbe : b ≤ e) (he : e ≤ ourSorted.length) (up : Hash32) :
    fingerprintEntry ourSorted b e up = fingerprintOf (slice ourSorted b e) up := by
  rw [fingerprintEntry, fingerprintOf, sizeSub_eq hlen hbe he, length_slice he]
  rfl

include hlen in
theorem itemEntry_eq (hbe : b ≤ e) (he : e ≤ ourSorted.length) (up : Hash32) :
    itemEntry b e up (slice ourSorted b e) = itemsOf (slice ourSorted b e) up := by
  rw [itemEntry, itemsOf, sizeSub_eq hlen hbe he, length_slice he]

include hs in
theorem lowerBound_mono (h : lower ≤ upper) :
    Infra.lowerBound ourSorted lower ≤ Infra.lowerBound ourSorted upper := by
  rw [lowerBound_eq_add (pairwise_le hs) h]
  exact Nat.le_add_right _ _

include hs in
theorem assignRange_lowerBound (h : lower ≤ upper) :
    assignRange ourSorted (Infra.lowerBound ourSorted lower) (Infra.lowerBound ourSorted upper)
      = some (between ourSorted lower upper) := by
  rw [assignRange, if_pos ⟨lowerBound_mono hs h, lowerBound_le_length _ _⟩,
    slice_lowerBound (pairwise_le hs) h]

include hs hlen in
theorem itemEntry_lowerBound (h : lower ≤ upper) :
    itemEntry (Infra.lowerBound ourSorted lower) (Infra.lowerBound ourSorted upper) upper
        (between ourSorted lower upper)
      = itemsOf (between ourSorted lower upper) upper := by
  rw [← slice_lowerBound (pairwise_le hs) h]
  exact itemEntry_eq hlen (lowerBound_mono hs h) (lowerBound_le_length _ _) upper

include hs hlen in
theorem ofNat_count (h : lower ≤ upper) :
    UInt32.ofNat (sizeSub (Infra.lowerBound ourSorted upper) (Infra.lowerBound ourSorted lower))
      = UInt32.ofNat (between ourSorted lower upper).length := by
  rw [sizeSub_eq hlen (lowerBound_mono hs h) (lowerBound_le_length _ _),
    lowerBound_eq_add (pairwise_le hs) h, Nat.add_sub_cancel_left]

include hlen in
theorem length_between_lt (lo hi : Hash32) : (between ourSorted lo hi).length < 2 ^ 32 :=
  Nat.lt_of_le_of_lt (between_sublist _ _ _).length_le hlen

end

/-! ## One answer -/

theorem toNat_ofNat_lt (h : n < 2 ^ 32) : (UInt32.ofNat n).toNat = n := by
  rw [UInt32.toNat_ofNat', Nat.mod_eq_of_lt h]

theorem ofNat_le_threshold (h : n < 2 ^ 32) :
    UInt32.ofNat n ≤ SPLIT_THRESHOLD ↔ n ≤ 16 := by
  rw [UInt32.le_iff_toNat_le, toNat_ofNat_lt h]
  exact Iff.rfl

theorem ofNat_inj_of_lt {m : Nat} (hn : n < 2 ^ 32) (hm : m < 2 ^ 32)
    (h : UInt32.ofNat n = UInt32.ofNat m) : n = m := by
  rw [← toNat_ofNat_lt hn, ← toNat_ofNat_lt hm, h]

/-- Splitting at the middle item cuts the range into two non-empty halves. -/
theorem split_spec {l : List Hash32} (hs : l.Pairwise (· < ·)) (hlen : l.length < 2 ^ 32)
    {lower upper : Hash32} (hle : lower ≤ upper) (hlarge : 16 < (between l lower upper).length) :
    ∃ mid splitHash, sizeAdd (Infra.lowerBound l lower) (sizeSub (Infra.lowerBound l upper)
        (Infra.lowerBound l lower) / 2) = mid ∧
      l[mid]? = some splitHash ∧ lower ≤ splitHash ∧ splitHash ≤ upper ∧
      fingerprintEntry l (Infra.lowerBound l lower) mid splitHash
        = fingerprintOf (between l lower splitHash) splitHash ∧
      fingerprintEntry l mid (Infra.lowerBound l upper) upper
        = fingerprintOf (between l splitHash upper) upper ∧
      (between l lower splitHash).length = (between l lower upper).length / 2 ∧
      (between l splitHash upper).length
        = (between l lower upper).length - (between l lower upper).length / 2 := by
  have hle' := pairwise_le hs
  have hadd := lowerBound_eq_add hle' hle
  have hel := lowerBound_le_length l upper
  set b := Infra.lowerBound l lower with hb
  set e := Infra.lowerBound l upper with he
  set n := (between l lower upper).length with hn
  have hmid : sizeAdd b (sizeSub e b / 2) = b + n / 2 := by
    rw [sizeSub_eq hlen (by omega) hel, sizeAdd]
    omega
  have hlt : b + n / 2 < l.length := by omega
  refine ⟨b + n / 2, l[b + n / 2], hmid, List.getElem?_eq_getElem hlt, ?_⟩
  have hidx : Infra.lowerBound l l[b + n / 2] = b + n / 2 := lowerBound_getElem hs hlt
  generalize l[b + n / 2] = splitHash at hidx
  have hlo : lower ≤ splitHash := by
    by_contra hcon
    have := lowerBound_mono hs (le_of_lt (not_le.mp hcon))
    omega
  have hup : splitHash ≤ upper := by
    by_contra hcon
    have := lowerBound_mono hs (le_of_lt (not_le.mp hcon))
    omega
  have hleft := lowerBound_eq_add hle' hlo
  have hright := lowerBound_eq_add hle' hup
  refine ⟨hlo, hup, ?_, ?_, by omega, by omega⟩
  · rw [← slice_lowerBound hle' hlo, hidx, ← hb]
    exact fingerprintEntry_eq hlen (by omega) (by omega) _
  · rw [← slice_lowerBound hle' hup, hidx, ← he]
    exact fingerprintEntry_eq hlen (by omega) (by omega) _

/-- The items both nodes have in a range; the range that starts the key space counts eight more. -/
def rangeWeight (l₁ l₂ : List Hash32) (lo hi : Hash32) : Nat :=
  (between l₁ lo hi).length + (between l₂ lo hi).length + if lo = minHash ∧ lo < hi then 8 else 0

/-- Ranges come from splits of more than 16 items, so each of them has weight. -/
def Weighty (l₁ l₂ : List Hash32) (lower : Hash32) (range : RangeEntry) : Prop :=
  8 ≤ rangeWeight l₁ l₂ lower range.upperBound

theorem rangeWeight_add (l₁ l₂ : List Hash32) {a b c : Hash32} (hab : a ≤ b) (hbc : b ≤ c) :
    rangeWeight l₁ l₂ a b + rangeWeight l₁ l₂ b c = rangeWeight l₁ l₂ a c := by
  have h₁ := length_between_add hab hbc l₁
  have h₂ := length_between_add hab hbc l₂
  have hstart : (if a = minHash ∧ a < b then 8 else 0) + (if b = minHash ∧ b < c then 8 else 0)
      = if a = minHash ∧ a < c then 8 else 0 := by
    rcases eq_or_lt_of_le hab with rfl | hlt
    · simp
    · have hb : b ≠ minHash := fun h => absurd hlt (not_lt.mpr (h ▸ minHash_le a))
      simp [hb, hlt, lt_of_lt_of_le hlt hbc]
  unfold rangeWeight
  omega

/--
What the answer `result` to the entries `ranges` on `[lo, hi)` achieves. The answer describes the
receiver's items to the sender, with the two bounds exchanged and the receiver's halved.
-/
structure Answer (sender receiver : List Hash32) (p s : Nat) (hi lo : Hash32)
    (ranges : List RangeEntry) (result : ReconcileResult) : Prop where
  tiled : Tiled receiver sender s ((p + 1) / 2) hi lo result.responseRanges
  /-- the collected items are those of the received item lists -/
  haveItems : result.haveItems = itemListItems ranges
  /-- without open ranges the answer closes the exchange -/
  complete : (∀ r ∈ ranges, r.mode ≠ .fingerprint) → result.complete = true
  /-- a closing answer reveals every difference in this range -/
  reveals : result.complete = true → ∀ h, lo ≤ h → h < hi →
    (h ∈ sender → h ∉ receiver → h ∈ itemListItems ranges) ∧
      (h ∈ receiver → h ∉ sender → h ∈ itemListItems result.responseRanges)
  /-- small ranges are not split any further -/
  small : p ≤ 16 → ∀ r ∈ result.responseRanges, r.mode ≠ .fingerprint
  /-- a closing answer opens no range -/
  closed : result.complete = true → ∀ r ∈ result.responseRanges, r.mode ≠ .fingerprint
  /-- closing ranges none of which is an item list means that both sides agree -/
  agree : result.complete = true → (∀ r ∈ ranges, r.mode ≠ .itemList) →
    ∀ h, lo ≤ h → h < hi → (h ∈ sender ↔ h ∈ receiver)
  weighty : Tiles RangeEntry.upperBound (Weighty sender receiver) hi lo ranges →
    Tiles RangeEntry.upperBound (Weighty sender receiver) hi lo result.responseRanges

@[simp] theorem itemListItems_append (l₁ l₂ : List RangeEntry) :
    itemListItems (l₁ ++ l₂) = itemListItems l₁ ++ itemListItems l₂ := by
  simp [itemListItems]

/-- Two lists with the same items in a range have no difference in it. -/
theorem no_difference {l₁ l₂ : List Hash32} {h : Hash32}
    (heq : between l₁ lo hi = between l₂ lo hi) (hlo : lo ≤ h) (hhi : h < hi) :
    h ∈ l₁ ↔ h ∈ l₂ := by
  have hmem : h ∈ between l₁ lo hi ↔ h ∈ between l₂ lo hi := by rw [heq]
  simpa [hlo, hhi] using hmem

theorem Answer.cons
    {rest : List RangeEntry} {r₁ r₂ : ReconcileResult}
    (h₁ : Answer sender receiver p s range.upperBound lo [range] r₁)
    (h₂ : Answer sender receiver p s hi range.upperBound rest r₂) :
    Answer sender receiver p s hi lo (range :: rest)
      ⟨r₁.responseRanges ++ r₂.responseRanges, r₁.haveItems ++ r₂.haveItems,
        r₁.complete && r₂.complete⟩ := by
  have hitems : itemListItems (range :: rest) = itemListItems [range] ++ itemListItems rest :=
    itemListItems_append [range] rest
  refine ⟨h₁.tiled.append h₂.tiled, ?_, ?_, ?_, ?_, ?_, ?_, ?_⟩
  · rw [h₁.haveItems, h₂.haveItems, hitems]
  · intro hfp
    rw [h₁.complete fun r hr => hfp r (List.mem_singleton.mp hr ▸ List.mem_cons_self ..),
      h₂.complete fun r hr => hfp r (List.mem_cons_of_mem _ hr)]
    rfl
  · intro hc h hlo hhi
    simp only [Bool.and_eq_true] at hc
    simp only [hitems, itemListItems_append, List.mem_append]
    rcases lt_or_ge h range.upperBound with hm | hm
    · obtain ⟨hS, hR⟩ := h₁.reveals hc.1 h hlo hm
      exact ⟨fun a b => Or.inl (hS a b), fun a b => Or.inl (hR a b)⟩
    · obtain ⟨hS, hR⟩ := h₂.reveals hc.2 h hm hhi
      exact ⟨fun a b => Or.inr (hS a b), fun a b => Or.inr (hR a b)⟩
  · intro hp r hr
    rcases List.mem_append.mp hr with hr | hr
    · exact h₁.small hp r hr
    · exact h₂.small hp r hr
  · intro hc r hr
    simp only [Bool.and_eq_true] at hc
    rcases List.mem_append.mp hr with hr | hr
    · exact h₁.closed hc.1 r hr
    · exact h₂.closed hc.2 r hr
  · intro hc hmode h hlo hhi
    simp only [Bool.and_eq_true] at hc
    rcases lt_or_ge h range.upperBound with hm | hm
    · refine h₁.agree hc.1 (fun r hr => ?_) h hlo hm
      exact hmode r (List.mem_singleton.mp hr ▸ List.mem_cons_self ..)
    · exact h₂.agree hc.2 (fun r hr => hmode r (List.mem_cons_of_mem _ hr)) h hm hhi
  · rintro ⟨hle, hw, hrest⟩
    exact (h₁.weighty (Tiles.single hle hw)).append (h₂.weighty hrest)

/-- A range on which both sides agree is closed by a skip. -/
theorem answer_skip {lower : Hash32}
    (hle : lower ≤ range.upperBound) (hmode : range.mode ≠ .itemList)
    (heq : between sender lower range.upperBound = between receiver lower range.upperBound) :
    Answer sender receiver p s range.upperBound lower [range]
      ⟨[skipEntry range.upperBound], [], true⟩ where
  tiled := Tiles.single hle (Describes.skip heq.symm)
  haveItems := by simp [itemListItems, hmode]
  complete _ := rfl
  reveals _ h hlo hhi := by
    have hiff := no_difference heq hlo hhi
    exact ⟨fun hS hR => absurd (hiff.mp hS) hR, fun hR hS => absurd (hiff.mpr hR) hS⟩
  small _ r hr := by
    rw [List.mem_singleton] at hr
    subst hr
    simp
  closed _ r hr := by
    rw [List.mem_singleton] at hr
    subst hr
    simp
  agree _ _ h hlo hhi := no_difference heq hlo hhi
  weighty h := ⟨h.1, h.2.1, rfl⟩

/-- A range answered by the receiver's items stays open, but without a fingerprint. -/
theorem answer_items {lower : Hash32}
    (hle : lower ≤ range.upperBound) (hmode : range.mode = .fingerprint) :
    Answer sender receiver p s range.upperBound lower [range]
      ⟨[itemsOf (between receiver lower range.upperBound) range.upperBound], [], false⟩ where
  tiled := Tiles.single hle Describes.items
  haveItems := by simp [itemListItems, hmode]
  complete hfp := absurd hmode (hfp range (List.mem_singleton_self _))
  reveals hc := absurd hc (by simp)
  small _ r hr := by
    rw [List.mem_singleton] at hr
    subst hr
    simp
  closed hc := absurd hc (by simp)
  agree hc := absurd hc (by simp)
  weighty h := ⟨h.1, h.2.1, rfl⟩

/-- A range answered by its two halves: each has half of the receiver's items. -/
theorem answer_split {lower splitHash : Hash32}
    (hlo : lower ≤ splitHash) (hup : splitHash ≤ range.upperBound)
    (hmode : range.mode = .fingerprint)
    (hp : (between receiver lower range.upperBound).length ≤ p)
    (hs : (between sender lower range.upperBound).length ≤ s)
    (hlarge : 16 < (between receiver lower range.upperBound).length)
    (hleft : (between receiver lower splitHash).length
      = (between receiver lower range.upperBound).length / 2) :
    Answer sender receiver p s range.upperBound lower [range]
      ⟨[fingerprintOf (between receiver lower splitHash) splitHash,
        fingerprintOf (between receiver splitHash range.upperBound) range.upperBound], [],
        false⟩ := by
  have hR := length_between_add hlo hup receiver
  have hS := length_between_add hlo hup sender
  refine ⟨⟨hlo, Describes.fingerprint (by omega) (by omega), ?_⟩, by simp [itemListItems, hmode],
    fun hfp => absurd hmode (hfp range (List.mem_singleton_self _)),
    fun hc => absurd hc (by simp), fun hp16 => by omega, fun hc => absurd hc (by simp),
    fun hc => absurd hc (by simp), fun _ => ⟨hlo, ?_, hup, ?_, rfl⟩⟩
  · exact ⟨hup, Describes.fingerprint (by simp only [fingerprintOf_upperBound]; omega)
      (by simp only [fingerprintOf_upperBound]; omega), rfl⟩
  · simp only [Weighty, rangeWeight, fingerprintOf_upperBound]
    omega
  · simp only [Weighty, rangeWeight, fingerprintOf_upperBound]
    omega

/-- **The answer to one honest entry.** -/
theorem performAction_answer (hs : receiver.Pairwise (· < ·))
    (hR : receiver.length < 2 ^ 32) (hS : sender.length < 2 ^ 32) {lower : Hash32}
    (hle : lower ≤ range.upperBound)
    (hd : Describes sender receiver p s lower range)
    (hdist : range.mode = .fingerprint → Distinguished sender receiver lower range.upperBound) :
    ∃ result, performAction receiver range (rangeAction receiver lower range) = some result ∧
      Answer sender receiver p s range.upperBound lower [range] result := by
  have hassign := assignRange_lowerBound hs hle
  have hentry := itemEntry_lowerBound hs hR hle
  have hcount := ofNat_count hs hR hle
  have hslice := slice_lowerBound (pairwise_le hs) hle
  cases hd with
  | @skip upper heq =>
    rw [rangeAction_skip _ _ rfl]
    exact ⟨_, rfl, answer_skip hle (by simp) heq⟩
  | @items upper =>
    rw [itemsOf_upperBound] at hassign hentry
    rw [rangeAction_itemList _ _ rfl, itemsOf_upperBound]
    refine ⟨⟨[itemsOf (between receiver lower upper) upper], between sender lower upper, true⟩,
      by simp [performAction, hassign, hentry], Tiles.single hle Describes.items,
      by simp [itemListItems], fun _ => rfl, fun _ h hlo hhi => ?_, fun _ r hr => ?_,
      fun _ r hr => ?_, fun _ hmode => absurd rfl (hmode _ (List.mem_singleton_self _)),
      fun h => ⟨h.1, h.2.1, rfl⟩⟩
    · simp only [itemListItems, itemsOf_mode, itemsOf_items, decide_true, List.filter_cons_of_pos,
        List.filter_nil, List.flatMap_cons, List.flatMap_nil, List.append_nil, mem_between]
      exact ⟨fun h' _ => ⟨h', hlo, hhi⟩, fun h' _ => ⟨h', hlo, hhi⟩⟩
    · rw [List.mem_singleton] at hr
      subst hr
      simp
    · rw [List.mem_singleton] at hr
      subst hr
      simp
  | @fingerprint upper hp hsn =>
    have hRlt := length_between_lt hR lower upper
    have hSlt := length_between_lt hS lower upper
    have hmode : (fingerprintOf (between sender lower upper) upper).mode = .fingerprint := rfl
    have hdist := hdist hmode
    simp only [fingerprintOf_upperBound] at hassign hentry hcount hslice hdist
    rcases rangeAction_fingerprint receiver lower hmode rfl rfl with
      ⟨hact, hfp, hcnt⟩ | ⟨hact, hsmall⟩ | ⟨hact, hlarge⟩
    · refine ⟨_, by rw [hact]; rfl, answer_skip hle (by simp) (hdist ?_ ?_)⟩
      · rw [fingerprintOf_upperBound, hcount] at hcnt
        exact (ofNat_inj_of_lt hRlt hSlt hcnt).symm
      · rw [fingerprintOf_upperBound, xorFingerprint, hslice] at hfp
        exact hfp.symm
    · refine ⟨_, ?_, answer_items hle hmode⟩
      rw [hact, fingerprintOf_upperBound]
      simp [performAction, hassign, hentry]
    · rw [fingerprintOf_upperBound, hcount, ofNat_le_threshold hRlt, Nat.not_le] at hlarge
      obtain ⟨mid, splitHash, hmid, hget, hlo, hup, hleft, hright, hhalf, -⟩ :=
        split_spec hs hR hle hlarge
      refine ⟨_, ?_, answer_split hlo hup hmode hp hsn hlarge hhalf⟩
      rw [fingerprintOf_upperBound] at hmid hact
      rw [hact, hmid]
      simp only [fingerprintOf_upperBound] at hright ⊢
      simp [performAction, hget, hleft, hright]

/-! ## One round -/

/-- The ranges the receiver of a message compares are distinguished. -/
def RoundDistinguished (sender receiver : List Hash32) (lower : Hash32)
    (ranges : List RangeEntry) : Prop :=
  ∀ b ∈ fingerprintBounds lower ranges, Distinguished sender receiver b.1 b.2

theorem processFrom_answer (hs : receiver.Pairwise (· < ·))
    (hR : receiver.length < 2 ^ 32) (hS : sender.length < 2 ^ 32) :
    ∀ {lower : Hash32} {ranges : List RangeEntry}, Tiled sender receiver p s hi lower ranges →
    RoundDistinguished sender receiver lower ranges →
    ∃ result, processFrom receiver lower ranges = some result ∧
      Answer sender receiver p s hi lower ranges result
  | lower, [], ht, _ => by
    refine ⟨_, rfl, ht, rfl, fun _ => rfl, fun _ h hlo hhi => ?_, fun _ r hr => ?_,
      fun _ r hr => ?_, fun _ _ h hlo hhi => ?_, id⟩
    · exact absurd (lt_of_le_of_lt hlo hhi) (not_lt.mpr (le_of_eq ht.symm))
    · simp at hr
    · simp at hr
    · exact absurd (lt_of_le_of_lt hlo hhi) (not_lt.mpr (le_of_eq ht.symm))
  | lower, range :: rest, ⟨hle, hd, hrest⟩, hdist => by
    have hhead : range.mode = .fingerprint →
        Distinguished sender receiver lower range.upperBound := by
      intro hmode
      exact hdist (lower, range.upperBound) (by simp [fingerprintBounds, withLower, hmode])
    have htail : RoundDistinguished sender receiver range.upperBound rest := by
      intro b hb
      refine hdist b ?_
      rw [fingerprintBounds, List.mem_map] at hb ⊢
      obtain ⟨q, hq, rfl⟩ := hb
      rw [List.mem_filter] at hq
      exact ⟨q, List.mem_filter.mpr ⟨List.mem_cons_of_mem _ hq.1, hq.2⟩, rfl⟩
    obtain ⟨r, hr, hra⟩ := performAction_answer hs hR hS hle hd hhead
    obtain ⟨rs, hrs, hrsa⟩ := processFrom_answer hs hR hS hrest htail
    exact ⟨_, by simp [processFrom, hr, hrs], hra.cons hrsa⟩

/-- The exchange closes within `rounds` more answers: open ranges are small enough for that, or
there are none left. -/
def Converging (sender receiver : List Hash32) (rounds : Nat) (ranges : List RangeEntry) : Prop :=
  (∃ i k, i + k + 2 ≤ rounds ∧
      Tiled sender receiver (2 ^ (4 + i)) (2 ^ (4 + k)) maxHash minHash ranges) ∨
    ∃ p s, 1 ≤ rounds ∧ Tiled sender receiver p s maxHash minHash ranges ∧
      ∀ r ∈ ranges, r.mode ≠ .fingerprint

theorem Tiled.items_mem {h : Hash32} :
    ∀ {lo : Hash32} {ranges : List RangeEntry}, Tiled sender receiver p s hi lo ranges →
    h ∈ itemListItems ranges → h ∈ sender
  | _, [], _, hmem => by simp [itemListItems] at hmem
  | lo, r :: rest, ⟨_, hd, hrest⟩, hmem => by
    have hsplit : itemListItems (r :: rest) = itemListItems [r] ++ itemListItems rest :=
      itemListItems_append [r] rest
    rw [hsplit, List.mem_append] at hmem
    rcases hmem with hmem | hmem
    · cases hd with
      | skip heq => simp [itemListItems] at hmem
      | fingerprint hp hs => simp [itemListItems] at hmem
      | items =>
        simp only [itemListItems, itemsOf_mode, itemsOf_items, decide_true,
          List.filter_cons_of_pos, List.filter_nil, List.flatMap_cons, List.flatMap_nil,
          List.append_nil, mem_between] at hmem
        exact hmem.1
    · exact Tiled.items_mem hrest hmem

/-- **One answer brings the exchange a round closer to its end.** -/
theorem Converging.answer (hs : receiver.Pairwise (· < ·))
    (hR : receiver.length < 2 ^ 32) (hS : sender.length < 2 ^ 32) {rounds : Nat}
    {ranges : List RangeEntry} (hc : Converging sender receiver (rounds + 1) ranges)
    (hdist : RoundDistinguished sender receiver minHash ranges) :
    ∃ p s result, processRanges receiver ranges = some result ∧
      Tiled sender receiver p s maxHash minHash ranges ∧
      Answer sender receiver p s maxHash minHash ranges result ∧
      ((∀ r ∈ ranges, r.mode ≠ .fingerprint) ∨
        Converging receiver sender rounds result.responseRanges) := by
  rcases hc with ⟨i, k, hik, ht⟩ | ⟨p, s, _, ht, hfp⟩
  · obtain ⟨result, hres, hans⟩ := processFrom_answer hs hR hS ht hdist
    refine ⟨_, _, result, hres, ht, hans, Or.inr ?_⟩
    cases i with
    | zero => exact Or.inr ⟨_, _, by omega, hans.tiled, hans.small (Nat.le_refl 16)⟩
    | succ i =>
      refine Or.inl ⟨k, i, by omega, ?_⟩
      have hhalf : (2 ^ (4 + (i + 1)) + 1) / 2 = 2 ^ (4 + i) := by
        rw [show 4 + (i + 1) = 4 + i + 1 by omega, Nat.pow_succ]
        omega
      rw [← hhalf]
      exact hans.tiled
  · obtain ⟨result, hres, hans⟩ := processFrom_answer hs hR hS ht hdist
    exact ⟨p, s, result, hres, ht, hans, Or.inl hfp⟩

theorem initRange_eq {l : List Hash32} (hlen : l.length < 2 ^ 32)
    (hmax : maxHash ∉ l) : initRange l = fingerprintOf (between l minHash maxHash) maxHash := by
  have hall : between l minHash maxHash = l := by
    rw [between, List.filter_eq_self]
    intro h hh
    have hne : h ≠ maxHash := fun he => hmax (he ▸ hh)
    simpa [minHash_le h] using lt_maxHash hne
  rw [initRange, fingerprintEntry_eq hlen (Nat.zero_le _) (Nat.le_refl _), hall]
  simp [slice]

/-- The opening message: both sides may have up to `2 ^ 32` items in its only range. -/
theorem converging_initRange {initiator responder : List Hash32} (hI : initiator.length < 2 ^ 32)
    (hR : responder.length < 2 ^ 32) (hmax : maxHash ∉ initiator) {rounds : Nat}
    (hrounds : 58 ≤ rounds) : Converging initiator responder rounds [initRange initiator] := by
  refine Or.inl ⟨28, 28, by omega, ?_⟩
  rw [initRange_eq hI hmax]
  exact Tiles.single (minHash_le _) (Describes.fingerprint
    (Nat.le_of_lt (length_between_lt hR _ _)) (Nat.le_of_lt (length_between_lt hI _ _)))

/-! ## The local simulation -/

/-- The collected items belong to their owners. -/
def LocalState.Sound (sortedA sortedB : List Hash32) (st : LocalState) : Prop :=
  (∀ h ∈ st.itemsFromA, h ∈ sortedA) ∧ ∀ h ∈ st.itemsFromB, h ∈ sortedB

/-- The collected items contain every difference below `maxHash`. -/
def LocalState.Covers (sortedA sortedB : List Hash32) (st : LocalState) : Prop :=
  ∀ h < maxHash, (h ∈ sortedA → h ∉ sortedB → h ∈ st.itemsFromA) ∧
    (h ∈ sortedB → h ∉ sortedA → h ∈ st.itemsFromB)

/-- The list of the node that processes the current ranges. -/
def LocalState.processor (sortedA sortedB : List Hash32) (st : LocalState) : List Hash32 :=
  if st.aTurn then sortedA else sortedB

/-- The list of the node that sent the current ranges. -/
def LocalState.other (sortedA sortedB : List Hash32) (st : LocalState) : List Hash32 :=
  if st.aTurn then sortedB else sortedA

section

variable {sortedA sortedB : List Hash32} {st : LocalState} {result : ReconcileResult}

/-- What holds of both lists holds of the processor's and the other node's. -/
theorem LocalState.both {P : List Hash32 → Prop} (hA : P sortedA) (hB : P sortedB)
    (st : LocalState) : P (st.processor sortedA sortedB) ∧ P (st.other sortedA sortedB) := by
  unfold LocalState.processor LocalState.other
  split
  · exact ⟨hA, hB⟩
  · exact ⟨hB, hA⟩

/-- Passing the turn swaps the roles. -/
theorem LocalState.swapped {next : LocalState} (hturn : next.aTurn = !st.aTurn) :
    next.processor sortedA sortedB = st.other sortedA sortedB ∧
      next.other sortedA sortedB = st.processor sortedA sortedB := by
  simp only [LocalState.processor, LocalState.other, hturn]
  by_cases h : st.aTurn = true <;> simp [h]

theorem LocalState.Sound.collect (hsound : st.Sound sortedA sortedB)
    (hreceived : ∀ h ∈ itemListItems st.currentRanges ++ result.haveItems,
      h ∈ st.other sortedA sortedB)
    (hrevealed : ∀ h ∈ itemListItems result.responseRanges, h ∈ st.processor sortedA sortedB) :
    (st.collect result).Sound sortedA sortedB := by
  unfold LocalState.other at hreceived
  unfold LocalState.processor at hrevealed
  unfold LocalState.collect LocalState.Sound
  cases hturn : st.aTurn <;> simp only [hturn, Bool.false_eq_true, if_false, if_true] at *
  · constructor <;> intro h hh <;> rcases Finset.mem_union.mp hh with hh | hh
    · exact hsound.1 h hh
    · exact hreceived h (List.mem_toFinset.mp hh)
    · exact hsound.2 h hh
    · exact hrevealed h (List.mem_toFinset.mp hh)
  · constructor <;> intro h hh <;> rcases Finset.mem_union.mp hh with hh | hh
    · exact hsound.1 h hh
    · exact hrevealed h (List.mem_toFinset.mp hh)
    · exact hsound.2 h hh
    · exact hreceived h (List.mem_toFinset.mp hh)

theorem LocalState.covers_collect
    (hans : Answer (st.other sortedA sortedB) (st.processor sortedA sortedB) p s maxHash minHash
      st.currentRanges result) (hcomplete : result.complete = true) :
    (st.collect result).Covers sortedA sortedB := by
  intro h hmax
  obtain ⟨hO, hP⟩ := hans.reveals hcomplete h (minHash_le h) hmax
  unfold LocalState.other LocalState.processor at hO hP
  unfold LocalState.collect
  cases hturn : st.aTurn <;> simp only [hturn, Bool.false_eq_true, if_false, if_true] at *
  · exact ⟨fun hA hB => Finset.mem_union_right _ (by simp [hO hA hB]),
      fun hB hA => Finset.mem_union_right _ (by simp [hP hB hA])⟩
  · exact ⟨fun hA hB => Finset.mem_union_right _ (by simp [hP hA hB]),
      fun hB hA => Finset.mem_union_right _ (by simp [hO hB hA])⟩

end

/-- **The rounds of `reconcile_local` end with all differences collected.** By induction on the
rounds that are left; every answer uses one of them up. -/
theorem localRounds_spec {sortedA sortedB : List Hash32} (hA : sortedA.Pairwise (· < ·))
    (hB : sortedB.Pairwise (· < ·)) (hlenA : sortedA.length < 2 ^ 32)
    (hlenB : sortedB.length < 2 ^ 32) : ∀ (rounds : Nat) (st : LocalState),
    st.Sound sortedA sortedB →
    Converging (st.other sortedA sortedB) (st.processor sortedA sortedB) rounds
      st.currentRanges →
    (∀ b ∈ comparedRanges (st.processor sortedA sortedB) (st.other sortedA sortedB) rounds
      st.currentRanges, Distinguished sortedA sortedB b.1 b.2) →
    ∃ st', localRounds sortedA sortedB rounds st = some st' ∧ st'.Sound sortedA sortedB ∧
      st'.Covers sortedA sortedB
  | 0, st, _, hc, _ => by
    rcases hc with ⟨i, k, h, _⟩ | ⟨p, s, h, _⟩ <;> omega
  | rounds + 1, st, hsound, hc, hdist => by
    obtain ⟨hlenP, hlenO⟩ := LocalState.both (P := fun l => l.length < 2 ^ 32) hlenA hlenB st
    have hsorted := (LocalState.both (P := fun l => l.Pairwise (· < ·)) hA hB st).1
    have hround : RoundDistinguished (st.other sortedA sortedB) (st.processor sortedA sortedB)
        minHash st.currentRanges := by
      intro b hb
      have hAB := hdist b (List.mem_append_left _ hb)
      unfold LocalState.other LocalState.processor
      split
      · exact hAB.symm
      · exact hAB
    obtain ⟨p, s, result, hres, ht, hans, hnext⟩ := hc.answer hsorted hlenP hlenO hround
    have hsound' : (st.collect result).Sound sortedA sortedB := by
      refine hsound.collect (fun h hh => ?_) fun h hh => hans.tiled.items_mem hh
      rw [hans.haveItems, List.mem_append, or_self] at hh
      exact ht.items_mem hh
    have hprocess : processRanges (if st.aTurn then sortedA else sortedB) st.currentRanges
        = some result := hres
    rw [localRounds, hprocess]
    simp only [Option.bind_eq_bind, Option.bind_some]
    by_cases hcomplete : result.complete = true
    · rw [if_pos hcomplete]
      exact ⟨_, rfl, hsound', LocalState.covers_collect hans hcomplete⟩
    · rw [if_neg hcomplete]
      -- the roles swap: who answered now waits for the other node's answer
      set next : LocalState :=
        { st.collect result with currentRanges := result.responseRanges, aTurn := !st.aTurn }
      obtain ⟨hproc, hother⟩ : next.processor sortedA sortedB = st.other sortedA sortedB ∧
          next.other sortedA sortedB = st.processor sortedA sortedB := LocalState.swapped rfl
      refine localRounds_spec hA hB hlenA hlenB rounds next hsound' ?_ ?_
      · rw [hproc, hother]
        exact hnext.resolve_left fun hfp => hcomplete (hans.complete hfp)
      · rw [hproc, hother]
        intro b hb
        refine hdist b (List.mem_append_right _ ?_)
        rw [hres]
        simp only [hcomplete, Bool.false_eq_true, if_false]
        exact hb

/--
**`reconcile_local` is exact.** For strictly sorted lists of fewer than `2 ^ 32` hashes, none of
them all-`0xFF`, and without a collision on a compared range, the simulation ends and returns
exactly the hashes of `B` missing from `A` and the hashes of `A` missing from `B`.
-/
theorem reconcileLocal_exact {sortedA sortedB : List Hash32} (hA : sortedA.Pairwise (· < ·))
    (hB : sortedB.Pairwise (· < ·)) (hlenA : sortedA.length < 2 ^ 32)
    (hlenB : sortedB.length < 2 ^ 32) (hmaxA : maxHash ∉ sortedA) (hmaxB : maxHash ∉ sortedB)
    (hcoll : NoCollision sortedA sortedB) :
    ∃ bNotInA aNotInB, reconcileLocal sortedA sortedB = some (bNotInA, aNotInB) ∧
      (∀ h, h ∈ bNotInA ↔ h ∈ sortedB ∧ h ∉ sortedA) ∧
      ∀ h, h ∈ aNotInB ↔ h ∈ sortedA ∧ h ∉ sortedB := by
  obtain ⟨st, hrun, ⟨hsoundA, hsoundB⟩, hcov⟩ := localRounds_spec hA hB hlenA hlenB
    MAX_RECONCILE_ROUNDS
    { currentRanges := [initRange sortedA], aTurn := false, itemsFromA := ∅, itemsFromB := ∅ }
    ⟨by simp, by simp⟩ (converging_initRange hlenA hlenB hmaxA (by decide)) hcoll
  have hlt : ∀ {l : List Hash32} {h : Hash32}, maxHash ∉ l → h ∈ l → h < maxHash :=
    fun hmax hh => lt_maxHash fun he => hmax (he ▸ hh)
  refine ⟨_, _, by rw [reconcileLocal, hrun]; rfl, fun h => ?_, fun h => ?_⟩
  · rw [Finset.mem_sort, Finset.mem_filter]
    exact ⟨fun hh => ⟨hsoundB h hh.1, hh.2⟩,
      fun hh => ⟨(hcov h (hlt hmaxB hh.1)).2 hh.1 hh.2, hh.2⟩⟩
  · rw [Finset.mem_sort, Finset.mem_filter]
    exact ⟨fun hh => ⟨hsoundA h hh.1, hh.2⟩,
      fun hh => ⟨(hcov h (hlt hmaxA hh.1)).1 hh.1 hh.2, hh.2⟩⟩

/-- `n` hashes of equal bytes, in order. -/
def sampleHashes (first n : Nat) : List Hash32 :=
  (List.range' first n).map fun i => FixedBytes.fill 32 (UInt8.ofNat i)

/-- An empty list collides with no other one. -/
theorem distinguished_nil (l : List Hash32) (lo hi : Hash32) : Distinguished [] l lo hi :=
  fun hlen _ => (List.length_eq_zero_iff.mp hlen.symm).symm

/-- Fifteen hashes in common, three of `A` alone and five of `B` alone. -/
theorem noCollision_sample : NoCollision (sampleHashes 1 18) (sampleHashes 4 20) := by
  decide +kernel

/-- More hashes than are sent as items, so that the first answer is a split. -/
theorem reconcileLocal_exact_sample :
    ∃ bNotInA aNotInB,
      reconcileLocal (sampleHashes 1 18) (sampleHashes 4 20) = some (bNotInA, aNotInB) ∧
      (∀ h, h ∈ bNotInA ↔ h ∈ sampleHashes 4 20 ∧ h ∉ sampleHashes 1 18) ∧
      ∀ h, h ∈ aNotInB ↔ h ∈ sampleHashes 1 18 ∧ h ∉ sampleHashes 4 20 :=
  reconcileLocal_exact (by decide) (by decide) (by decide) (by decide) (by decide) (by decide)
    noCollision_sample

end Sync
