import Chromatin.Properties.Reconciliation
import Chromatin.Peer.ReconcileLoop

/-!
# The two reconciliation loops stay in lockstep

The loops of `run_sync_with_peer` and `handle_sync_as_responder` exchange one message at a time:
in every reachable state at most one message is in flight, and the side it is addressed to waits
for it (`Lockstep`). The invariant also bounds the deliveries that are still to come, so the
exchange of a namespace ends before either loop runs into `MAX_RECONCILE_ROUNDS`.

* `exchange_agreement` — under every schedule both loops leave the namespace after the same
  exchange, with exactly the other side's hashes they do not have
-/

namespace Peer

open Infra Util Sync

variable {t : Nat} {items other : List Hash32} {own pI pR : List Hash32} {k m : Nat} {ex : Exchange}
  {sender receiver : List Hash32} {p s : Nat} {ranges : List RangeEntry}

/-! ## Honest messages survive the wire -/

section

variable {h : Hash32}

theorem Tiled.canonical (hS : sender.length < 2 ^ 32) {hi : Hash32} :
    ∀ {lo : Hash32} {ranges : List RangeEntry}, Tiled sender receiver p s hi lo ranges →
    ∀ r ∈ ranges, r.Canonical
  | _, [], _, r, hr => by simp at hr
  | lo, x :: rest, ⟨_, hd, hrest⟩, r, hr => by
    rcases List.mem_cons.mp hr with rfl | hr
    · cases hd with
      | skip heq => simp [RangeEntry.Canonical, skipEntry]
      | fingerprint hp hs => simp [RangeEntry.Canonical, fingerprintOf]
      | items => exact ⟨rfl, toNat_ofNat_lt (length_between_lt hS _ _)⟩
    · exact Tiled.canonical hS hrest r hr

/-- A tiling whose ranges all have weight has fewer than `2 ^ 32` entries. -/
theorem length_lt_of_weighty (hS : sender.length < 2 ^ 32) (hR : receiver.length < 2 ^ 32)
    (hw : Tiles RangeEntry.upperBound (Weighty sender receiver) maxHash minHash ranges) :
    ranges.length < 2 ^ 32 := by
  have hsum := hw.sum_le (f := rangeWeight sender receiver) (g := fun _ => 8)
    (fun hab hbc => rangeWeight_add sender receiver hab hbc) fun q hq => (hw.forall_mem q hq).2
  rw [List.map_const', List.sum_replicate_nat, length_withLower] at hsum
  have hwhole : rangeWeight sender receiver minHash maxHash ≤
      sender.length + receiver.length + 8 := by
    have h₁ := (between_sublist sender minHash maxHash).length_le
    have h₂ := (between_sublist receiver minHash maxHash).length_le
    unfold rangeWeight
    split <;> omega
  omega

/-- **A range message of an honest exchange is decoded to itself.** -/
theorem decode_honest (hS : sender.length < 2 ^ 32) (hR : receiver.length < 2 ^ 32)
    (ht : Tiled sender receiver p s maxHash minHash ranges)
    (hw : Tiles RangeEntry.upperBound (Weighty sender receiver) maxHash minHash ranges)
    (ns : Hash32) :
    decodeReconcileRanges (encodeReconcileRanges ns ranges) = some ⟨ns, ranges⟩ :=
  decodeReconcileRanges_encode ns (length_lt_of_weighty hS hR hw) (Tiled.canonical hS ht)

theorem Tiled.ne_nil (ht : Tiled sender receiver p s maxHash minHash ranges) : ranges ≠ [] := by
  rintro rfl
  have hne : minHash ≠ maxHash := by decide
  exact hne ht

/-! ## The final exchange -/

theorem mem_ourRangeItems_iff (hs : receiver.Pairwise (· < ·))
    (ht : Tiled sender receiver p s maxHash minHash ranges) :
    h ∈ ourRangeItems receiver ranges ↔ ∃ q ∈ withLower RangeEntry.upperBound minHash ranges,
      q.2.mode = .itemList ∧ h ∈ between receiver q.1 q.2.upperBound := by
  rw [ourRangeItems, List.mem_flatMap]
  refine exists_congr fun q => and_congr_right fun hq => ?_
  have hslice := slice_lowerBound (pairwise_le hs) (ht.forall_mem q hq).1
  by_cases hmode : q.2.mode = .itemList
  · simp only [hmode, if_true, rangeIndices, hslice, true_and]
  · simp [hmode]

theorem mem_itemListItems_of_tile {q : Hash32 × RangeEntry}
    (hq : q ∈ withLower RangeEntry.upperBound minHash ranges) (hmode : q.2.mode = .itemList)
    (hh : h ∈ q.2.items) : h ∈ itemListItems ranges := by
  rw [itemListItems, List.mem_flatMap]
  exact ⟨q.2, List.mem_filter.mpr ⟨mem_of_mem_withLower hq, by simpa using hmode⟩, hh⟩

/-- Without open ranges, the items of the message and ours for its ranges are all differences. -/
theorem final_reveals (hs : receiver.Pairwise (· < ·))
    (ht : Tiled sender receiver p s maxHash minHash ranges)
    (hfp : ∀ r ∈ ranges, r.mode ≠ .fingerprint) (hmax : h < maxHash) :
    (h ∈ sender → h ∉ receiver → h ∈ itemListItems ranges) ∧
      (h ∈ receiver → h ∉ sender → h ∈ ourRangeItems receiver ranges) := by
  obtain ⟨⟨lo, r⟩, hq, hlo, hhi, hd⟩ := ht.exists_mem (minHash_le h) hmax
  have hopen := hfp r (mem_of_mem_withLower hq)
  dsimp only at hlo hhi hd
  cases hd with
  | skip heq =>
    have hiff := no_difference heq hlo hhi
    exact ⟨fun hS hR => absurd (hiff.mp hS) hR, fun hR hS => absurd (hiff.mpr hR) hS⟩
  | fingerprint hp hsn => exact absurd rfl hopen
  | items =>
    refine ⟨fun hS _ => mem_itemListItems_of_tile hq rfl ?_, fun hR _ => ?_⟩
    · exact mem_between.mpr ⟨hS, hlo, hhi⟩
    · exact (mem_ourRangeItems_iff hs ht).mpr ⟨_, hq, rfl, mem_between.mpr ⟨hR, hlo, hhi⟩⟩

end

/-! ## One message in flight -/

def rangesMessage (ns : Hash32) (ranges : List RangeEntry) : SyncMessage :=
  ⟨.reconcileRanges, encodeReconcileRanges ns ranges⟩

def itemsMessage (ns : Hash32) (items : List Hash32) : SyncMessage :=
  ⟨.reconcileItems, encodeReconcileItems ns items⟩

/-- After `t` deliveries a range message of an honest exchange is on its way. -/
structure InFlight (sender receiver : List Hash32) (t : Nat) (ranges : List RangeEntry) : Prop where
  converging : ∃ n, t + n ≤ 58 ∧ Converging sender receiver n ranges
  weighty : Tiles RangeEntry.upperBound (Weighty sender receiver) maxHash minHash ranges
  distinguished : (∀ r ∈ ranges, r.mode ≠ .fingerprint) ∨
    ∀ b ∈ comparedRanges receiver sender (MAX_RECONCILE_ROUNDS - t) ranges,
      Distinguished sender receiver b.1 b.2

theorem weighty_symm {l₁ l₂ : List Hash32} {lo : Hash32} {r : RangeEntry} (h : Weighty l₁ l₂ lo r) :
    Weighty l₂ l₁ lo r := by
  unfold Weighty rangeWeight at h ⊢
  omega

theorem hasFingerprint_eq_false :
    hasFingerprint ranges = false ↔ ∀ r ∈ ranges, r.mode ≠ .fingerprint := by
  simp [hasFingerprint]

/-- Of the ranges still to be compared, those of this round. -/
theorem InFlight.round
    (hf : InFlight sender receiver t ranges) :
    RoundDistinguished sender receiver minHash ranges := by
  intro b hb
  rcases hf.distinguished with hfp | hdist
  · rw [fingerprintBounds, List.mem_map] at hb
    obtain ⟨q, hq, -⟩ := hb
    rw [List.mem_filter, decide_eq_true_eq] at hq
    exact absurd hq.2 (hfp q.2 (mem_of_mem_withLower hq.1))
  · obtain ⟨n, hn, -⟩ := hf.converging
    have hrounds : MAX_RECONCILE_ROUNDS - t = MAX_RECONCILE_ROUNDS - (t + 1) + 1 := by
      unfold MAX_RECONCILE_ROUNDS
      omega
    rw [hrounds] at hdist
    exact hdist b (List.mem_append_left _ hb)

/-- **The receiver of a range message either answers it with a range message that brings the
exchange closer to its end, or closes the exchange with its items.** -/
theorem reconcileRound_ranges (hs : receiver.Pairwise (· < ·)) (hR : receiver.length < 2 ^ 32)
    (hS : sender.length < 2 ^ 32) (hf : InFlight sender receiver t ranges) (loop : ReconcileLoop)
    (hround : loop.round ≤ t) (invalid : LoopPhase) (ns : Hash32) :
    (∃ p s, Tiled sender receiver p s maxHash minHash ranges ∧
        (∀ r ∈ ranges, r.mode ≠ .fingerprint) ∧
        reconcileRound invalid ns receiver loop (rangesMessage ns ranges)
          = (loop.leave .left (itemListItems ranges),
              [itemsMessage ns (ourRangeItems receiver ranges)])) ∨
      ∃ p s response, Tiled sender receiver p s maxHash minHash ranges ∧
        InFlight receiver sender (t + 1) response ∧
        reconcileRound invalid ns receiver loop (rangesMessage ns ranges)
          = (⟨.waiting, loop.round + 1, loop.peerItems ++ itemListItems ranges⟩,
              [rangesMessage ns response]) := by
  obtain ⟨n, hn, hc⟩ := hf.converging
  obtain ⟨n, rfl⟩ : ∃ m, n = m + 1 := by
    rcases hc with ⟨i, k, h, _⟩ | ⟨p, s, h, _⟩ <;> exact ⟨n - 1, by omega⟩
  obtain ⟨p, s, result, hres, ht, hans, hnext⟩ := hc.answer hs hR hS hf.round
  have hdecode := decode_honest hS hR ht hf.weighty ns
  have hne : ranges ≠ [] := Tiled.ne_nil ht
  cases hfp : hasFingerprint ranges with
  | false =>
    refine Or.inl ⟨p, s, ht, hasFingerprint_eq_false.mp hfp, ?_⟩
    simp [reconcileRound, rangesMessage, itemsMessage, hdecode, hne, hfp]
  | true =>
    have hopen : ¬∀ r ∈ ranges, r.mode ≠ .fingerprint := by
      rw [← hasFingerprint_eq_false, hfp]
      simp
    have hlt : loop.round + 1 < MAX_RECONCILE_ROUNDS := by
      unfold MAX_RECONCILE_ROUNDS
      omega
    refine Or.inr ⟨p, s, result.responseRanges, ht,
      ⟨⟨n, by omega, hnext.resolve_left hopen⟩, ?_, ?_⟩,
      ?_⟩
    · exact (hans.weighty hf.weighty).imp fun _ _ _ h => weighty_symm h
    · by_cases hcomplete : result.complete = true
      · exact Or.inl (hans.closed hcomplete)
      · refine Or.inr fun b hb => Distinguished.symm ?_
        have hrounds : MAX_RECONCILE_ROUNDS - t = MAX_RECONCILE_ROUNDS - (t + 1) + 1 := by
          unfold MAX_RECONCILE_ROUNDS
          omega
        have hdist := hf.distinguished.resolve_left hopen
        rw [hrounds] at hdist
        refine hdist b (List.mem_append_right _ ?_)
        rw [hres]
        simp only [hcomplete, Bool.false_eq_true, if_false]
        exact hb
    · simp [reconcileRound, rangesMessage, hdecode, hne, hfp, hres, ReconcileLoop.next, hlt,
        hans.haveItems]

theorem length_ourRangeItems_lt (hs : receiver.Pairwise (· < ·))
    (hR : receiver.length < 2 ^ 32) (ht : Tiled sender receiver p s maxHash minHash ranges) :
    (ourRangeItems receiver ranges).length < 2 ^ 32 := by
  have hsum := ht.sum_le (f := fun lo hi => (between receiver lo hi).length)
    (g := fun q => (if q.2.mode = .itemList then
      slice receiver (Infra.lowerBound receiver q.1) (Infra.lowerBound receiver q.2.upperBound)
      else []).length)
    (fun hab hbc => length_between_add hab hbc receiver) (fun q hq => by
      have hslice := slice_lowerBound (pairwise_le hs) (ht.forall_mem q hq).1
      by_cases hmode : q.2.mode = .itemList
      · simp [hmode, hslice]
      · simp [hmode])
  have hle := length_between_lt hR minHash maxHash
  rw [ourRangeItems, List.length_flatMap]
  exact Nat.lt_of_le_of_lt hsum hle

/-- The closing item message is collected and the loop is left. -/
theorem reconcileRound_items (hlen : items.length < 2 ^ 32)
    (invalid : LoopPhase) (ns : Hash32) (ourHashes : List Hash32) (loop : ReconcileLoop) :
    reconcileRound invalid ns ourHashes loop (itemsMessage ns items)
      = (loop.leave .left items, []) := by
  simp [reconcileRound, itemsMessage, decodeReconcileItems_encode ns hlen]

/-- The empty range message of a responder whose items all match. -/
theorem reconcileRound_empty (invalid : LoopPhase) (ns : Hash32) (ourHashes : List Hash32)
    (loop : ReconcileLoop) :
    reconcileRound invalid ns ourHashes loop (rangesMessage ns []) = (loop.leave .left [], []) := by
  have hdecode : decodeReconcileRanges (encodeReconcileRanges ns []) = some ⟨ns, []⟩ :=
    decodeReconcileRanges_encode ns (by decide) (by simp)
  simp [reconcileRound, rangesMessage, hdecode]

/-! ## The invariant -/

/-- The items collected from the other side: only its own, and every one we do not have. -/
def Collected (own other items : List Hash32) : Prop :=
  (∀ h ∈ items, h ∈ other) ∧ ∀ h < maxHash, h ∈ other → h ∉ own → h ∈ items

/-- The states of the exchange of one namespace after `t` deliveries. -/
inductive Lockstep (ns : Hash32) (initiator responder : List Hash32) : Nat → Exchange → Prop
  | opening : Lockstep ns initiator responder 0 (Exchange.start ns initiator)
  /-- the responder's items all match; it has left and said so -/
  | matched (hagree : ∀ h < maxHash, h ∈ initiator ↔ h ∈ responder) :
    Lockstep ns initiator responder 1
      ⟨⟨.waiting, 0, []⟩, some ⟨.left, 0, []⟩, [rangesMessage ns []], []⟩
  | rangesToInitiator {t k m : Nat} {pI pR : List Hash32} {ranges : List RangeEntry}
    (hf : InFlight responder initiator t ranges) (hk : k ≤ t) (hm : m ≤ t)
    (hI : ∀ h ∈ pI, h ∈ responder) (hR : ∀ h ∈ pR, h ∈ initiator) :
    Lockstep ns initiator responder t
      ⟨⟨.waiting, k, pI⟩, some ⟨.waiting, m, pR⟩, [rangesMessage ns ranges], []⟩
  | rangesToResponder {t k m : Nat} {pI pR : List Hash32} {ranges : List RangeEntry}
    (hf : InFlight initiator responder t ranges) (hk : k ≤ t) (hm : m ≤ t)
    (hI : ∀ h ∈ pI, h ∈ responder) (hR : ∀ h ∈ pR, h ∈ initiator) :
    Lockstep ns initiator responder t
      ⟨⟨.waiting, k, pI⟩, some ⟨.waiting, m, pR⟩, [], [rangesMessage ns ranges]⟩
  /-- the responder has left and sent its items -/
  | itemsToInitiator {t k m : Nat} {pI pR items : List Hash32} (ht : t ≤ 59) (hk : k ≤ t)
    (hm : m ≤ t) (hlen : items.length < 2 ^ 32) (hI : ∀ h ∈ pI, h ∈ responder)
    (hitems : Collected initiator responder items) (hR : Collected responder initiator pR) :
    Lockstep ns initiator responder t
      ⟨⟨.waiting, k, pI⟩, some ⟨.left, m, pR⟩, [itemsMessage ns items], []⟩
  /-- the initiator has left and sent its items -/
  | itemsToResponder {t k m : Nat} {pI pR items : List Hash32} (ht : t ≤ 59) (hk : k ≤ t)
    (hm : m ≤ t) (hlen : items.length < 2 ^ 32) (hR : ∀ h ∈ pR, h ∈ initiator)
    (hitems : Collected responder initiator items) (hI : Collected initiator responder pI) :
    Lockstep ns initiator responder t
      ⟨⟨.left, k, pI⟩, some ⟨.waiting, m, pR⟩, [], [itemsMessage ns items]⟩
  | finished {t k m : Nat} {pI pR : List Hash32} (ht : t ≤ 60) (hk : k ≤ t) (hm : m ≤ t)
    (hI : Collected initiator responder pI) (hR : Collected responder initiator pR) :
    Lockstep ns initiator responder t ⟨⟨.left, k, pI⟩, some ⟨.left, m, pR⟩, [], []⟩

theorem Collected.append {more : List Hash32} (hitems : ∀ h ∈ items, h ∈ other)
    (hmore : Collected own other more) : Collected own other (items ++ more) := by
  refine ⟨fun h hh => ?_, fun h hmax hO hown => List.mem_append_right _ (hmore.2 h hmax hO hown)⟩
  rcases List.mem_append.mp hh with hh | hh
  · exact hitems h hh
  · exact hmore.1 h hh

theorem collected_of_agree
    (hagree : ∀ h < maxHash, h ∈ other → h ∈ own) : Collected own other [] :=
  ⟨by simp, fun h hmax hO hown => absurd (hagree h hmax hO) hown⟩

theorem forall_mem_append {more : List Hash32} (h₁ : ∀ h ∈ items, h ∈ other)
    (h₂ : ∀ h ∈ more, h ∈ other) : ∀ h ∈ items ++ more, h ∈ other :=
  List.forall_mem_append.mpr ⟨h₁, h₂⟩

/-- Both sides know all differences once the receiver closes the exchange. -/
theorem collected_final (hs : receiver.Pairwise (· < ·))
    (ht : Tiled sender receiver p s maxHash minHash ranges) (hfp : ∀ r ∈ ranges, r.mode ≠
      .fingerprint) :
    Collected receiver sender (itemListItems ranges) ∧
      Collected sender receiver (ourRangeItems receiver ranges) := by
  refine ⟨⟨fun h hh => ht.items_mem hh, fun h hmax => (final_reveals hs ht hfp hmax).1⟩,
    ⟨fun h hh => ?_, fun h hmax => (final_reveals hs ht hfp hmax).2⟩⟩
  obtain ⟨q, -, -, hmem⟩ := (mem_ourRangeItems_iff hs ht).mp hh
  exact (mem_between.mp hmem).1

/-! ## Steps -/

/-- A waiting initiator handles the oldest message sent to it. -/
theorem Exchange.deliver_initiator (ns : Hash32) (initiator responder : List Hash32) (k : Nat)
    (pI : List Hash32) (loop : Option ReconcileLoop) (msg : SyncMessage)
    (rest out : List SyncMessage) :
    Exchange.deliver ns initiator responder .initiator ⟨⟨.waiting, k, pI⟩, loop, msg :: rest, out⟩
      = some ⟨(initiatorRound ns initiator ⟨.waiting, k, pI⟩ msg).1, loop, rest,
          out ++ (initiatorRound ns initiator ⟨.waiting, k, pI⟩ msg).2⟩ := rfl

/-- A waiting responder handles the oldest message sent to it. -/
theorem Exchange.deliver_responder (ns : Hash32) (initiator responder : List Hash32) (m : Nat)
    (pR : List Hash32) (loop : ReconcileLoop) (msg : SyncMessage) (rest out : List SyncMessage) :
    Exchange.deliver ns initiator responder .responder
        ⟨loop, some ⟨.waiting, m, pR⟩, out, msg :: rest⟩
      = some ⟨loop, some (responderRound ns responder ⟨.waiting, m, pR⟩ msg).1,
          out ++ (responderRound ns responder ⟨.waiting, m, pR⟩ msg).2, rest⟩ := rfl

section

variable {ns : Hash32} {initiator responder : List Hash32} (hsI : initiator.Pairwise (· < ·))
  (hsR : responder.Pairwise (· < ·)) (hlenI : initiator.length < 2 ^ 32)
  (hlenR : responder.length < 2 ^ 32) (hmaxI : maxHash ∉ initiator)
  (hcoll : NoCollision initiator responder)

include hlenI in
/-- The range the responder builds from the init message is the initiator's opening range. -/
theorem initRangeOf_initOf : initRangeOf (initOf ns initiator) = initRange initiator := by
  have hsize := sizeSub_eq hlenI (Nat.zero_le _) (Nat.le_refl _)
  simp only [initRangeOf, initOf, initRange, fingerprintEntry, hsize, Nat.sub_zero]

include hsR hlenI hlenR hmaxI hcoll in
/-- **The responder's answer to the init message.** -/
theorem responderStart_spec :
    (responderStart responder (initOf ns initiator)
        = (⟨.left, 0, []⟩, [rangesMessage ns []]) ∧
      ∀ h < maxHash, h ∈ initiator ↔ h ∈ responder) ∨
    ∃ response, responderStart responder (initOf ns initiator)
        = (⟨.waiting, 0, []⟩, [rangesMessage ns response]) ∧
      InFlight responder initiator 1 response := by
  have hconv := converging_initRange hlenI hlenR hmaxI (Nat.le_refl 58)
  have hround : RoundDistinguished initiator responder minHash [initRange initiator] :=
    fun b hb => hcoll b (List.mem_append_left _ hb)
  obtain ⟨p, s, result, hres, ht, hans, hnext⟩ := hconv.answer hsR hlenR hlenI hround
  have hmode : (initRange initiator).mode = .fingerprint := rfl
  have hhave : result.haveItems = [] := by
    rw [hans.haveItems]
    simp [itemListItems, hmode]
  have hopen : ¬∀ r ∈ [initRange initiator], r.mode ≠ .fingerprint := by simp [hmode]
  have hns : (initOf ns initiator).namespaceId = ns := rfl
  simp only [responderStart, initRangeOf_initOf hlenI, hres, hhave, hns]
  by_cases hcomplete : result.complete = true
  · rw [if_pos hcomplete]
    refine Or.inl ⟨rfl, fun h hmax => hans.agree hcomplete ?_ h (minHash_le h) hmax⟩
    simp [hmode]
  · rw [if_neg hcomplete]
    refine Or.inr ⟨_, rfl, ⟨57, by omega, hnext.resolve_left hopen⟩, ?_, Or.inr fun b hb => ?_⟩
    · refine (hans.weighty ⟨minHash_le _, ?_, rfl⟩).imp fun _ _ _ h => weighty_symm h
      have hstart : minHash < maxHash := by decide
      have hupper : (initRange initiator).upperBound = maxHash := rfl
      simp [Weighty, rangeWeight, hupper, hstart]
    · refine Distinguished.symm (hcoll b (List.mem_append_right _ ?_))
      rw [hres]
      simp only [hcomplete, Bool.false_eq_true, if_false]
      exact hb

include hsI hlenI hlenR in
/-- The initiator reads the only message in flight. -/
theorem Lockstep.rangesRead_initiator
    (hf : InFlight responder initiator t ranges) (hk : k ≤ t) (hm : m ≤ t)
    (hI : ∀ h ∈ pI, h ∈ responder) (hR : ∀ h ∈ pR, h ∈ initiator) :
    Lockstep ns initiator responder (t + 1)
      ⟨(initiatorRound ns initiator ⟨.waiting, k, pI⟩ (rangesMessage ns ranges)).1,
        some ⟨.waiting, m, pR⟩, [],
        (initiatorRound ns initiator ⟨.waiting, k, pI⟩ (rangesMessage ns ranges)).2⟩ := by
  obtain ⟨n, hn, -⟩ := hf.converging
  rcases reconcileRound_ranges hsI hlenI hlenR hf ⟨.waiting, k, pI⟩ hk .aborted ns with
    ⟨p, s, ht, hfp, heq⟩ | ⟨p, s, response, ht, hf', heq⟩
  · obtain ⟨hown, hsent⟩ := collected_final hsI ht hfp
    rw [initiatorRound, heq]
    exact .itemsToResponder (by omega) (Nat.succ_le_succ hk) (by omega)
      (length_ourRangeItems_lt hsI hlenI ht) hR hsent (hown.append hI)
  · rw [initiatorRound, heq]
    exact .rangesToResponder hf' (Nat.succ_le_succ hk) (by omega)
      (forall_mem_append hI fun h hh => ht.items_mem hh) hR

include hsR hlenI hlenR in
/-- The responder reads the only message in flight. -/
theorem Lockstep.rangesRead_responder
    (hf : InFlight initiator responder t ranges) (hk : k ≤ t) (hm : m ≤ t)
    (hI : ∀ h ∈ pI, h ∈ responder) (hR : ∀ h ∈ pR, h ∈ initiator) :
    Lockstep ns initiator responder (t + 1)
      ⟨⟨.waiting, k, pI⟩,
        some (responderRound ns responder ⟨.waiting, m, pR⟩ (rangesMessage ns ranges)).1,
        (responderRound ns responder ⟨.waiting, m, pR⟩ (rangesMessage ns ranges)).2, []⟩ := by
  obtain ⟨n, hn, -⟩ := hf.converging
  rcases reconcileRound_ranges hsR hlenR hlenI hf ⟨.waiting, m, pR⟩ hm .left ns with
    ⟨p, s, ht, hfp, heq⟩ | ⟨p, s, response, ht, hf', heq⟩
  · obtain ⟨hown, hsent⟩ := collected_final hsR ht hfp
    rw [responderRound, heq]
    exact .itemsToInitiator (by omega) (by omega) (Nat.succ_le_succ hm)
      (length_ourRangeItems_lt hsR hlenR ht) hI hsent (hown.append hR)
  · rw [responderRound, heq]
    exact .rangesToInitiator hf' (by omega) (Nat.succ_le_succ hm) hI
      (forall_mem_append hR fun h hh => ht.items_mem hh)

include hsI hsR hlenI hlenR hmaxI hcoll in
/-- **One delivery keeps the loops in lockstep.** -/
theorem Lockstep.deliver {ex' : Exchange} {side : Side}
    (hl : Lockstep ns initiator responder t ex)
    (hd : ex.deliver ns initiator responder side = some ex') :
    Lockstep ns initiator responder (t + 1) ex' := by
  cases hl with
  | opening =>
    cases side with
    | initiator => simp [Exchange.deliver, Exchange.start] at hd
    | responder =>
      have hdecode : decodeReconcileInit (encodeReconcileInit (initOf ns initiator))
          = some (initOf ns initiator) := decodeReconcileInit_encode rfl
      simp only [Exchange.deliver, Exchange.start, initiatorStart, hdecode, if_true,
        Option.bind_eq_bind, Option.bind_some, Option.some.injEq, List.nil_append] at hd
      subst hd
      rcases responderStart_spec hsR hlenI hlenR hmaxI hcoll with
        ⟨hstart, hagree⟩ | ⟨response, hstart, hf⟩
      · rw [hstart]
        exact .matched hagree
      · rw [hstart]
        exact .rangesToInitiator hf (by omega) (by omega) (by simp) (by simp)
  | matched hagree =>
    cases side with
    | responder => simp [Exchange.deliver] at hd
    | initiator =>
      simp only [Exchange.deliver, if_true, initiatorRound, reconcileRound_empty,
        Option.some.injEq] at hd
      subst hd
      exact .finished (by omega) (by simp) (by omega)
        (collected_of_agree fun h hmax => (hagree h hmax).mpr)
        (collected_of_agree fun h hmax => (hagree h hmax).mp)
  | rangesToInitiator hf hk hm hI hR =>
    cases side with
    | responder => simp [Exchange.deliver] at hd
    | initiator =>
      simp only [Exchange.deliver, if_true, Option.some.injEq, List.nil_append] at hd
      subst hd
      exact Lockstep.rangesRead_initiator hsI hlenI hlenR hf hk hm hI hR
  | rangesToResponder hf hk hm hI hR =>
    cases side with
    | initiator => simp [Exchange.deliver] at hd
    | responder =>
      simp only [Exchange.deliver, if_true, Option.some.injEq, List.nil_append] at hd
      subst hd
      exact Lockstep.rangesRead_responder hsR hlenI hlenR hf hk hm hI hR
  | itemsToInitiator ht hk hm hlen hI hitems hR =>
    cases side with
    | responder => simp [Exchange.deliver] at hd
    | initiator =>
      simp only [Exchange.deliver, if_true, initiatorRound, reconcileRound_items hlen,
        Option.some.injEq] at hd
      subst hd
      exact .finished (by omega) (Nat.succ_le_succ hk) (by omega) (hitems.append hI) hR
  | itemsToResponder ht hk hm hlen hR hitems hI =>
    cases side with
    | initiator => simp [Exchange.deliver] at hd
    | responder =>
      simp only [Exchange.deliver, if_true, responderRound, reconcileRound_items hlen,
        Option.some.injEq] at hd
      subst hd
      exact .finished (by omega) (by omega) (Nat.succ_le_succ hm) hI (hitems.append hR)
  | finished ht hk hm hI hR =>
    cases side <;> simp [Exchange.deliver] at hd

include hsI hsR hlenI hlenR hmaxI hcoll in
/-- **Every schedule keeps the loops in lockstep.** -/
theorem Lockstep.run : ∀ {schedule : List Side} {t : Nat} {ex ex' : Exchange},
    Lockstep ns initiator responder t ex →
    ex.run ns initiator responder schedule = some ex' →
    Lockstep ns initiator responder (t + schedule.length) ex'
  | [], _, _, _, hl, hrun => by
    cases hrun
    exact hl
  | side :: rest, t, ex, ex', hl, hrun => by
    rw [Exchange.run, Option.bind_eq_bind, Option.bind_eq_some_iff] at hrun
    obtain ⟨next, hd, hrun⟩ := hrun
    have hrest := Lockstep.run (hl.deliver hsI hsR hlenI hlenR hmaxI hcoll hd) hrun
    rwa [List.length_cons, Nat.add_comm rest.length 1, ← Nat.add_assoc]

end

/-! ## Agreement -/

/-- Both loops have left, nothing is in flight, and each side is missing exactly what the other
has and it has not. -/
structure Exchange.Finished (initiator responder : List Hash32) (ex : Exchange) : Prop where
  initiatorLeft : ex.initiator.phase = .left
  noMessage : ex.toInitiator = [] ∧ ex.toResponder = []
  initiatorMissing : ∀ h, h ∈ missingHashes initiator ex.initiator.peerItems ↔
    h ∈ responder ∧ h ∉ initiator
  responderMissing : ∃ loop, ex.responder = some loop ∧ loop.phase = .left ∧
    ∀ h, h ∈ missingHashes responder loop.peerItems ↔ h ∈ initiator ∧ h ∉ responder

/-- No loop failed or ran out of rounds, at most one message is in flight, and none is addressed
to a side that has left. -/
structure Exchange.Orderly (ex : Exchange) : Prop where
  initiator : ex.initiator.phase = .waiting ∨ ex.initiator.phase = .left
  responder : ∀ loop, ex.responder = some loop → loop.phase = .waiting ∨ loop.phase = .left
  rounds : ex.initiator.round < MAX_RECONCILE_ROUNDS ∧
    ∀ loop, ex.responder = some loop → loop.round < MAX_RECONCILE_ROUNDS
  oneMessage : (ex.toInitiator ++ ex.toResponder).length ≤ 1
  initiatorLeft : ex.initiator.phase = .left → ex.toInitiator = []
  responderLeft : ∀ loop, ex.responder = some loop → loop.phase = .left → ex.toResponder = []

theorem Collected.missing (hc : Collected own other items)
    (hmax : maxHash ∉ other) (h : Hash32) :
    h ∈ missingHashes own items ↔ h ∈ other ∧ h ∉ own := by
  rw [missingHashes, List.mem_filter, decide_eq_true_eq]
  exact ⟨fun hh => ⟨hc.1 h hh.1, hh.2⟩,
    fun hh => ⟨hc.2 h (lt_maxHash fun he => hmax (he ▸ hh.1)) hh.1 hh.2, hh.2⟩⟩

theorem Lockstep.orderly {ns : Hash32} {initiator responder : List Hash32}
    (hl : Lockstep ns initiator responder t ex) : ex.Orderly ∧ t ≤ 60 := by
  have hmax : 60 < MAX_RECONCILE_ROUNDS := by decide
  cases hl with
  | opening => exact ⟨by constructor <;> simp [Exchange.start, initiatorStart]; decide, by omega⟩
  | matched hagree => exact ⟨by constructor <;> simp; decide, by omega⟩
  | rangesToInitiator hf hk hm hI hR =>
    obtain ⟨n, hn, -⟩ := hf.converging
    exact ⟨by constructor <;> simp; omega, by omega⟩
  | rangesToResponder hf hk hm hI hR =>
    obtain ⟨n, hn, -⟩ := hf.converging
    exact ⟨by constructor <;> simp; omega, by omega⟩
  | itemsToInitiator ht hk hm hlen hI hitems hR =>
    exact ⟨by constructor <;> simp; omega, by omega⟩
  | itemsToResponder ht hk hm hlen hR hitems hI =>
    exact ⟨by constructor <;> simp; omega, by omega⟩
  | finished ht hk hm hI hR => exact ⟨by constructor <;> simp; omega, by omega⟩

section

variable {ns : Hash32} {initiator responder : List Hash32} (hmaxI : maxHash ∉ initiator)
  (hmaxR : maxHash ∉ responder)

include hmaxI hmaxR in
theorem Lockstep.finished_of_collected
    (hI : Collected initiator responder pI) (hR : Collected responder initiator pR) :
    Exchange.Finished initiator responder ⟨⟨.left, k, pI⟩, some ⟨.left, m, pR⟩, [], []⟩ :=
  ⟨rfl, ⟨rfl, rfl⟩, hI.missing hmaxR, ⟨_, rfl, rfl, hR.missing hmaxI⟩⟩

include hmaxI hmaxR in
/-- Unless the exchange is over, some message can be delivered; once a side has left, delivering
it ends the exchange. -/
theorem Lockstep.progress (hl : Lockstep ns initiator responder t ex) :
    ex.Finished initiator responder ∨
      ∃ side ex', ex.deliver ns initiator responder side = some ex' ∧
        (ex.initiator.phase = .left ∨ (∃ loop, ex.responder = some loop ∧ loop.phase = .left) →
          ex'.Finished initiator responder) := by
  cases hl with
  | opening =>
    have hdecode : decodeReconcileInit (encodeReconcileInit (initOf ns initiator))
        = some (initOf ns initiator) := decodeReconcileInit_encode rfl
    have hdeliver : ∃ ex', (Exchange.start ns initiator).deliver ns initiator responder .responder
        = some ex' := by
      simp [Exchange.deliver, Exchange.start, initiatorStart, hdecode]
    obtain ⟨ex', hd⟩ := hdeliver
    exact Or.inr ⟨.responder, ex', hd, by simp [Exchange.start, initiatorStart]⟩
  | matched hagree =>
    refine Or.inr ⟨.initiator, ⟨⟨.left, 1, []⟩, some ⟨.left, 0, []⟩, [], []⟩, ?_, fun _ => ?_⟩
    · rw [Exchange.deliver_initiator, initiatorRound, reconcileRound_empty]
      rfl
    · exact Lockstep.finished_of_collected hmaxI hmaxR
        (collected_of_agree fun h hmax => (hagree h hmax).mpr)
        (collected_of_agree fun h hmax => (hagree h hmax).mp)
  | rangesToInitiator hf hk hm hI hR => exact Or.inr ⟨.initiator, _, rfl, by simp⟩
  | rangesToResponder hf hk hm hI hR => exact Or.inr ⟨.responder, _, rfl, by simp⟩
  | @itemsToInitiator t k m pI pR items ht hk hm hlen hI hitems hR =>
    refine Or.inr ⟨.initiator, ⟨⟨.left, k + 1, pI ++ items⟩, some ⟨.left, m, pR⟩, [], []⟩, ?_,
      fun _ => Lockstep.finished_of_collected hmaxI hmaxR (hitems.append hI) hR⟩
    rw [Exchange.deliver_initiator, initiatorRound, reconcileRound_items hlen]
    rfl
  | @itemsToResponder t k m pI pR items ht hk hm hlen hR hitems hI =>
    refine Or.inr ⟨.responder, ⟨⟨.left, k, pI⟩, some ⟨.left, m + 1, pR ++ items⟩, [], []⟩, ?_,
      fun _ => Lockstep.finished_of_collected hmaxI hmaxR hI (hitems.append hR)⟩
    rw [Exchange.deliver_responder, responderRound, reconcileRound_items hlen]
    rfl
  | finished ht hk hm hI hR => exact Or.inl (Lockstep.finished_of_collected hmaxI hmaxR hI hR)

end

/--
**The two loops agree on every namespace.** For strictly sorted hash lists of fewer than `2 ^ 32`
hashes without an all-`0xFF` hash, and without a collision on a compared range, and under every
schedule of deliveries:

* the exchange takes fewer than `MAX_RECONCILE_ROUNDS` deliveries, and no loop fails or reaches
  its round limit
* at most one message is in flight, never to a side that has left, and once a side has left the
  next delivery makes the other side leave
* when nothing can be delivered any more, both loops have left and each side is missing exactly
  the other side's hashes minus its own
-/
theorem exchange_agreement {ns : Hash32} {initiator responder : List Hash32}
    (hsI : initiator.Pairwise (· < ·)) (hsR : responder.Pairwise (· < ·))
    (hlenI : initiator.length < 2 ^ 32) (hlenR : responder.length < 2 ^ 32)
    (hmaxI : maxHash ∉ initiator) (hmaxR : maxHash ∉ responder)
    (hcoll : NoCollision initiator responder) {schedule : List Side} {ex : Exchange}
    (hrun : (Exchange.start ns initiator).run ns initiator responder schedule = some ex) :
    schedule.length < MAX_RECONCILE_ROUNDS ∧ ex.Orderly ∧
      (ex.Finished initiator responder ∨
        ∃ side ex', ex.deliver ns initiator responder side = some ex' ∧
          (ex.initiator.phase = .left ∨ (∃ loop, ex.responder = some loop ∧ loop.phase = .left) →
            ex'.Finished initiator responder)) ∧
      ((∀ side, ex.deliver ns initiator responder side = none) →
        ex.Finished initiator responder) := by
  have hl := Lockstep.run hsI hsR hlenI hlenR hmaxI hcoll .opening hrun
  obtain ⟨hord, ht⟩ := hl.orderly
  have hlt : 0 + schedule.length < MAX_RECONCILE_ROUNDS := Nat.lt_of_le_of_lt ht (by decide)
  have hprog := hl.progress hmaxI hmaxR
  refine ⟨by omega, hord, hprog, fun hstuck => ?_⟩
  rcases hprog with hfin | ⟨side, ex', hd, -⟩
  · exact hfin
  · rw [hstuck side] at hd
    cases hd

set_option maxRecDepth 20000 in
/-- Eighteen hashes against twenty, fifteen of them in common, delivered to the end. -/
theorem exchange_agreement_sample :
    ∃ ex, (Exchange.start minHash (sampleHashes 1 18)).run minHash (sampleHashes 1 18)
        (sampleHashes 4 20) [.responder, .initiator, .responder, .initiator] = some ex ∧
      ((∀ side, ex.deliver minHash (sampleHashes 1 18) (sampleHashes 4 20) side = none) →
        ex.Finished (sampleHashes 1 18) (sampleHashes 4 20)) := by
  have hsome : ((Exchange.start minHash (sampleHashes 1 18)).run minHash (sampleHashes 1 18)
      (sampleHashes 4 20) [.responder, .initiator, .responder, .initiator]).isSome := by
    decide +kernel
  obtain ⟨ex, hrun⟩ := Option.isSome_iff_exists.mp hsome
  exact ⟨ex, hrun, (exchange_agreement (by decide) (by decide) (by decide) (by decide)
    (by decide) (by decide) noCollision_sample hrun).2.2.2⟩

end Peer
