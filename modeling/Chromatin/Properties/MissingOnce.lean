import Chromatin.Properties.SyncSession

/-!
# Items that are collected twice

A range that was answered with items is echoed as an item list in every later message of the
exchange: `process_ranges` answers an item list with the items of its own side. As long as the
message has a fingerprint range somewhere else, the receiver collects the items and the exchange
goes on, so the same items come back with the next message. `Exchange.earlyItems` are the hashes
that a side lacks in such a message.

* `processRanges_reply` — an answer lists every item that the received message has asked for
* `Walk.run` — what a side has collected while it stays in its loop is listed again by the
  message that makes it leave
* `missing_nodup_iff` — so the missing hashes of a side are without duplicates exactly if it has
  lacked no item of a message that still had a fingerprint range
-/

namespace Peer

open Infra Util Sync

/-! ## The items a message asks for -/

/-- The items of a list in the `ItemList` ranges of a message. -/
def itemsIn (l : List Hash32) (lo : Hash32) (ranges : List RangeEntry) : List Hash32 :=
  (withLower RangeEntry.upperBound lo ranges).flatMap fun p =>
    if p.2.mode = .itemList then between l p.1 p.2.upperBound else []

section

variable {l sender receiver : List Hash32} {lo hi mid : Hash32} {r : RangeEntry}
  {ranges more : List RangeEntry} {P : Hash32 → RangeEntry → Prop}

theorem itemsIn_cons (l : List Hash32) (lo : Hash32) (r : RangeEntry) (ranges : List RangeEntry) :
    itemsIn l lo (r :: ranges) =
      (if r.mode = .itemList then between l lo r.upperBound else []) ++
        itemsIn l r.upperBound ranges := rfl

@[simp] theorem itemsIn_nil (l : List Hash32) (lo : Hash32) : itemsIn l lo [] = [] := rfl

theorem itemsIn_append (l : List Hash32) : ∀ {lo : Hash32} {ranges : List RangeEntry},
    Tiles RangeEntry.upperBound P mid lo ranges →
    itemsIn l lo (ranges ++ more) = itemsIn l lo ranges ++ itemsIn l mid more
  | lo, [], htiles => by
    obtain rfl : lo = mid := htiles
    rfl
  | lo, r :: ranges, ⟨_, _, hrest⟩ => by
    rw [List.cons_append, itemsIn_cons, itemsIn_cons, itemsIn_append l hrest, List.append_assoc]

/-- The items of a sorted list in consecutive ranges are part of the list. -/
theorem itemsIn_sublist (hsorted : l.Pairwise (· < ·)) : ∀ {lo : Hash32} {ranges : List RangeEntry},
    Tiles RangeEntry.upperBound P hi lo ranges → (itemsIn l lo ranges).Sublist (between l lo hi)
  | _, [], _ => List.nil_sublist _
  | lo, r :: ranges, ⟨hle, _, hrest⟩ => by
    rw [itemsIn_cons, ← between_append (pairwise_le hsorted) hle hrest.le]
    refine List.Sublist.append ?_ (itemsIn_sublist hsorted hrest)
    split
    · exact List.Sublist.refl _
    · exact List.nil_sublist _

theorem nodup_itemsIn (hsorted : l.Pairwise (· < ·))
    (htiles : Tiles RangeEntry.upperBound P hi lo ranges) : (itemsIn l lo ranges).Nodup := by
  have hnodup : l.Nodup := hsorted.imp ne_of_lt
  exact hnodup.sublist ((itemsIn_sublist hsorted htiles).trans (between_sublist _ _ _))

theorem length_itemsIn_le (hsorted : l.Pairwise (· < ·))
    (htiles : Tiles RangeEntry.upperBound P hi lo ranges) :
    (itemsIn l lo ranges).length ≤ l.length :=
  ((itemsIn_sublist hsorted htiles).trans (between_sublist _ _ _)).length_le

/-- What the final exchange sends. -/
theorem ourRangeItems_eq_itemsIn (hsorted : l.Pairwise (· < ·))
    (htiles : Tiles RangeEntry.upperBound P maxHash minHash ranges) :
    ourRangeItems l ranges = itemsIn l minHash ranges := by
  rw [ourRangeItems, itemsIn]
  refine List.flatMap_congr fun p hp => ?_
  split
  · exact slice_lowerBound (pairwise_le hsorted) (htiles.forall_mem p hp).1
  · rfl

/-! ## Honest messages -/

/-- An entry of an honest message: an item list has the items that the sender has in the range. -/
def Lists (sender : List Hash32) (lower : Hash32) (r : RangeEntry) : Prop :=
  r.Canonical ∧ (r.mode = .itemList → r.items = between sender lower r.upperBound)

/-- A message whose item lists are those of its sender. Unlike `Tiled` this says nothing on the
ranges that are skipped, and so it needs no fingerprints without collisions. -/
structure Honest (sender receiver : List Hash32) (hi lo : Hash32) (ranges : List RangeEntry) :
    Prop where
  lists : Tiles RangeEntry.upperBound (Lists sender) hi lo ranges
  weighty : Tiles RangeEntry.upperBound (Weighty sender receiver) hi lo ranges

theorem lists_skipEntry (lower upper : Hash32) : Lists sender lower (skipEntry upper) :=
  ⟨⟨rfl, rfl, rfl⟩, fun h => by simp at h⟩

theorem lists_fingerprintOf (lower upper : Hash32) (items : List Hash32) :
    Lists sender lower (fingerprintOf items upper) :=
  ⟨rfl, fun h => by simp at h⟩

theorem lists_itemsOf (hlength : sender.length < 2 ^ 32) (lower upper : Hash32) :
    Lists sender lower (itemsOf (between sender lower upper) upper) :=
  ⟨⟨rfl, toNat_ofNat_lt (length_between_lt hlength _ _)⟩, fun _ => rfl⟩

/-- The item lists of an honest message. -/
theorem itemListItems_eq_itemsIn : ∀ {lo : Hash32} {ranges : List RangeEntry},
    Tiles RangeEntry.upperBound (Lists sender) hi lo ranges →
    itemListItems ranges = itemsIn sender lo ranges
  | _, [], _ => rfl
  | lo, r :: ranges, ⟨_, hr, hrest⟩ => by
    have hsplit : itemListItems (r :: ranges) = itemListItems [r] ++ itemListItems ranges :=
      itemListItems_append [r] ranges
    rw [hsplit, itemsIn_cons, itemListItems_eq_itemsIn hrest]
    by_cases hmode : r.mode = .itemList
    · simp [itemListItems, hmode, hr.2 hmode]
    · simp [itemListItems, hmode]

/-! ## One answer -/

/-- What the answer to a message keeps: it is honest again, and it asks for all items that the
message has asked for. -/
structure Reply (sender receiver : List Hash32) (hi lo : Hash32) (ranges : List RangeEntry)
    (result : ReconcileResult) : Prop where
  lists : Tiles RangeEntry.upperBound (Lists receiver) hi lo result.responseRanges
  haveItems : result.haveItems = itemListItems ranges
  keeps : ∀ l, itemsIn l lo ranges ⊆ itemsIn l lo result.responseRanges
  weighty : Tiles RangeEntry.upperBound (Weighty sender receiver) hi lo ranges →
    Tiles RangeEntry.upperBound (Weighty sender receiver) hi lo result.responseRanges

theorem Reply.cons {r₁ r₂ : ReconcileResult}
    (h₁ : Reply sender receiver r.upperBound lo [r] r₁)
    (h₂ : Reply sender receiver hi r.upperBound ranges r₂) :
    Reply sender receiver hi lo (r :: ranges)
      ⟨r₁.responseRanges ++ r₂.responseRanges, r₁.haveItems ++ r₂.haveItems,
        r₁.complete && r₂.complete⟩ where
  lists := h₁.lists.append h₂.lists
  haveItems := by
    rw [h₁.haveItems, h₂.haveItems]
    exact (itemListItems_append [r] ranges).symm
  keeps l := by
    have hsplit : itemsIn l lo (r :: ranges) =
        itemsIn l lo [r] ++ itemsIn l r.upperBound ranges := by
      simp only [itemsIn_cons, itemsIn_nil, List.append_nil]
    rw [hsplit, itemsIn_append l h₁.lists]
    intro h hh
    rcases List.mem_append.mp hh with hh | hh
    · exact List.mem_append_left _ (h₁.keeps l hh)
    · exact List.mem_append_right _ (h₂.keeps l hh)
  weighty := fun ⟨hle, hw, hrest⟩ => (h₁.weighty (Tiles.single hle hw)).append (h₂.weighty hrest)

/-- A range that is not an item list may be answered with any entry. -/
theorem reply_single {entry : RangeEntry} {complete : Bool} (hle : lo ≤ r.upperBound)
    (hupper : entry.upperBound = r.upperBound) (hentry : Lists receiver lo entry)
    (hmode : r.mode ≠ .itemList) :
    Reply sender receiver r.upperBound lo [r] ⟨[entry], [], complete⟩ where
  lists := ⟨hupper ▸ hle, hentry, hupper⟩
  haveItems := by simp [itemListItems, hmode]
  keeps l := by simp [itemsIn_cons, hmode]
  weighty := fun ⟨_, hw, _⟩ => ⟨hupper ▸ hle, by rwa [Weighty, hupper], hupper⟩

/-- The two halves have at least eight items of the receiver each. -/
theorem reply_split (hlo : lo ≤ mid) (hup : mid ≤ r.upperBound) (hmode : r.mode ≠ .itemList)
    (hleft : 8 ≤ (between receiver lo mid).length)
    (hright : 8 ≤ (between receiver mid r.upperBound).length) :
    Reply sender receiver r.upperBound lo [r]
      ⟨[fingerprintOf (between receiver lo mid) mid,
        fingerprintOf (between receiver mid r.upperBound) r.upperBound], [], false⟩ where
  lists := ⟨hlo, lists_fingerprintOf _ _ _, hup, lists_fingerprintOf _ _ _, rfl⟩
  haveItems := by simp [itemListItems, hmode]
  keeps l := by simp [itemsIn_cons, hmode]
  weighty _ := by
    refine ⟨hlo, ?_, hup, ?_, rfl⟩
    · simp only [Weighty, rangeWeight, fingerprintOf_upperBound]
      omega
    · simp only [Weighty, rangeWeight, fingerprintOf_upperBound]
      omega

/-- **The answer to one entry**, whatever the sender has put into it. -/
theorem performAction_reply (hsorted : receiver.Pairwise (· < ·))
    (hlength : receiver.length < 2 ^ 32)
    (hle : lo ≤ r.upperBound) :
    ∃ result, performAction receiver r (rangeAction receiver lo r) = some result ∧
      Reply sender receiver r.upperBound lo [r] result := by
  have hassign := assignRange_lowerBound hsorted hle
  have hentry := itemEntry_lowerBound hsorted hlength hle
  have hitems := lists_itemsOf hlength lo r.upperBound
  cases hmode : r.mode with
  | skip =>
    rw [rangeAction_skip _ _ hmode]
    exact ⟨_, rfl, reply_single hle rfl (lists_skipEntry _ _) (by simp [hmode])⟩
  | itemList =>
    rw [rangeAction_itemList _ _ hmode]
    refine ⟨⟨[itemsOf (between receiver lo r.upperBound) r.upperBound], r.items, true⟩,
      by simp [performAction, hassign, hentry], ⟨hle, hitems, rfl⟩, ?_, fun l => ?_,
      fun ⟨_, hw, _⟩ => ⟨hle, hw, rfl⟩⟩
    · simp [itemListItems, hmode]
    · simp [itemsIn_cons, hmode]
  | fingerprint =>
    have hother : r.mode ≠ .itemList := by simp [hmode]
    rcases rangeAction_fingerprint receiver lo hmode rfl rfl with
      ⟨hact, -⟩ | ⟨hact, -⟩ | ⟨hact, hlarge⟩
    · rw [hact]
      exact ⟨_, rfl, reply_single hle rfl (lists_skipEntry _ _) hother⟩
    · rw [hact]
      refine ⟨⟨[itemsOf (between receiver lo r.upperBound) r.upperBound], [], false⟩, ?_,
        reply_single hle rfl hitems hother⟩
      simp [performAction, hassign, hentry]
    · rw [ofNat_count hsorted hlength hle, ofNat_le_threshold (length_between_lt hlength _ _),
        Nat.not_le] at hlarge
      obtain ⟨mid, splitHash, hmid, hget, hlo, hup, hleft, hright, hlenLeft, hlenRight⟩ :=
        split_spec hsorted hlength hle hlarge
      rw [hact, hmid]
      refine ⟨_, ?_, reply_split hlo hup hother (by omega) (by omega)⟩
      simp [performAction, hget, hleft, hright]

theorem processFrom_reply (hsorted : receiver.Pairwise (· < ·))
    (hlength : receiver.length < 2 ^ 32) :
    ∀ {lo : Hash32} {ranges : List RangeEntry},
    Tiles RangeEntry.upperBound P hi lo ranges →
    ∃ result, processFrom receiver lo ranges = some result ∧
      Reply sender receiver hi lo ranges result
  | _, [], htiles => ⟨_, rfl, htiles, rfl, fun _ => List.Subset.refl _, id⟩
  | _, _ :: _, ⟨hle, _, hrest⟩ => by
    obtain ⟨r₁, hr₁, hreply₁⟩ := performAction_reply hsorted hlength hle
    obtain ⟨r₂, hr₂, hreply₂⟩ := processFrom_reply hsorted hlength hrest
    exact ⟨_, by simp [processFrom, hr₁, hr₂], hreply₁.cons hreply₂⟩

/-- **The answer to an honest message is honest and asks for all that was asked for.** -/
theorem processRanges_reply (hsorted : receiver.Pairwise (· < ·))
    (hlength : receiver.length < 2 ^ 32)
    (hhonest : Honest sender receiver maxHash minHash ranges) :
    ∃ result, processRanges receiver ranges = some result ∧
      result.haveItems = itemListItems ranges ∧
      (∀ l, itemsIn l minHash ranges ⊆ itemsIn l minHash result.responseRanges) ∧
      Honest receiver sender maxHash minHash result.responseRanges := by
  obtain ⟨result, hresult, hreply⟩ := processFrom_reply hsorted hlength hhonest.lists
  exact ⟨result, hresult, hreply.haveItems, hreply.keeps, hreply.lists,
    (hreply.weighty hhonest.weighty).imp fun _ _ _ h => weighty_symm h⟩

end

/-! ## The two sides of an exchange -/

theorem Side.eq_other {a b : Side} (h : a ≠ b) : a = b.other := by
  cases a <;> cases b <;> simp_all [Side.other]

theorem Side.forall_of {p : Side → Prop} (side : Side) (h : p side) (hother : p side.other) :
    ∀ s, p s := by
  intro s
  by_cases hs : s = side
  · exact hs ▸ h
  · exact Side.eq_other hs ▸ hother

/-- Where an undecodable `ReconcileRanges` leads a side. -/
def invalidPhase : Side → LoopPhase
  | .initiator => .aborted
  | .responder => .left

namespace Exchange

def loop (ex : Exchange) : Side → Option ReconcileLoop
  | .initiator => some ex.initiator
  | .responder => ex.responder

def inbox (ex : Exchange) : Side → List SyncMessage
  | .initiator => ex.toInitiator
  | .responder => ex.toResponder

/-- The side has handled a message with this outcome. -/
structure Handled (side : Side) (rest : List SyncMessage)
    (outcome : ReconcileLoop × List SyncMessage) (ex ex' : Exchange) : Prop where
  loop : ex'.loop side = some outcome.1
  loop_other : ex'.loop side.other = ex.loop side.other
  inbox : ex'.inbox side = rest
  inbox_other : ex'.inbox side.other = ex.inbox side.other ++ outcome.2

section

variable {ns : Hash32} {own : Side → List Hash32} {side : Side} {loop : ReconcileLoop}
  {msg : SyncMessage} {rest : List SyncMessage} {ex ex' : Exchange}

theorem deliver_nil (hinbox : ex.inbox side = []) :
    ex.deliver ns (own .initiator) (own .responder) side = none := by
  cases side <;> simp only [Exchange.inbox] at hinbox <;> simp [deliver, hinbox]

/-- A delivery to a side that is in its loop. -/
theorem handled_of_deliver (hloop : ex.loop side = some loop) (hinbox : ex.inbox side = msg :: rest)
    (hdeliver : ex.deliver ns (own .initiator) (own .responder) side = some ex') :
    Handled side rest (reconcileRound (invalidPhase side) ns (own side) loop msg) ex ex' := by
  cases side with
  | initiator =>
    simp only [Exchange.inbox] at hinbox
    simp only [Exchange.loop, Option.some.injEq] at hloop
    simp only [deliver, hinbox, Option.ite_none_right_eq_some, Option.some.injEq] at hdeliver
    obtain ⟨-, rfl⟩ := hdeliver
    subst hloop
    exact ⟨rfl, rfl, rfl, rfl⟩
  | responder =>
    simp only [Exchange.inbox] at hinbox
    simp only [Exchange.loop] at hloop
    simp only [deliver, hinbox, hloop, Option.ite_none_right_eq_some, Option.some.injEq] at hdeliver
    obtain ⟨-, rfl⟩ := hdeliver
    exact ⟨rfl, rfl, rfl, rfl⟩

end

end Exchange

/-! ## What is collected while a range is open -/

/-- The hashes a side lacks among the items of a message that still has a fingerprint range. -/
def earlyItemsOf (own : List Hash32) (msg : SyncMessage) : List Hash32 :=
  if msg.type = .reconcileRanges then
    match decodeReconcileRanges msg.payload with
    | none => []
    | some decoded =>
      if hasFingerprint decoded.ranges then missingHashes own (itemListItems decoded.ranges) else []
  else []

def Exchange.earlyItems (ex : Exchange) (own : List Hash32) (side : Side) : List Hash32 :=
  match ex.inbox side with
  | [] => []
  | msg :: _ => earlyItemsOf own msg

/-- Those of all messages that a schedule delivers to a side. -/
def Exchange.early (ns : Hash32) (own : Side → List Hash32) (side : Side) :
    List Side → Exchange → List Hash32
  | [], _ => []
  | next :: rest, ex =>
    (if next = side then ex.earlyItems (own side) side else []) ++
      match ex.deliver ns (own .initiator) (own .responder) next with
      | none => []
      | some ex' => Exchange.early ns own side rest ex'

theorem missingHashes_append (own items more : List Hash32) :
    missingHashes own (items ++ more) = missingHashes own items ++ missingHashes own more :=
  List.filter_append ..

/-- A side that is still in its loop has collected the hashes it lacks from messages with a
fingerprint range only. -/
structure Collecting (own early : List Hash32) (loop : ReconcileLoop) : Prop where
  phase : loop.phase ≠ .left
  missing : missingHashes own loop.peerItems = early

/-- A side that has left its loop has got all of them again with the last message. -/
def Left (own early : List Hash32) (loop : ReconcileLoop) : Prop :=
  ∃ items, missingHashes own loop.peerItems = early ++ missingHashes own items ∧ items.Nodup ∧
    early ⊆ missingHashes own items

section

variable {own early items : List Hash32} {loop : ReconcileLoop}

theorem Collecting.next (h : Collecting own early loop) (items : List Hash32) :
    Collecting own (early ++ missingHashes own items) (loop.next items) where
  phase := by
    unfold ReconcileLoop.next
    split_ifs <;> simp
  missing := by rw [ReconcileLoop.next, missingHashes_append, h.missing]

theorem Collecting.leave (h : Collecting own early loop) (hnodup : items.Nodup)
    (hearly : early ⊆ items) : Left own early (loop.leave .left items) := by
  refine ⟨items, by rw [ReconcileLoop.leave, missingHashes_append, h.missing], hnodup, ?_⟩
  intro hash hhash
  have hlacks : hash ∈ missingHashes own loop.peerItems := h.missing ▸ hhash
  exact List.mem_filter.mpr ⟨hearly hhash, (List.mem_filter.mp hlacks).2⟩

/-- Whatever was collected early is there twice. -/
theorem Left.nodup_iff (h : Left own early loop) :
    (missingHashes own loop.peerItems).Nodup ↔ early = [] := by
  obtain ⟨items, hmissing, hnodup, hearly⟩ := h
  rw [hmissing]
  constructor
  · intro htwice
    rw [List.eq_nil_iff_forall_not_mem]
    intro hash hhash
    exact List.disjoint_of_nodup_append htwice hhash (hearly hhash)
  · rintro rfl
    exact hnodup.filter _

end

/-! ## The exchange -/

section

variable {ns : Hash32} {sender receiver : List Hash32} {ranges : List RangeEntry} {side : Side}
  {loop : ReconcileLoop}

theorem Honest.ne_nil (h : Honest sender receiver maxHash minHash ranges) : ranges ≠ [] := by
  rintro rfl
  have hne : minHash ≠ maxHash := by decide
  exact hne h.lists

theorem Honest.decode (hsender : sender.length < 2 ^ 32) (hreceiver : receiver.length < 2 ^ 32)
    (h : Honest sender receiver maxHash minHash ranges) :
    decodeReconcileRanges (encodeReconcileRanges ns ranges) = some ⟨ns, ranges⟩ := by
  refine decodeReconcileRanges_encode ns (length_lt_of_weighty hsender hreceiver h.weighty) ?_
  have hcanonical : ∀ {lo : Hash32} {ranges : List RangeEntry},
      Tiles RangeEntry.upperBound (Lists sender) maxHash lo ranges → ∀ r ∈ ranges, r.Canonical := by
    intro lo ranges htiles
    induction ranges generalizing lo with
    | nil => simp
    | cons r rest ih =>
      intro x hx
      rcases List.mem_cons.mp hx with rfl | hx
      · exact htiles.2.1.1
      · exact ih htiles.2.2 x hx
  exact hcanonical h.lists

section Round

variable (hsender : sender.length < 2 ^ 32) (hreceiver : receiver.length < 2 ^ 32)

include hsender hreceiver

theorem Honest.earlyItemsOf_eq (h : Honest sender receiver maxHash minHash ranges) :
    earlyItemsOf receiver (rangesMessage ns ranges) =
      if hasFingerprint ranges then missingHashes receiver (itemListItems ranges) else [] := by
  have hdecode : decodeReconcileRanges (encodeReconcileRanges ns ranges) = some ⟨ns, ranges⟩ :=
    h.decode hsender hreceiver
  simp [earlyItemsOf, rangesMessage, hdecode]

/-- Without a fingerprint range the receiver leaves its loop and sends its own items. -/
theorem Honest.round_settled (h : Honest sender receiver maxHash minHash ranges)
    (hfingerprint : hasFingerprint ranges = false) (invalid : LoopPhase) (loop : ReconcileLoop) :
    reconcileRound invalid ns receiver loop (rangesMessage ns ranges) =
      (loop.leave .left (itemListItems ranges),
          [itemsMessage ns (ourRangeItems receiver ranges)]) := by
  have hdecode : decodeReconcileRanges (encodeReconcileRanges ns ranges) = some ⟨ns, ranges⟩ :=
    h.decode hsender hreceiver
  simp [reconcileRound, rangesMessage, itemsMessage, hdecode, h.ne_nil, hfingerprint]

/-- With one it collects the items and answers with ranges that ask for no less. -/
theorem Honest.round_open (hsorted : receiver.Pairwise (· < ·))
    (h : Honest sender receiver maxHash minHash ranges)
    (hfingerprint : hasFingerprint ranges = true)
    (invalid : LoopPhase) (loop : ReconcileLoop) :
    ∃ response, Honest receiver sender maxHash minHash response ∧
      (∀ s, itemsIn s minHash ranges ⊆ itemsIn s minHash response) ∧
      reconcileRound invalid ns receiver loop (rangesMessage ns ranges) =
        (loop.next (itemListItems ranges), [rangesMessage ns response]) := by
  have hdecode : decodeReconcileRanges (encodeReconcileRanges ns ranges) = some ⟨ns, ranges⟩ :=
    h.decode hsender hreceiver
  obtain ⟨result, hresult, hhave, hkeeps, hreply⟩ := processRanges_reply hsorted hreceiver h
  refine ⟨result.responseRanges, hreply, hkeeps, ?_⟩
  simp [reconcileRound, rangesMessage, hdecode, h.ne_nil, hfingerprint, hresult, hhave]

end Round

/-- A message that ends the loop of its receiver with these items. -/
structure Closing (ns : Hash32) (side : Side) (items : List Hash32) (msg : SyncMessage) : Prop where
  read : ∀ own loop, reconcileRound (invalidPhase side) ns own loop msg =
    (loop.leave .left items, [])
  early : ∀ own, earlyItemsOf own msg = []

theorem closing_itemsMessage {items : List Hash32} (hlength : items.length < 2 ^ 32) :
    Closing ns side items (itemsMessage ns items) :=
  ⟨fun own loop => reconcileRound_items hlength _ ns own loop, fun _ => rfl⟩

theorem closing_empty : Closing ns side [] (rangesMessage ns []) where
  read own loop := reconcileRound_empty _ ns own loop
  early own := by
    have hdecode : decodeReconcileRanges (encodeReconcileRanges ns []) = some ⟨ns, []⟩ :=
      decodeReconcileRanges_encode ns (by decide) (by simp)
    simp [earlyItemsOf, rangesMessage, hdecode, hasFingerprint]

end

/-- The states of the exchange of one namespace, with what each side has collected early. -/
inductive Walk (ns : Hash32) (own early : Side → List Hash32) (ex : Exchange) : Prop
  | opening (hstart : ex = Exchange.start ns (own .initiator)) (hearly : ∀ side, early side = [])
  /-- a range message is on its way to a side; what either side has collected early is asked for
  by it -/
  | ranges (side : Side) (ranges : List RangeEntry)
      (hinbox : ex.inbox side = [rangesMessage ns ranges]) (hother : ex.inbox side.other = [])
      (hhonest : Honest (own side.other) (own side) maxHash minHash ranges)
      (hloops : ∀ side, ∃ loop, ex.loop side = some loop ∧ Collecting (own side) (early side) loop)
      (hasked : ∀ side, early side ⊆ itemsIn (own side.other) minHash ranges)
  /-- a side has left, and its last message is on its way -/
  | closing (side : Side) (items : List Hash32) (msg : SyncMessage) (loop left : ReconcileLoop)
      (hinbox : ex.inbox side = [msg]) (hother : ex.inbox side.other = [])
      (hclosing : Closing ns side items msg) (hnodup : items.Nodup)
      (hloop : ex.loop side = some loop) (hcollecting : Collecting (own side) (early side) loop)
      (hasked : early side ⊆ items) (hleft : ex.loop side.other = some left)
      (hother : Left (own side.other) (early side.other) left)
  | closed (hinbox : ∀ side, ex.inbox side = [])
      (hloops : ∀ side, ∃ loop, ex.loop side = some loop ∧ Left (own side) (early side) loop)

section

variable {ns : Hash32} {own early : Side → List Hash32}
  {ex ex' : Exchange} {side : Side}

theorem Walk.left (h : Walk ns own early ex) {loop : ReconcileLoop}
    (hloop : ex.loop side = some loop) (hphase : loop.phase = .left) :
    Left (own side) (early side) loop := by
  cases h with
  | opening hstart hearly =>
    subst hstart
    cases side with
    | initiator =>
      obtain rfl := Option.some.inj hloop
      simp [Exchange.start, initiatorStart] at hphase
    | responder => simp [Exchange.loop, Exchange.start] at hloop
  | ranges _ _ _ _ _ hloops _ =>
    obtain ⟨loop', hloop', hcollecting⟩ := hloops side
    obtain rfl := Option.some.inj (hloop.symm.trans hloop')
    exact absurd hphase hcollecting.phase
  | closing side' items msg loop' left _ _ _ _ hloop' hcollecting _ hleft hother =>
    by_cases hside : side = side'
    · subst hside
      obtain rfl := Option.some.inj (hloop.symm.trans hloop')
      exact absurd hphase hcollecting.phase
    · obtain rfl := Side.eq_other hside
      obtain rfl := Option.some.inj (hloop.symm.trans hleft)
      exact hother
  | closed _ hloops =>
    obtain ⟨loop', hloop', hleft⟩ := hloops side
    obtain rfl := Option.some.inj (hloop.symm.trans hloop')
    exact hleft

/-- What is collected early with the next message to a side. -/
def Exchange.earlyAfter (ex : Exchange) (own early : Side → List Hash32) (side : Side) :
    Side → List Hash32 :=
  fun s => early s ++ if side = s then ex.earlyItems (own s) s else []

theorem earlyAfter_self (ex : Exchange) (own early : Side → List Hash32) (side : Side) :
    ex.earlyAfter own early side side = early side ++ ex.earlyItems (own side) side := by
  simp [Exchange.earlyAfter]

theorem earlyAfter_other (ex : Exchange) (own early : Side → List Hash32) (side : Side) :
    ex.earlyAfter own early side side.other = early side.other := by
  simp [Exchange.earlyAfter, (Side.other_ne side).symm]

variable (hsorted : ∀ side, (own side).Pairwise (· < ·)) (hlength : ∀ side,
  (own side).length < 2 ^ 32)

include hsorted hlength in
/-- The responder reads the init message: its only range is open and lists nothing. -/
theorem Walk.deliver_opening (hearly : ∀ side, early side = [])
    (hdeliver : (Exchange.start ns (own .initiator)).deliver ns (own .initiator)
      (own .responder) side = some ex') :
    Walk ns own ((Exchange.start ns (own .initiator)).earlyAfter own early side) ex' := by
  have hnone (s : Side) :
      (Exchange.start ns (own .initiator)).earlyAfter own early side s = [] := by
    cases s <;> simp [Exchange.earlyAfter, hearly, Exchange.earlyItems, Exchange.inbox,
      Exchange.start, initiatorStart, earlyItemsOf]
  cases side with
  | initiator => simp [Exchange.deliver, Exchange.start] at hdeliver
  | responder =>
    have hdecode : decodeReconcileInit (encodeReconcileInit (initOf ns (own .initiator)))
        = some (initOf ns (own .initiator)) := decodeReconcileInit_encode rfl
    have hhonest : Honest (own .initiator) (own .responder) maxHash minHash
        [initRangeOf (initOf ns (own .initiator))] := by
      refine ⟨⟨minHash_le _, ⟨rfl, fun h => by simp [initRangeOf] at h⟩, rfl⟩,
        minHash_le _, ?_, rfl⟩
      have hstart : minHash < maxHash := by decide
      simp [Weighty, rangeWeight, initRangeOf, hstart]
    obtain ⟨result, hresult, hhave, -, hreply⟩ := 
      processRanges_reply (hsorted _) (hlength _) hhonest
    have hempty : result.haveItems = [] := by rw [hhave]; rfl
    simp only [Exchange.deliver, Exchange.start, initiatorStart, hdecode, if_true,
      Option.bind_eq_bind, Option.bind_some, Option.some.injEq, List.nil_append, responderStart,
      hresult, hempty] at hdeliver
    subst hdeliver
    by_cases hcomplete : result.complete = true
    · simp only [hcomplete, if_true]
      refine .closing .initiator [] _ _ _ rfl rfl closing_empty List.nodup_nil rfl
        ⟨by simp, ?_⟩ ?_ rfl ⟨[], ?_⟩
      · rw [hnone]; rfl
      · rw [hnone]; simp
      · rw [hnone]; exact ⟨rfl, List.nodup_nil, by simp⟩
    · simp only [hcomplete]
      refine .ranges .initiator result.responseRanges rfl rfl hreply ?_ fun s => by rw [hnone]; simp
      refine Side.forall_of .initiator ⟨_, rfl, by simp, ?_⟩ ⟨_, rfl, by simp, ?_⟩
      · rw [hnone]; rfl
      · rw [hnone]; rfl

/-- A message with which nothing is collected early. -/
theorem earlyAfter_of_nil (h : ex.earlyItems (own side) side = []) :
    ex.earlyAfter own early side = early := by
  funext s
  unfold Exchange.earlyAfter
  split_ifs with hs
  · rw [← hs, h, List.append_nil]
  · rw [List.append_nil]

section Ranges

variable {ranges : List RangeEntry} (hinbox : ex.inbox side = [rangesMessage ns ranges])
  (hother : ex.inbox side.other = [])
  (hhonest : Honest (own side.other) (own side) maxHash minHash ranges)
  (hloops : ∀ side, ∃ loop, ex.loop side = some loop ∧ Collecting (own side) (early side) loop)
  (hasked : ∀ side, early side ⊆ itemsIn (own side.other) minHash ranges)
  (hdeliver : ex.deliver ns (own .initiator) (own .responder) side = some ex')

include hsorted hlength hinbox hother hhonest hloops hasked hdeliver

/-- **A settled range message is read**: it is answered with the items it asks for. -/
theorem Walk.deliver_settled (hfingerprint : hasFingerprint ranges = false) :
    Walk ns own (ex.earlyAfter own early side) ex' := by
  obtain ⟨loop, hloop, hcollecting⟩ := hloops side
  obtain ⟨loopO, hloopO, hcollectingO⟩ := hloops side.other
  have hhandled := Exchange.handled_of_deliver hloop hinbox hdeliver
  rw [hhonest.round_settled (hlength _) (hlength _) hfingerprint] at hhandled
  have hearly : ex.earlyItems (own side) side = [] := by
    simp only [Exchange.earlyItems, hinbox]
    rw [hhonest.earlyItemsOf_eq (hlength _) (hlength _), hfingerprint]
    rfl
  rw [earlyAfter_of_nil hearly]
  have hlists := ourRangeItems_eq_itemsIn (hsorted side) hhonest.lists
  have hshort := length_itemsIn_le (hsorted side) hhonest.lists
  have haskedO := hasked side.other
  rw [Side.other_other] at haskedO
  refine .closing side.other (ourRangeItems (own side) ranges) _ loopO
    (loop.leave .left (itemListItems ranges)) ?_ ?_
    (closing_itemsMessage ?_) ?_ ?_ hcollectingO ?_ ?_ ?_
  · rw [hhandled.inbox_other, hother, List.nil_append]
  · rw [Side.other_other]
    exact hhandled.inbox
  · rw [hlists]
    exact Nat.lt_of_le_of_lt hshort (hlength side)
  · rw [hlists]
    exact nodup_itemsIn (hsorted side) hhonest.lists
  · rw [hhandled.loop_other]
    exact hloopO
  · rw [hlists]
    exact haskedO
  · rw [Side.other_other]
    exact hhandled.loop
  · rw [Side.other_other, itemListItems_eq_itemsIn hhonest.lists]
    exact hcollecting.leave (nodup_itemsIn (hsorted _) hhonest.lists) (hasked side)

/-- **An open range message is read**: what was asked for, and what is collected with it, is asked
for by the answer. -/
theorem Walk.deliver_open (hfingerprint : hasFingerprint ranges = true) :
    Walk ns own (ex.earlyAfter own early side) ex' := by
  obtain ⟨loop, hloop, hcollecting⟩ := hloops side
  obtain ⟨loopO, hloopO, hcollectingO⟩ := hloops side.other
  have hhandled := Exchange.handled_of_deliver hloop hinbox hdeliver
  obtain ⟨response, hreply, hkeeps, hround⟩ := @Honest.round_open ns _ _ _ (hlength _) (hlength _)
    (hsorted side) hhonest hfingerprint (invalidPhase side) loop
  rw [hround] at hhandled
  have hearly : ex.earlyItems (own side) side =
      missingHashes (own side) (itemListItems ranges) := by
    simp only [Exchange.earlyItems, hinbox]
    rw [hhonest.earlyItemsOf_eq (hlength _) (hlength _), hfingerprint]
    rfl
  refine .ranges side.other response ?_ ?_ ?_ ?_ ?_
  · rw [hhandled.inbox_other, hother, List.nil_append]
  · rw [Side.other_other]
    exact hhandled.inbox
  · rw [Side.other_other]
    exact hreply
  · refine Side.forall_of side ⟨_, hhandled.loop, ?_⟩ ⟨loopO, ?_, ?_⟩
    · rw [earlyAfter_self, hearly]
      exact hcollecting.next _
    · rw [hhandled.loop_other]
      exact hloopO
    · rw [earlyAfter_other]
      exact hcollectingO
  · refine Side.forall_of side ?_ ?_
    · rw [earlyAfter_self, hearly]
      have hitems := itemListItems_eq_itemsIn hhonest.lists
      refine List.append_subset.mpr ⟨fun h hh => hkeeps _ (hasked side hh), fun h hh => ?_⟩
      exact hkeeps _ (hitems ▸ (List.mem_filter.mp hh).1)
    · rw [earlyAfter_other]
      exact fun h hh => hkeeps _ (hasked side.other hh)

end Ranges

/-- The last message is read. -/
theorem Walk.deliver_closing {items : List Hash32} {msg : SyncMessage} {loop left : ReconcileLoop}
    (hinbox : ex.inbox side = [msg]) (hother : ex.inbox side.other = [])
    (hclosing : Closing ns side items msg) (hnodup : items.Nodup)
    (hloop : ex.loop side = some loop) (hcollecting : Collecting (own side) (early side) loop)
    (hasked : early side ⊆ items) (hleft : ex.loop side.other = some left)
    (hleftO : Left (own side.other) (early side.other) left)
    (hdeliver : ex.deliver ns (own .initiator) (own .responder) side = some ex') :
    Walk ns own (ex.earlyAfter own early side) ex' := by
  have hhandled := Exchange.handled_of_deliver hloop hinbox hdeliver
  rw [hclosing.read] at hhandled
  have hearly : ex.earlyItems (own side) side = [] := by
    simp only [Exchange.earlyItems, hinbox]
    exact hclosing.early _
  rw [earlyAfter_of_nil hearly]
  refine .closed (Side.forall_of side hhandled.inbox ?_) (Side.forall_of side ⟨_, hhandled.loop, ?_⟩
    ⟨left, ?_, hleftO⟩)
  · rw [hhandled.inbox_other, hother]
    rfl
  · exact hcollecting.leave hnodup hasked
  · rw [hhandled.loop_other]
    exact hleft

include hsorted hlength in
/-- **One delivery.** -/
theorem Walk.deliver (h : Walk ns own early ex)
    (hdeliver : ex.deliver ns (own .initiator) (own .responder) side = some ex') :
    Walk ns own (ex.earlyAfter own early side) ex' := by
  cases h with
  | opening hstart hearly =>
    subst hstart
    exact Walk.deliver_opening hsorted hlength hearly hdeliver
  | ranges side' ranges hinbox hother hhonest hloops hasked =>
    by_cases hside : side = side'
    · subst hside
      cases hfingerprint : hasFingerprint ranges with
      | false =>
        exact Walk.deliver_settled hsorted hlength hinbox hother hhonest hloops hasked hdeliver
          hfingerprint
      | true =>
        exact Walk.deliver_open hsorted hlength hinbox hother hhonest hloops hasked hdeliver
          hfingerprint
    · obtain rfl := Side.eq_other hside
      rw [Exchange.deliver_nil hother] at hdeliver
      cases hdeliver
  | closing side' items msg loop left hinbox hother hclosing hnodup hloop hcollecting hasked
      hleft hleftO =>
    by_cases hside : side = side'
    · subst hside
      exact Walk.deliver_closing hinbox hother hclosing hnodup hloop hcollecting hasked hleft hleftO
        hdeliver
    · obtain rfl := Side.eq_other hside
      rw [Exchange.deliver_nil hother] at hdeliver
      cases hdeliver
  | closed hinbox hloops =>
    rw [Exchange.deliver_nil (hinbox side)] at hdeliver
    cases hdeliver

include hsorted hlength in
/-- **Whole runs.** -/
theorem Walk.run {schedule : List Side} (h : Walk ns own early ex)
    (hrun : ex.run ns (own .initiator) (own .responder) schedule = some ex') :
    Walk ns own (fun s => early s ++ ex.early ns own s schedule) ex' := by
  induction schedule generalizing ex early with
  | nil =>
    obtain rfl := Option.some.inj hrun
    simpa [Exchange.early] using h
  | cons side rest ih =>
    rw [Exchange.run, Option.bind_eq_bind, Option.bind_eq_some_iff] at hrun
    obtain ⟨next, hdeliver, hrun⟩ := hrun
    have hrest := ih (h.deliver hsorted hlength hdeliver) hrun
    have hsplit : (fun s => ex.earlyAfter own early side s ++ next.early ns own s rest) =
        fun s => early s ++ ex.early ns own s (side :: rest) := by
      funext s
      simp only [Exchange.earlyAfter, Exchange.early, hdeliver, List.append_assoc]
    rwa [hsplit] at hrest

end

/-- **Nothing is missing twice exactly if** the side has lacked no item of a message that still
had a fingerprint range: such an item is collected at once, and again with the message that ends
the loop of the side. -/
theorem missing_nodup_iff (ns : Hash32) (own : Side → List Hash32)
    (hsorted : ∀ side, (own side).Pairwise (· < ·)) (hlength : ∀ side, (own side).length < 2 ^ 32)
    (schedule : List Side) (ex : Exchange)
    (hrun : (Exchange.start ns (own .initiator)).run ns (own .initiator) (own .responder) schedule =
      some ex)
    (side : Side) (loop : ReconcileLoop) (hloop : ex.loop side = some loop)
    (hleft : loop.phase = .left) :
    (missingHashes (own side) loop.peerItems).Nodup ↔
      (Exchange.start ns (own .initiator)).early ns own side schedule = [] := by
  have hstart : Walk ns own (fun _ => []) (Exchange.start ns (own .initiator)) :=
    .opening rfl fun _ => rfl
  exact ((hstart.run hsorted hlength hrun).left hloop hleft).nodup_iff

/-! ## What is requested -/

theorem flatten_batches (missing : List Hash32) (count : Nat) :
    ((List.range count).map fun i => (missing.drop (i * Session.MAX_HASHES_PER_REQUEST)).take
      Session.MAX_HASHES_PER_REQUEST).flatten =
      missing.take (count * Session.MAX_HASHES_PER_REQUEST) := by
  induction count with
  | zero => simp
  | succ count ih =>
    rw [List.range_succ, List.map_append, List.flatten_append, ih, Nat.succ_mul, List.take_add]
    simp

/-- The batches of a namespace hold its missing hashes, each as often as it is missing. -/
theorem flatten_batchesOf (missing : List Hash32) :
    (Session.batchesOf missing).flatten = missing := by
  rw [Session.batchesOf, flatten_batches, List.take_of_length_le]
  simp only [Session.MAX_HASHES_PER_REQUEST]
  omega

/-- The namespaces and hashes that phase C requests, one by one. -/
def requestedHashes (missingPerNs : Table Hash32 (List Hash32)) : List (Hash32 × Hash32) :=
  (Session.requests missingPerNs).flatMap fun request => request.2.map (request.1, ·)

theorem requestedHashes_eq (missingPerNs : Table Hash32 (List Hash32)) :
    requestedHashes missingPerNs =
      missingPerNs.toList.flatMap fun entry => entry.2.map (entry.1, ·) := by
  rw [requestedHashes, Session.requests, List.flatMap_assoc]
  refine List.flatMap_congr fun entry _ => ?_
  conv_rhs => rw [← flatten_batchesOf entry.2]
  simp [List.flatMap_def, List.map_flatten, Function.comp_def]

/-- **A blob is requested at most once exactly if** no namespace misses a hash twice. -/
theorem requestedHashes_nodup_iff (missingPerNs : Table Hash32 (List Hash32)) :
    (requestedHashes missingPerNs).Nodup ↔
      ∀ (ns : Hash32) (missing : List Hash32), missingPerNs[ns]? =
          some missing → missing.Nodup := by
  rw [requestedHashes_eq, List.nodup_flatMap]
  constructor
  · rintro ⟨hnodup, -⟩ ns missing hentry
    exact (hnodup (ns, missing)
      (Std.ExtTreeMap.mem_toList_iff_getElem?_eq_some.mpr hentry)).of_map
  · intro hnodup
    refine ⟨fun entry hentry => ?_, ?_⟩
    · have hmissing := Std.ExtTreeMap.mem_toList_iff_getElem?_eq_some.mp hentry
      exact (hnodup _ _ hmissing).map (Prod.mk_right_injective entry.1)
    · refine Std.ExtTreeMap.distinct_keys_toList.imp fun hkeys pair h₁ h₂ => hkeys ?_
      obtain ⟨_, -, rfl⟩ := List.mem_map.mp h₁
      obtain ⟨_, -, hpair⟩ := List.mem_map.mp h₂
      exact Std.LawfulEqCmp.compare_eq_iff_eq.mpr (Prod.mk.inj hpair).1.symm

/-! ## Two runs -/

/-- The initiator has a hash below, and seventeen above, the middle of the responder's seventeen. -/
def echoHashes : Side → List Hash32
  | .initiator =>
    FixedBytes.fill 32 1 :: (List.range 17).map fun i => FixedBytes.fill 32 (UInt8.ofNat (i + 101))
  | .responder => (List.range 17).map fun i => FixedBytes.fill 32 (UInt8.ofNat (2 * i + 2))

/-- The init message, three range messages and the items. -/
def echoSchedule : List Side := [.responder, .initiator, .responder, .initiator, .responder]

def echoRun : Option Exchange :=
  (Exchange.start minHash (echoHashes .initiator)).run minHash (echoHashes .initiator)
    (echoHashes .responder) echoSchedule

set_option maxRecDepth 20000 in
theorem pairwise_echoHashes : ∀ side, (echoHashes side).Pairwise (· < ·) := by
  intro side
  cases side <;> decide

theorem length_echoHashes : ∀ side, (echoHashes side).length < 2 ^ 32 := by
  intro side
  cases side <;> decide

set_option maxRecDepth 20000 in
theorem phases_echoRun : echoRun.map (fun ex => (ex.initiator.phase, ex.responder.map (·.phase))) =
    some (.left, some .left) := by
  decide

set_option maxRecDepth 20000 in
/-- The initiator misses no hash twice: it gets the responder's items with one message. -/
theorem missing_nodup_initiator : ∃ ex, echoRun = some ex ∧
    (missingHashes (echoHashes .initiator) ex.initiator.peerItems).Nodup := by
  obtain ⟨ex, hrun, hphases⟩ := Option.map_eq_some_iff.mp phases_echoRun
  refine ⟨ex, hrun, (missing_nodup_iff minHash echoHashes pairwise_echoHashes length_echoHashes
    echoSchedule ex hrun .initiator ex.initiator rfl (Prod.mk.inj hphases).1).mpr ?_⟩
  decide

set_option maxRecDepth 20000 in
/-- The responder lists the hash below the middle twice, and requests it twice: the initiator has
sent it while the ranges above the middle were still open, and again with its last message. -/
theorem missing_twice : ∃ ex loop, echoRun = some ex ∧ ex.responder = some loop ∧
    loop.phase = .left ∧
    (missingHashes (echoHashes .responder) loop.peerItems).take 2 =
      [FixedBytes.fill 32 1, FixedBytes.fill 32 1] ∧
    (Session.batchesOf (missingHashes (echoHashes .responder) loop.peerItems)).map
      (·.count (FixedBytes.fill 32 1)) = [2] := by
  have hrun : echoRun.map (fun ex => ex.responder.map fun loop => (loop.phase,
      (missingHashes (echoHashes .responder) loop.peerItems).take 2,
      (Session.batchesOf (missingHashes (echoHashes .responder) loop.peerItems)).map
        (·.count (FixedBytes.fill 32 1)))) =
      some (some (.left, [FixedBytes.fill 32 1, FixedBytes.fill 32 1], [2])) := by
    decide
  obtain ⟨ex, hex, hloop⟩ := Option.map_eq_some_iff.mp hrun
  obtain ⟨loop, hloop, hfacts⟩ := Option.map_eq_some_iff.mp hloop
  simp only [Prod.mk.injEq] at hfacts
  exact ⟨ex, loop, hex, hloop, hfacts⟩

end Peer
