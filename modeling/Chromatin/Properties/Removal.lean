import Chromatin.Cli.Remove
import Chromatin.Infra.Run

/-!
# The order in which a chunked file is removed

Request ids count the tombstones, so that the id of a tombstone is its own. `Chunks` is the
invariant of the loop over the chunks: every tombstone below `next` is on its way under its id, or
it was acknowledged, unless an error was counted. So the loop ends without an error only if every
chunk was acknowledged, and only then the tombstone of the manifest is sent.

* `manifest_last` — over all replies and failures, the manifest is deleted behind all chunks
-/

namespace Cli

open Infra Util Wire Net

section Transcript

variable {σ ρ : Type} {c : Command σ ρ}

theorem Command.transcript_append_singleton (answer : Answer) : ∀ (s : σ) (answers : List Answer),
    c.transcript s (answers ++ [answer]) =
      c.transcript s answers ++ c.exchange (run c.step s answers) answer
  | s, [] => by simp [Command.transcript]
  | s, first :: answers => by
    have ih := Command.transcript_append_singleton answer (c.step s first) answers
    rw [List.cons_append, Command.transcript, Command.transcript, ih, run_cons, List.append_assoc]

end Transcript

namespace Remove

variable {i : Nat}

/-- The request id of a tombstone. -/
def ridOf (number : Nat) : UInt32 := UInt32.ofNat (number + 1)

theorem ridOf_succ (number : Nat) : ridOf number + 1 = ridOf (number + 1) := by
  rw [ridOf, ridOf, UInt32.ofNat_add (number + 1) 1]
  rfl

section Log

variable (a : RemoveArgs)

theorem chunkCount_eq : a.chunkCount = a.manifest.segmentCount.toNat := by
  simp [RemoveArgs.chunkCount, RemoveArgs.targets, planTombstoneTargets]

/-- The chunks are the first targets. -/
theorem tombstone_chunk (hi : i < a.chunkCount) :
    (a.tombstone i).blob.data = makeTombstoneData (a.manifest.target i) := by
  rw [chunkCount_eq] at hi
  simp [RemoveArgs.tombstone, RemoveArgs.targets, planTombstoneTargets,
    List.getElem?_append_left, hi]

/-- The manifest is the last target. -/
theorem tombstone_manifest :
    (a.tombstone a.chunkCount).blob.data = makeTombstoneData a.manifestHash := by
  rw [chunkCount_eq]
  simp [RemoveArgs.tombstone, RemoveArgs.targets, planTombstoneTargets]

/-- Every tombstone has a request id of its own, also when the counter wraps. -/
theorem ridOf_inj {j : Nat} (hi : i ≤ a.chunkCount)
    (hj : j ≤ a.chunkCount) (h : ridOf i = ridOf j) :
    i = j := by
  have hcount : a.chunkCount < 2 ^ 32 := by
    rw [chunkCount_eq]
    exact a.manifest.segmentCount.toNat_lt
  have htoNat := congrArg UInt32.toNat h
  rw [ridOf, ridOf, UInt32.toNat_ofNat', UInt32.toNat_ofNat'] at htoNat
  omega

/-- The tombstone was sent under its request id, and behind it an acknowledgement with that id was
received. -/
def Acked (log : List (Exchange Tombstone)) (number : Nat) : Prop :=
  ∃ before between after reply,
    log = before ++ .sent (a.tombstone number)
      (ridOf number) :: (between ++ .received reply :: after) ∧
    reply.requestId = ridOf number ∧ reply.type = MsgType.DeleteAck ∧ 41 ≤ reply.payload.length

/-- `send_async` was called with a tombstone at the end of `before`. -/
def Attempted (log before : List (Exchange Tombstone)) (t : Tombstone) (rid : UInt32) : Prop :=
  ∃ after, log = before ++ .sent t rid :: after ∨ log = before ++ .unsent t rid :: after

/-- Tombstones are sent under their request ids, and that of the manifest behind the
acknowledgements of the chunks. -/
def Ordered (log : List (Exchange Tombstone)) : Prop :=
  ∀ before t rid, Attempted log before t rid →
    ∃ number ≤ a.chunkCount, t = a.tombstone number ∧ rid = ridOf number ∧
      (number = a.chunkCount → ∀ i < a.chunkCount, Acked a before i)

variable {a} {log : List (Exchange Tombstone)} {number : Nat}

theorem Acked.append (h : Acked a log number) (more : List (Exchange Tombstone)) :
    Acked a (log ++ more) number := by
  obtain ⟨before, between, after, reply, rfl, hreply⟩ := h
  exact ⟨before, between, after ++ more, reply, by simp, hreply⟩

/-- The acknowledgement of a tombstone that was sent is received. -/
theorem acked_of_received (hsent : .sent (a.tombstone number) (ridOf number) ∈ log)
    {reply : Message} (hid : reply.requestId = ridOf number) (hack : isDeleteAck reply = true) :
    Acked a (log ++ [.received reply]) number := by
  obtain ⟨before, between, rfl⟩ := List.append_of_mem hsent
  simp only [isDeleteAck, Bool.and_eq_true, decide_eq_true_eq] at hack
  exact ⟨before, between, [], reply, by simp, hid, hack⟩

/-- The last exchange is the one that was just made. -/
theorem attempted_append_singleton {exchange : Exchange Tombstone}
    {before : List (Exchange Tombstone)}
    {t : Tombstone} {rid : UInt32} (h : Attempted (log ++ [exchange]) before t rid) :
    Attempted log before t rid ∨ before = log ∧
    (exchange = .sent t rid ∨ exchange = .unsent t rid) := by
  obtain ⟨after, hlog⟩ := h
  rcases List.eq_nil_or_concat after with rfl | ⟨after, last, rfl⟩
  · rcases hlog with hlog | hlog
    · obtain ⟨rfl, hlast⟩ := List.append_inj' hlog rfl
      exact .inr ⟨rfl, .inl (List.cons.inj hlast).1⟩
    · obtain ⟨rfl, hlast⟩ := List.append_inj' hlog rfl
      exact .inr ⟨rfl, .inr (List.cons.inj hlast).1⟩
  · refine .inl ⟨after, ?_⟩
    rw [List.concat_eq_append, ← List.cons_append, ← List.cons_append, ← List.append_assoc,
      ← List.append_assoc] at hlog
    exact hlog.imp (fun h => (List.append_inj' h (by rfl)).1) fun h =>
      (List.append_inj' h (by rfl)).1

theorem Ordered.received (h : Ordered a log) (reply : Message) :
    Ordered a (log ++ [.received reply]) := by
  intro before t rid hattempt
  rcases attempted_append_singleton hattempt with hattempt | ⟨-, hlast | hlast⟩
  · exact h before t rid hattempt
  · exact absurd hlast (by simp)
  · exact absurd hlast (by simp)

theorem Ordered.attempt (h : Ordered a log) (hle : number ≤ a.chunkCount)
    (hready : number = a.chunkCount → ∀ i < a.chunkCount, Acked a log i) (ok : Bool) :
    Ordered a (log ++ [if ok then .sent (a.tombstone number) (ridOf number)
      else .unsent (a.tombstone number) (ridOf number)]) := by
  intro before t rid hattempt
  rcases attempted_append_singleton hattempt with hattempt | ⟨rfl, hlast⟩
  · exact h before t rid hattempt
  · obtain ⟨rfl, rfl⟩ : a.tombstone number = t ∧ ridOf number = rid := by
      cases ok <;> simpa using hlast
    exact ⟨number, hle, rfl, rfl, hready⟩

end Log

/-! ## The loop over the chunks -/

section Loop

variable (a : RemoveArgs) (log : List (Exchange Tombstone))

structure Chunks (r : Remove) : Prop where
  rid : r.rid = ridOf r.next
  next_le : r.next ≤ a.chunkCount
  counted : r.completed + r.ridToChunkIndex.length = r.next
  keys : (r.ridToChunkIndex.map Prod.fst).Nodup
  bound : ∀ rid i, (rid, i) ∈ r.ridToChunkIndex →
    i < r.next ∧ rid = ridOf i ∧ .sent (a.tombstone i) (ridOf i) ∈ log
  acked : r.errors = 0 → ∀ i < r.next, (∀ rid, (rid, i) ∉ r.ridToChunkIndex) → Acked a log i

/-- Where the command stands. -/
def Removing (r : Remove) : Prop :=
  match r.exit, r.stage with
  | none, .chunks => Chunks a log r
  | none, .manifest => r.rid = ridOf a.chunkCount ∧ ∀ i < a.chunkCount, Acked a log i
  | none, .manifestAck =>
    r.rid - 1 = ridOf a.chunkCount ∧ .sent (a.tombstone a.chunkCount) (ridOf a.chunkCount) ∈ log ∧
      ∀ i < a.chunkCount, Acked a log i
  | some .ok, _ => ∀ i ≤ a.chunkCount, Acked a log i
  | some _, _ => True

variable {a log} {r : Remove}

/-- **The loop ends without an error only if every chunk was acknowledged.** -/
theorem Chunks.all_acked (h : Chunks a log r)
    (hdone : ¬ r.completed < a.chunkCount) (herrors : r.errors = 0) :
    r.rid = ridOf a.chunkCount ∧ ∀ i < a.chunkCount, Acked a log i := by
  have hcounted := h.counted
  have hle := h.next_le
  have hnext : r.next = a.chunkCount := by omega
  have hempty : r.ridToChunkIndex = [] := List.eq_nil_of_length_eq_zero (by omega)
  refine ⟨hnext ▸ h.rid, fun i hi => h.acked herrors i (hnext ▸ hi) ?_⟩
  simp [hempty]

theorem Chunks.advance (h : Chunks a log r) (hexit : r.exit = none) (hstage : r.stage = .chunks) :
    Removing a log (r.advance a) := by
  unfold Remove.advance
  split_ifs with hrunning herrors
  · simpa only [Removing, hexit, hstage] using h
  · simp [Removing]
  · simpa only [Removing, hexit] using h.all_acked hrunning (not_not.mp herrors)

/-- A tombstone is on its way under its request id. -/
theorem Chunks.sentNext (h : Chunks a log r) (hnext : r.next < a.chunkCount) :
    Chunks a (log ++ [.sent (a.tombstone r.next) (ridOf r.next)])
      { r with
        rid := r.rid + 1
        ridToChunkIndex := Assoc.assign r.rid r.next r.ridToChunkIndex
        next := r.next + 1 } := by
  have hfresh : r.rid ∉ r.ridToChunkIndex.map Prod.fst := by
    intro hmem
    obtain ⟨⟨rid, i⟩, hentry, hkey⟩ := List.mem_map.mp hmem
    obtain ⟨hlt, hid, -⟩ := h.bound rid i hentry
    have hsame : ridOf i = ridOf r.next := by rw [← hid, ← h.rid, ← hkey]
    have := ridOf_inj a (hlt.le.trans h.next_le) h.next_le hsame
    omega
  rw [Assoc.assign, Assoc.unbind_of_notMem hfresh]
  have hcounted := h.counted
  refine ⟨by rw [h.rid, ridOf_succ], hnext, ?_, List.nodup_cons.mpr ⟨hfresh, h.keys⟩, ?_, ?_⟩
  · rw [List.length_cons]
    dsimp only
    omega
  · intro rid i hmem
    rcases List.mem_cons.mp hmem with heq | hmem
    · obtain ⟨rfl, rfl⟩ := Prod.mk.inj heq
      exact ⟨Nat.lt_succ_self _, h.rid, by simp⟩
    · obtain ⟨hlt, hid, hsent⟩ := h.bound rid i hmem
      exact ⟨Nat.lt_succ_of_lt hlt, hid, List.mem_append_left _ hsent⟩
  · intro herrors i hi habsent
    have hne : i ≠ r.next := by
      rintro rfl
      exact habsent r.rid List.mem_cons_self
    refine (h.acked herrors i (Nat.lt_of_le_of_ne (Nat.le_of_lt_succ hi) hne) fun rid hmem =>
      ?_).append _
    exact habsent rid (List.mem_cons_of_mem _ hmem)

/-- A tombstone that could not be sent is complete, as an error. -/
theorem Chunks.unsentNext (h : Chunks a log r)
    (hnext : r.next < a.chunkCount) (exchange : Exchange Tombstone) :
    Chunks a (log ++ [exchange])
      { r with
        rid := r.rid + 1
        errors := r.errors + 1
        completed := r.completed + 1
        next := r.next + 1 } where
  rid := by rw [h.rid, ridOf_succ]
  next_le := hnext
  counted := by
    have hcounted := h.counted
    dsimp only
    omega
  keys := h.keys
  bound rid i hmem := by
    obtain ⟨hlt, hid, hsent⟩ := h.bound rid i hmem
    exact ⟨Nat.lt_succ_of_lt hlt, hid, List.mem_append_left _ hsent⟩
  acked herrors := absurd herrors (Nat.succ_ne_zero _)

/-- A tombstone is complete with the reply to it. -/
theorem Chunks.answered (h : Chunks a log r) {reply : Message}
    (hlookup : r.ridToChunkIndex.lookup reply.requestId = some i) :
    Chunks a (log ++ [.received reply])
      { r with
        ridToChunkIndex := Assoc.unbind reply.requestId r.ridToChunkIndex
        completed := r.completed + 1
        errors := if isDeleteAck reply then r.errors else r.errors + 1 } := by
  have hentry := Assoc.mem_of_lookup hlookup
  obtain ⟨hlt, hid, hsent⟩ := h.bound _ _ hentry
  have hlength := Assoc.length_unbind h.keys hentry
  have hcounted := h.counted
  refine ⟨h.rid, h.next_le, ?_, Assoc.nodup_keys_unbind h.keys, ?_, ?_⟩
  · dsimp only
    omega
  · intro rid j hmem
    obtain ⟨hltj, hidj, hsentj⟩ := h.bound rid j (Assoc.mem_unbind.mp hmem).1
    exact ⟨hltj, hidj, List.mem_append_left _ hsentj⟩
  · intro herrors j hj habsent
    -- without an error the reply was an acknowledgement, of this chunk or beside it
    obtain ⟨hack, herrors⟩ : isDeleteAck reply = true ∧ r.errors = 0 := by
      dsimp only at herrors
      split_ifs at herrors with hack
      exact ⟨hack, herrors⟩
    by_cases hji : j = i
    · subst hji
      exact acked_of_received hsent hid hack
    · refine (h.acked herrors j hj fun rid hmem => ?_).append _
      have hne : rid ≠ reply.requestId := by
        rintro rfl
        exact hji (Option.some.inj ((Assoc.lookup_of_mem h.keys hmem).symm.trans hlookup))
      exact habsent rid (Assoc.mem_unbind.mpr ⟨hmem, hne⟩)

theorem Chunks.received (h : Chunks a log r) (reply : Message) :
    Chunks a (log ++ [.received reply]) r where
  rid := h.rid
  next_le := h.next_le
  counted := h.counted
  keys := h.keys
  bound rid i hmem := by
    obtain ⟨hlt, hid, hsent⟩ := h.bound rid i hmem
    exact ⟨hlt, hid, List.mem_append_left _ hsent⟩
  acked herrors i hi habsent := (h.acked herrors i hi habsent).append _

/-! ## Every call -/

theorem removing_afterSend (h : Removing a log r) (hordered : Ordered a log) {t : Tombstone}
    {rid : UInt32}
    (hop : op a r = .sendAsync t rid) (ok : Bool) :
    Removing a (log ++ [if ok then .sent t rid else .unsent t rid]) (r.afterSend a ok) ∧
      Ordered a (log ++ [if ok then .sent t rid else .unsent t rid]) := by
  cases hexit : r.exit with
  | some exit => simp [op, hexit] at hop
  | none =>
    cases hstage : r.stage with
    | chunks =>
      simp only [Removing, hexit, hstage] at h
      have hroom : r.next < a.chunkCount := by
        by_contra hfull
        simp [op, hexit, hstage, hfull] at hop
      obtain ⟨rfl, rfl⟩ : a.tombstone r.next = t ∧ r.rid = rid := by
        simp only [op, hexit, hstage] at hop
        split_ifs at hop
        simpa using hop
      rw [h.rid]
      refine ⟨?_, hordered.attempt hroom.le (fun heq => absurd heq hroom.ne) ok⟩
      cases ok with
      | true =>
        simp only [afterSend, hstage, if_true]
        have hchunks := h.sentNext hroom
        rw [hstage] at hchunks
        exact hchunks.advance hexit rfl
      | false =>
        simp only [afterSend, hstage, Bool.false_eq_true, if_false]
        have hchunks := h.unsentNext hroom (.unsent (a.tombstone r.next) (ridOf r.next))
        rw [hstage] at hchunks
        exact hchunks.advance hexit rfl
    | manifest =>
      simp only [Removing, hexit, hstage] at h
      obtain ⟨hrid, hacked⟩ := h
      obtain ⟨rfl, rfl⟩ : a.tombstone a.chunkCount = t ∧ r.rid = rid := by
        simpa [op, hexit, hstage] using hop
      rw [hrid]
      refine ⟨?_, hordered.attempt le_rfl (fun _ => hacked) ok⟩
      cases ok with
      | true =>
        simp only [afterSend, hstage, if_true, Removing, hexit]
        exact ⟨by rw [UInt32.add_sub_cancel, hrid], by simp, fun i hi => (hacked i hi).append _⟩
      | false => simp [afterSend, hstage, Removing]
    | manifestAck => simp [op, hexit, hstage] at hop

theorem removing_afterRecv (h : Removing a log r) (hordered : Ordered a log)
    {reply : Option Message}
    (hop : op a r = .recvNext ∨
      ∃ rid, op a r = .recvFor rid ∧ reply.all (fun m => m.requestId == rid) = true) :
    Removing a (log ++ reply.toList.map .received) (r.afterRecv a reply) ∧
      Ordered a (log ++ reply.toList.map .received) := by
  cases reply with
  | none => simpa [afterRecv, Removing] using hordered
  | some reply =>
    refine ⟨?_, hordered.received reply⟩
    show Removing a (log ++ [.received reply]) (r.afterRecv a (some reply))
    cases hexit : r.exit with
    | some exit => simp [op, hexit] at hop
    | none =>
      cases hstage : r.stage with
      | chunks =>
        simp only [Removing, hexit, hstage] at h
        simp only [afterRecv, hstage]
        cases hlookup : r.ridToChunkIndex.lookup reply.requestId with
        | none => simpa only [Removing, hexit, hstage] using h.received reply
        | some i =>
          have hchunks := h.answered hlookup
          rw [hstage] at hchunks
          exact hchunks.advance hexit rfl
      | manifest => simp [op, hexit, hstage] at hop
      | manifestAck =>
        simp only [Removing, hexit, hstage] at h
        obtain ⟨hrid, hsent, hacked⟩ := h
        have hid : reply.requestId = ridOf a.chunkCount := by
          simpa [op, hexit, hstage, hrid] using hop
        simp only [afterRecv, hstage]
        by_cases hack : isDeleteAck reply = true
        · simp only [hack, if_true, Removing]
          intro i hi
          rcases Nat.lt_or_eq_of_le hi with hlt | rfl
          · exact (hacked i hlt).append _
          · exact acked_of_received hsent hid hack
        · simp [hack, Removing]

theorem removing_step (h : Removing a log r) (hordered : Ordered a log) (answer : Answer) :
    Removing a (log ++ (rmChunked a).exchange r answer) ((rmChunked a).step r answer) ∧
      Ordered a (log ++ (rmChunked a).exchange r answer) := by
  refine Command.exchange_rule
    (motive := fun r exchange => Removing a (log ++ exchange) r ∧
      Ordered a (log ++ exchange)) ?_ ?_ ?_ answer
  · simpa using ⟨h, hordered⟩
  · intro t rid ok hop
    exact removing_afterSend h hordered hop ok
  · intro reply hop
    exact removing_afterRecv h hordered hop

theorem removing_run (a : RemoveArgs) (answers : List Answer) :
    Removing a ((rmChunked a).transcript (start a) answers)
    (run (rmChunked a).step (start a) answers) ∧
      Ordered a ((rmChunked a).transcript (start a) answers) := by
  induction answers using List.reverseRecOn with
  | nil =>
    have hchunks : Chunks a [] {} := ⟨rfl, Nat.zero_le _, rfl, List.nodup_nil, by simp, by simp⟩
    refine ⟨hchunks.advance rfl rfl, fun before t rid hattempt => ?_⟩
    simp [Attempted, Command.transcript] at hattempt
  | append_singleton answers answer ih =>
    rw [Command.transcript_append_singleton, run_append, run_cons, run_nil]
    exact removing_step ih.1 ih.2 answer

/-- **The manifest is deleted last.** Whatever the node answers and whichever requests cannot be
sent, every tombstone is one of the plan, under a request id that no other one has. That of the
manifest is only sent after every chunk's has been sent and acknowledged, and the command succeeds
only if the manifest's has been acknowledged as well. -/
theorem manifest_last (a : RemoveArgs) (answers : List Answer) :
    let log := (rmChunked a).transcript (start a) answers
    (∀ i ≤ a.chunkCount, ∀ j ≤ a.chunkCount, ridOf i = ridOf j → i = j) ∧
    (∀ i < a.chunkCount, (a.tombstone i).blob.data = makeTombstoneData (a.manifest.target i)) ∧
    (a.tombstone a.chunkCount).blob.data = makeTombstoneData a.manifestHash ∧
    (∀ before t rid, Attempted log before t rid →
      ∃ number ≤ a.chunkCount, t = a.tombstone number ∧ rid = ridOf number ∧
        (number = a.chunkCount → ∀ i < a.chunkCount, Acked a before i)) ∧
    ((run (rmChunked a).step (start a) answers).exit = some .ok →
        ∀ i ≤ a.chunkCount, Acked a log i) := by
  obtain ⟨hremoving, hordered⟩ := removing_run a answers
  refine ⟨fun i hi j hj => ridOf_inj a hi hj, fun i hi =>
    tombstone_chunk a hi, tombstone_manifest a, hordered, fun hexit => ?_⟩
  simpa only [Removing, hexit] using hremoving

/-- A file of two chunks. -/
def sampleRemoval : RemoveArgs where
  ns := FixedBytes.fill 32 1
  manifest :=
    { segmentCount := 2, plaintextSha3 := FixedBytes.fill 32 0, filename := []
      chunkHashes := List.replicate 32 2 ++ List.replicate 32 3 }
  manifestHash := FixedBytes.fill 32 4
  timestamp := 0

/-- The node acknowledges the second chunk before the first one, and then the manifest. -/
def sampleAnswers : List Answer :=
  let ack (rid : UInt32) : Answer := .received (some ⟨18, List.replicate 41 0, rid⟩)
  [.sent true, .sent true, ack 2, ack 1, .sent true, ack 3]

theorem manifest_last_sample :
    (run (rmChunked sampleRemoval).step (start sampleRemoval) sampleAnswers).exit = some .ok ∧
      ∀ i ≤ sampleRemoval.chunkCount,
        Acked sampleRemoval ((rmChunked sampleRemoval).transcript (start sampleRemoval)
            sampleAnswers) i := by
  have hexit : (run (rmChunked sampleRemoval).step (start sampleRemoval) sampleAnswers).exit =
      some .ok := by
    decide
  exact ⟨hexit, (manifest_last sampleRemoval sampleAnswers).2.2.2.2 hexit⟩

end Loop

end Remove

end Cli
