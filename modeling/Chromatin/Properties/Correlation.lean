import Chromatin.Cli.Get
import Chromatin.Cli.Sample
import Chromatin.Infra.Run
import Mathlib.Algebra.Group.Action.Defs
import Mathlib.Algebra.Order.BigOperators.Group.List
import Mathlib.Algebra.Order.Group.Nat

/-!
# Replies and the requests that caused them

On one connection every reply carries the id of the request that caused it (`System.Sound`), for
any command. A loop that counts its request ids never uses one twice (`Get.Numbered`). So the
replies are told apart as long as only one loop has requests under way. `get` does not keep to
that: `get_chunked` runs while requests of the batch are outstanding, with ids from 1 again.
-/

namespace Cli

open Infra Util Wire Net

variable {rid : UInt32} {request : ReadRequest}

/-! ## One connection -/

section Connection

variable {σ ρ : Type} (c : Command σ ρ)

namespace System

/-- The reply `recv_next` or `recv_for` returns in a step. -/
def handedRecv (s : System σ ρ) (wanted : Message → Bool) : Event → Option Reply
  | .answer number type payload =>
    if s.conn.pending.any (fun r => wanted r.message) then none
    else ((s.reply? number type payload).map Prod.fst).filter (fun r => wanted r.message)
  | .stashed index => s.conn.pending[index]?.filter (fun r => wanted r.message)
  | _ => none

/-- The reply the command is given in a step. -/
def handed (s : System σ ρ) (event : Event) : Option Reply :=
  match c.op s.state with
  | .recvNext => s.handedRecv (fun _ => true) event
  | .recvFor rid => s.handedRecv (fun m => m.requestId == rid) event
  | _ => none

/-- The command waits for a reply. -/
def Receives (s : System σ ρ) : Prop :=
  c.op s.state = .recvNext ∨ ∃ rid, c.op s.state = .recvFor rid

/-- What a step can do, and the reply it gives to the command. -/
inductive Transition (s : System σ ρ) : Option Reply → System σ ρ → Prop
  | same : Transition s none s
  | sent {request : ρ} {rid : UInt32} (hop : c.op s.state = .sendAsync request rid) :
      Transition s none
        { s with
          state := c.afterSend s.state true
          conn := { s.conn with inFlight := s.conn.inFlight + 1 }
          sent := s.sent ++ [{ request, requestId := rid }]
          unanswered := s.unanswered ++ [s.sent.length]
          outstanding := s.outstanding ++ [s.sent.length] }
  | refused {request : ρ} {rid : UInt32} (hop : c.op s.state = .sendAsync request rid) :
      Transition s none { s with state := c.afterSend s.state false }
  | stashed {number : Nat} {q : Sent ρ} {reply : Reply} (hnumber : number ∈ s.unanswered)
      (hsent : s.sent[number]? = some q) (hcause : reply.cause = number)
      (hid : reply.message.requestId = q.requestId) :
      Transition s none (System.stash { s with unanswered := s.unanswered.erase number } reply)
  | answered (hop : Receives c s) {number : Nat} {q : Sent ρ} {reply : Reply}
      (hnumber : number ∈ s.unanswered)
      (hsent : s.sent[number]? = some q) (hcause : reply.cause = number)
      (hid : reply.message.requestId = q.requestId) :
      Transition s (some reply)
        (System.deliver c { s with unanswered := s.unanswered.erase number } reply)
  | unstashed (hop : Receives c s) {index : Nat} {reply : Reply}
      (hreply : s.conn.pending[index]? = some reply) :
      Transition s (some reply) (System.deliver c
        { s with conn := { s.conn with pending := s.conn.pending.eraseIdx index } } reply)
  | lost (hop : Receives c s) : Transition s none { s with state := c.afterRecv s.state none }

variable {c}

theorem reply?_cases (s : System σ ρ) (number : Nat) (type : UInt8) (payload : Bytes) :
    s.reply? number type payload = none ∨
    ∃ q, number ∈ s.unanswered ∧ s.sent[number]? = some q ∧ s.reply? number type payload = some
      ({ message := { type, payload, requestId := q.requestId }, cause := number },
        { s with unanswered := s.unanswered.erase number }) := by
  unfold reply?
  by_cases hnumber : number ∈ s.unanswered
  · rw [if_pos hnumber]
    cases hsent : s.sent[number]? with
    | none => exact .inl rfl
    | some q => exact .inr ⟨q, hnumber, rfl, rfl⟩
  · rw [if_neg hnumber]
    exact .inl rfl

theorem transition_stepSend (s : System σ ρ) {request : ρ}
    (hop : c.op s.state = .sendAsync request rid) (event : Event) :
    Transition c s none (s.stepSend c request rid event) := by
  cases event with
  | sent ok =>
    rw [stepSend]
    split_ifs
    · exact .same
    · exact .sent hop
    · exact .refused hop
  | answer number type payload =>
    rw [stepSend]
    split_ifs
    · rcases s.reply?_cases number type payload with hnone | ⟨q, hnumber, hsent, hreply⟩
      · rw [hnone]
        exact .same
      · rw [hreply]
        exact .stashed hnumber hsent rfl rfl
    · exact .same
  | lost =>
    rw [stepSend]
    split_ifs
    · exact .refused hop
    · exact .same
  | stashed index => exact .same

theorem transition_stepRecv (s : System σ ρ) (hop : Receives c s) (wanted : Message → Bool)
    (event : Event) : Transition c s (s.handedRecv wanted event) (s.stepRecv c wanted event) := by
  cases event with
  | sent ok => exact .same
  | answer number type payload =>
    rw [handedRecv, stepRecv]
    split_ifs
    · exact .same
    · rcases s.reply?_cases number type payload with hnone | ⟨q, hnumber, hsent, hreply⟩
      · rw [hnone]
        exact .same
      · rw [hreply]
        by_cases hwanted : wanted { type, payload, requestId := q.requestId } = true
        · simp only [Option.map_some, Option.filter, hwanted, if_true]
          exact .answered hop hnumber hsent rfl rfl
        · simp only [Option.map_some, Option.filter, hwanted]
          exact .stashed hnumber hsent rfl rfl
  | lost =>
    rw [handedRecv, stepRecv]
    · split_ifs
      · exact .same
      · exact .lost hop
    · simp
    · simp
  | stashed index =>
    rw [handedRecv, stepRecv, unstash]
    cases hreply : s.conn.pending[index]? with
    | none => exact .same
    | some reply =>
      by_cases hwanted : wanted reply.message = true
      · simp only [Option.filter, hwanted, if_true]
        exact .unstashed hop hreply
      · simp only [Option.filter, hwanted]
        exact .same

theorem transition_step (s : System σ ρ) (event : Event) :
    Transition c s (s.handed c event) (s.step c event) := by
  unfold handed step
  cases hop : c.op s.state with
  | sendAsync request rid => exact transition_stepSend s hop event
  | recvNext => exact transition_stepRecv s (.inl hop) _ event
  | recvFor rid => exact transition_stepRecv s (.inr ⟨rid, hop⟩) _ event
  | stop => exact .same

/-- The replies on their way belong to different outstanding requests, whose ids they carry. -/
structure Sound (s : System σ ρ) : Prop where
  known : ∀ number ∈ s.outstanding, number < s.sent.length
  once : s.outstanding.Nodup
  owed : (s.conn.pending.map Reply.cause ++ s.unanswered).Nodup
  owed_sub : ∀ number ∈ s.conn.pending.map Reply.cause ++ s.unanswered, number ∈ s.outstanding
  stamped : ∀ reply ∈ s.conn.pending, ∃ q, s.sent[reply.cause]? = some q ∧
    reply.message.requestId = q.requestId

variable {s s' : System σ ρ} {reply : Reply}

theorem sound_init (state : σ) : Sound ({ state } : System σ ρ) where
  known := by simp
  once := List.nodup_nil
  owed := List.nodup_nil
  owed_sub := by simp
  stamped := by simp

/-- The reply the command is given belongs to an outstanding request. -/
theorem Sound.handed (h : Sound s) (ht : Transition c s (some reply) s') :
    reply.cause ∈ s.outstanding ∧ ∃ q, s.sent[reply.cause]? = some q ∧
      reply.message.requestId = q.requestId := by
  cases ht with
  | answered _ hnumber hsent hcause hid =>
    subst hcause
    exact ⟨h.owed_sub _ (List.mem_append_right _ hnumber), _, hsent, hid⟩
  | unstashed _ hreply =>
    have hmem := List.mem_of_getElem? hreply
    exact ⟨h.owed_sub _ (List.mem_append_left _ (List.mem_map_of_mem hmem)), h.stamped _ hmem⟩

/-- The reply to an outstanding request is handed over; the others still wait for theirs. -/
theorem sound_deliver (hknown : ∀ number ∈ s.outstanding, number < s.sent.length)
    (honce : s.outstanding.Nodup)
    (howed : (reply.cause :: (s.conn.pending.map Reply.cause ++ s.unanswered)).Nodup)
    (hsub : ∀ number ∈ s.conn.pending.map Reply.cause ++ s.unanswered, number ∈ s.outstanding)
    (hstamped : ∀ reply ∈ s.conn.pending, ∃ q, s.sent[reply.cause]? = some q ∧
      reply.message.requestId = q.requestId) : Sound (s.deliver c reply) := by
  obtain ⟨hfresh, hrest⟩ := List.nodup_cons.mp howed
  refine ⟨fun number hnumber => hknown number (List.mem_of_mem_erase hnumber), honce.erase _, hrest,
    fun number hnumber => ?_, hstamped⟩
  refine (List.mem_erase_of_ne ?_).mpr (hsub number hnumber)
  rintro rfl
  exact hfresh hnumber

theorem Sound.transition {handed : Option Reply} (h : Sound s) (ht : Transition c s handed s') :
    Sound s' := by
  cases ht with
  | same => exact h
  | refused hop => exact ⟨h.known, h.once, h.owed, h.owed_sub, h.stamped⟩
  | lost _ => exact ⟨h.known, h.once, h.owed, h.owed_sub, h.stamped⟩
  | sent hop =>
    have hfresh : s.sent.length ∉ s.outstanding :=
      fun hmem => absurd (h.known _ hmem) (Nat.lt_irrefl _)
    refine ⟨?_, ?_, ?_, ?_, ?_⟩
    · intro number hnumber
      rw [List.length_append, List.length_singleton]
      rcases List.mem_append.mp hnumber with hold | hnew
      · exact Nat.lt_succ_of_lt (h.known number hold)
      · rw [List.mem_singleton.mp hnew]
        exact Nat.lt_succ_self _
    · exact List.nodup_append_comm.mp (List.nodup_cons.mpr ⟨hfresh, h.once⟩)
    · rw [← List.append_assoc]
      exact List.nodup_append_comm.mp
        (List.nodup_cons.mpr ⟨fun hmem => hfresh (h.owed_sub _ hmem), h.owed⟩)
    · intro number hnumber
      rw [← List.append_assoc] at hnumber
      rcases List.mem_append.mp hnumber with hold | hnew
      · exact List.mem_append_left _ (h.owed_sub number hold)
      · exact List.mem_append_right _ hnew
    · intro reply hreply
      obtain ⟨q, hq, hid⟩ := h.stamped reply hreply
      exact ⟨q,
        by rw [List.getElem?_append_left (List.getElem?_eq_some_iff.mp hq).1]; exact hq, hid⟩
  | @stashed number q reply hnumber hsent hcause hid =>
    -- the number moves from the unanswered requests to the stash
    have hperm : (s.conn.pending.map Reply.cause ++ s.unanswered).Perm
        (s.conn.pending.map Reply.cause ++ (number :: s.unanswered.erase number)) :=
      (List.perm_cons_erase hnumber).append_left _
    have hsmaller : ((insertOrAssign s.conn.pending reply).map Reply.cause ++
        s.unanswered.erase number).Sublist
        (s.conn.pending.map Reply.cause ++ (number :: s.unanswered.erase number)) := by
      rw [insertOrAssign, List.map_append, List.map_singleton, hcause, List.append_assoc]
      exact (List.filter_sublist.map _).append (List.Sublist.refl _)
    refine ⟨h.known, h.once, (hperm.nodup h.owed).sublist hsmaller, ?_, ?_⟩
    · intro n hn
      exact h.owed_sub n (hperm.mem_iff.mpr (hsmaller.subset hn))
    · intro r hr
      rcases List.mem_append.mp hr with hold | hnew
      · exact h.stamped r (List.mem_of_mem_filter hold)
      · rw [List.mem_singleton.mp hnew, hcause]
        exact ⟨q, hsent, hid⟩
  | @answered _ number q reply hnumber hsent hcause hid =>
    have hperm : (s.conn.pending.map Reply.cause ++ s.unanswered).Perm
        (number :: (s.conn.pending.map Reply.cause ++ s.unanswered.erase number)) :=
      ((List.perm_cons_erase hnumber).append_left _).trans List.perm_middle
    refine sound_deliver h.known h.once ?_ (fun n hn => ?_) h.stamped
    · rw [hcause]
      exact hperm.nodup h.owed
    · exact h.owed_sub n (hperm.mem_iff.mpr (List.mem_cons_of_mem _ hn))
  | @unstashed _ index reply hreply =>
    obtain ⟨hindex, hget⟩ := List.getElem?_eq_some_iff.mp hreply
    have hperm : (s.conn.pending.map Reply.cause ++ s.unanswered).Perm
        (reply.cause :: ((s.conn.pending.eraseIdx index).map Reply.cause ++ s.unanswered)) := by
      have hfront := (List.getElem_cons_eraseIdx_perm hindex).map Reply.cause
      rw [List.map_cons, hget] at hfront
      exact (hfront.symm.append_right _)
    refine sound_deliver h.known h.once (hperm.nodup h.owed) (fun n hn => ?_) (fun r hr => ?_)
    · exact h.owed_sub n (hperm.mem_iff.mpr (List.mem_cons_of_mem _ hn))
    · exact h.stamped r (List.mem_of_mem_eraseIdx hr)

end System

end Connection

/-! ## The request ids of `get_chunked` -/

/-- One more attempt. -/
theorem sum_set_succ : ∀ {l : List Nat} {i : Nat}, i < l.length →
    (l.set i (l.getD i 0 + 1)).sum = l.sum + 1
  | x :: l, 0, _ => by
    simp only [List.set_cons_zero, List.getD_cons_zero, List.sum_cons]
    omega
  | x :: l, i + 1, hi => by
    have ih := sum_set_succ (Nat.lt_of_succ_lt_succ hi)
    simp only [List.set_cons_succ, List.getD_cons_succ, List.sum_cons]
    omega

namespace Download

/-- A running download has used one request id for every chunk and every further attempt. -/
structure Paced (a : DownloadArgs) (d : Download) : Prop where
  attempts : d.attempts.length = chunkCount a
  spent : ∀ n ∈ d.attempts, n ≤ RETRY_ATTEMPTS
  next_le : d.next ≤ chunkCount a
  below : ∀ i ∈ d.ridToChunkIndex.map Prod.snd ++ d.retrying.toList, i < chunkCount a
  rid : d.rid.toNat + d.retrying.toList.length = 1 + d.next + d.attempts.sum

variable {T : Toolkit} {a : DownloadArgs} {d : Download}

/-- The counter does not overflow. -/
theorem Paced.rid_lt (h : Paced a d) (hcount : chunkCount a ≤ MAX_CHUNKS) :
    d.rid.toNat + 1 < 2 ^ 32 := by
  have hsum := List.sum_le_card_nsmul d.attempts RETRY_ATTEMPTS h.spent
  have hrid := h.rid
  have hnext := h.next_le
  rw [h.attempts, smul_eq_mul] at hsum
  unfold MAX_CHUNKS at hcount
  unfold RETRY_ATTEMPTS at hsum
  omega

theorem Paced.succ_rid (h : Paced a d) (hcount : chunkCount a ≤ MAX_CHUNKS) :
    (d.rid + 1).toNat = d.rid.toNat + 1 := by
  have hlt := h.rid_lt hcount
  rw [UInt32.toNat_add]
  exact Nat.mod_eq_of_lt hlt

theorem paced_start (h : (start T a).exit = none) : Paced a (start T a) := by
  unfold start at h ⊢
  dsimp only at h ⊢
  split_ifs at h ⊢
  · rw [advance] at h ⊢
    split_ifs at h ⊢
    · exact ⟨List.length_replicate, by simp, Nat.zero_le _, by simp, by simp⟩
    · unfold finish at h
      split_ifs at h
      exact absurd h (by simp [Download.fail])

theorem Paced.afterSend (h : Paced a d) (hcount : chunkCount a ≤ MAX_CHUNKS) (hexit : d.exit = none)
    (hop : d.op a = .sendAsync request rid) :
    Paced a (d.afterSend true) ∧ (d.afterSend true).rid = d.rid + 1 ∧
    (d.afterSend true).exit = none := by
  have hsucc := h.succ_rid hcount
  have hrid := h.rid
  have hunbind : ∀ i ∈ (Assoc.unbind d.rid d.ridToChunkIndex).map Prod.snd,
      i ∈ d.ridToChunkIndex.map Prod.snd :=
    ((Assoc.unbind_sublist d.rid d.ridToChunkIndex).map Prod.snd).subset
  cases hretry : d.retrying with
  | some i =>
    have hbelow := h.below
    rw [hretry] at hrid hbelow
    simp only [Download.afterSend, if_true, hretry]
    refine ⟨⟨h.attempts, h.spent, h.next_le, fun j hj => ?_, ?_⟩, trivial, hexit⟩
    · simp only [Assoc.assign, List.map_cons, Option.toList_none, List.append_nil] at hj
      rcases List.mem_cons.mp hj with rfl | hj
      · exact hbelow j (by simp)
      · exact hbelow j (List.mem_append_left _ (hunbind j hj))
    · simp only [Option.toList_some, Option.toList_none, List.length_nil,
        List.length_singleton] at hrid ⊢
      omega
  | none =>
    have hnext : d.next < chunkCount a := by
      simp only [Download.op, hexit, hretry] at hop
      split_ifs at hop with hroom
      exact hroom.1
    have hbelow := h.below
    rw [hretry] at hrid hbelow
    simp only [Download.afterSend, if_true, hretry]
    refine ⟨⟨h.attempts, h.spent, hnext, fun j hj => ?_, ?_⟩, trivial, hexit⟩
    · simp only [Assoc.assign, List.map_cons, Option.toList_none, List.append_nil] at hj
      rcases List.mem_cons.mp hj with rfl | hj
      · exact hnext
      · exact hbelow j (List.mem_append_left _ (hunbind j hj))
    · simp only [Option.toList_none, List.length_nil] at hrid ⊢
      omega

theorem Paced.retryChunk (h : Paced a d) {i : Nat} (hretry : d.retrying = none)
    (hi : i < chunkCount a) {index : List (UInt32 × Nat)}
    (hsub : ∀ e ∈ index, e ∈ d.ridToChunkIndex)
    (hexit : (Download.retryChunk { d with ridToChunkIndex := index } i).exit = none) :
    Paced a (Download.retryChunk { d with ridToChunkIndex := index } i) := by
  have hrid := h.rid
  have hlength : i < d.attempts.length := h.attempts ▸ hi
  rw [hretry] at hrid
  unfold Download.retryChunk at hexit ⊢
  by_cases hspent : RETRY_ATTEMPTS ≤ d.attempts.getD i 0
  · rw [if_pos hspent] at hexit
    exact absurd hexit (by simp [Download.fail])
  rw [if_neg hspent]
  refine ⟨by rw [List.length_set]; exact h.attempts, fun n hn => ?_, h.next_le, fun j hj => ?_, ?_⟩
  · rcases List.mem_or_eq_of_mem_set hn with hold | rfl
    · exact h.spent n hold
    · exact Nat.lt_of_not_le hspent
  · rcases List.mem_append.mp hj with hold | hnew
    · obtain ⟨e, he, rfl⟩ := List.mem_map.mp hold
      exact h.below _ (List.mem_append_left _ (List.mem_map_of_mem (hsub e he)))
    · rw [Option.toList_some, List.mem_singleton] at hnew
      rw [hnew]
      exact hi
  · simp only [Option.toList_some, Option.toList_none, List.length_nil,
      List.length_singleton] at hrid ⊢
    rw [sum_set_succ hlength]
    omega

/-- A reply uses up no request id. -/
theorem Paced.afterRecv (h : Paced a d) (hretry : d.retrying = none) (reply : Option Message)
    (hexit : (d.afterRecv T a reply).exit = none) :
    Paced a (d.afterRecv T a reply) ∧ (d.afterRecv T a reply).rid = d.rid := by
  cases reply with
  | none => exact absurd hexit (by simp [Download.afterRecv, Download.fail])
  | some reply =>
    simp only [Download.afterRecv] at hexit ⊢
    cases hlookup : d.ridToChunkIndex.lookup reply.requestId with
    | none => exact ⟨h, rfl⟩
    | some i =>
      simp only [hlookup] at hexit ⊢
      have hsub : ∀ e ∈ Assoc.unbind reply.requestId d.ridToChunkIndex, e ∈ d.ridToChunkIndex :=
        fun e he => (Assoc.mem_unbind.mp he).1
      have hi : i < chunkCount a := by
        refine h.below i (List.mem_append_left _ ?_)
        exact List.mem_map.mpr ⟨_, Assoc.mem_of_lookup hlookup, rfl⟩
      cases hcontent : content T a reply with
      | unusable =>
        simp only [hcontent] at hexit ⊢
        refine ⟨h.retryChunk hretry hi hsub hexit, ?_⟩
        unfold Download.retryChunk
        split_ifs
        · rfl
        · rfl
      | foreign =>
        simp only [hcontent] at hexit
        exact absurd hexit (by simp [Download.fail])
      | plaintext bytes =>
        simp only [hcontent, Download.writeChunk, Download.advance] at hexit ⊢
        split_ifs at hexit ⊢
        · exact absurd hexit (by simp [Download.fail])
        · exact absurd hexit (by simp [Download.fail])
        · refine ⟨⟨h.attempts, h.spent, h.next_le, fun j hj => ?_, h.rid⟩, rfl⟩
          rcases List.mem_append.mp hj with hold | hnew
          · obtain ⟨e, he, rfl⟩ := List.mem_map.mp hold
            exact h.below _ (List.mem_append_left _ (List.mem_map_of_mem (hsub e he)))
          · exact h.below j (List.mem_append_right _ hnew)
        · unfold finish at hexit
          split_ifs at hexit
          exact absurd hexit (by simp [Download.fail])

end Download

/-! ## The request ids of `get` -/

namespace Get

/-- The loop that runs. -/
def active (g : Get) : Requester :=
  match g.download with
  | some (da, _) => da.requester
  | none => .batch

/-- The loop that runs takes a reply with the id for an answer. -/
def awaits (g : Get) (rid : UInt32) : Bool :=
  match g.download with
  | some (_, d) => (d.ridToChunkIndex.lookup rid).isSome
  | none => (g.ridToIndex.lookup rid).isSome

/-- A running call of `get_chunked` is the last one, and has counted its requests. -/
structure Running (sent : List (Sent ReadRequest)) (g : Get) (da : DownloadArgs) (d : Download) :
    Prop where
  number : ∃ n, g.downloads = n + 1 ∧ da.requester = .download n
  exit : d.exit = none
  count : Download.chunkCount da ≤ MAX_CHUNKS
  paced : Download.Paced da d
  ids : ∀ q ∈ sent, q.request.requester = da.requester → q.requestId.toNat < d.rid.toNat

/-- Every loop has used ascending request ids. -/
structure Numbered (a : GetArgs) (sent : List (Sent ReadRequest)) (g : Get) : Prop where
  ordered : sent.Pairwise fun q q' =>
    q.request.requester = q'.request.requester → q.requestId.toNat < q'.requestId.toNat
  batch : ∀ q ∈ sent, q.request.requester = .batch → q.requestId.toNat < g.rid.toNat
  past : ∀ q ∈ sent, ∀ n, q.request.requester = .download n → n < g.downloads
  next_le : g.nextToSend ≤ a.hashes.length
  rid_le : g.rid.toNat ≤ g.nextToSend + 1
  running : ∀ da d, g.download = some (da, d) → Running sent g da d

variable {T : Toolkit} {a : GetArgs} {sent : List (Sent ReadRequest)} {g : Get}

/-! ### The batch loop between its blocking calls -/

theorem skipInvalid_spec (l : List (Option Hash32)) : ∀ g : Get,
    (g.skipInvalid l).rid = g.rid ∧ (g.skipInvalid l).downloads = g.downloads ∧
    (g.skipInvalid l).download = g.download ∧ g.nextToSend ≤ (g.skipInvalid l).nextToSend ∧
    (g.skipInvalid l).nextToSend ≤ g.nextToSend + l.length := by
  induction l with
  | nil => exact fun g => ⟨rfl, rfl, rfl, Nat.le_refl _, Nat.le_add_right _ _⟩
  | cons hash rest ih =>
    intro g
    cases hash with
    | some hash => exact ⟨rfl, rfl, rfl, Nat.le_refl _, Nat.le_add_right _ _⟩
    | none =>
      rw [skipInvalid]
      split_ifs
      · obtain ⟨hrid, hdownloads, hdownload, hge, hle⟩ := ih
          { g with
            errors := g.errors + 1, completed := g.completed + 1, nextToSend := g.nextToSend + 1 }
        refine ⟨hrid, hdownloads, hdownload, Nat.le_of_succ_le hge, ?_⟩
        rw [List.length_cons]
        dsimp only at hle
        omega
      · exact ⟨rfl, rfl, rfl, Nat.le_refl _, Nat.le_add_right _ _⟩

theorem advance_spec (hnext : g.nextToSend ≤ a.hashes.length) :
    (g.advance a).rid = g.rid ∧ (g.advance a).downloads = g.downloads ∧
    (g.advance a).download = g.download ∧ g.nextToSend ≤ (g.advance a).nextToSend ∧
    (g.advance a).nextToSend ≤ a.hashes.length := by
  obtain ⟨hrid, hdownloads, hdownload, hge, hle⟩ := g.skipInvalid_spec (a.hashes.drop g.nextToSend)
  have hle : (g.skipInvalid (a.hashes.drop g.nextToSend)).nextToSend ≤ a.hashes.length := by
    rw [List.length_drop] at hle
    omega
  unfold advance
  dsimp only
  split_ifs
  · exact ⟨hrid, hdownloads, hdownload, hge, hle⟩
  · exact ⟨hrid, hdownloads, hdownload, hge, hle⟩

/-- Between its blocking calls the batch uses no request id. -/
theorem Numbered.advance (h : Numbered a sent g) (hidle : g.download = none) :
    Numbered a sent (g.advance a) := by
  obtain ⟨hrid, hdownloads, hdownload, hge, hle⟩ := advance_spec h.next_le
  refine ⟨h.ordered, ?_, ?_, hle, ?_, ?_⟩
  · rw [hrid]
    exact h.batch
  · rw [hdownloads]
    exact h.past
  · rw [hrid]
    exact h.rid_le.trans (Nat.succ_le_succ hge)
  · intro da d hda
    rw [hdownload, hidle] at hda
    exact absurd hda (by simp)

theorem numbered_start : Numbered a [] (start a) := by
  refine Numbered.advance
    ⟨List.Pairwise.nil, by simp, by simp, Nat.zero_le _, Nat.le_refl _, ?_⟩ rfl
  intro da d hda
  exact absurd hda (by simp)

/-- `get_chunked` has ended. -/
theorem Numbered.ended (h : Numbered a sent g) (errors : Nat) :
    Numbered a sent ({ g with download := none, errors } : Get) :=
  ⟨h.ordered, h.batch, h.past, h.next_le, h.rid_le, fun _ _ hda => absurd hda (by simp)⟩

/-- `get_chunked` goes on or ends, without a request. -/
theorem Numbered.afterDownload (h : Numbered a sent g) {da : DownloadArgs} {d : Download}
    (hrunning : d.exit = none → Running sent g da d) :
    Numbered a sent (g.afterDownload a da d) := by
  unfold Get.afterDownload
  cases hexit : d.exit with
  | none =>
    refine ⟨h.ordered, h.batch, h.past, h.next_le, h.rid_le, fun da' d' hda => ?_⟩
    obtain ⟨rfl, rfl⟩ := Prod.mk.inj (Option.some.inj hda)
    have hrunning := hrunning hexit
    exact ⟨hrunning.number, hrunning.exit, hrunning.count, hrunning.paced, hrunning.ids⟩
  | some exit => exact (h.ended _).advance rfl

/-! ### Requests and replies -/

theorem readOf_spec {index : Nat} (h : readOf a index = some request) :
    request.requester = .batch ∧ index < a.hashes.length := by
  obtain ⟨hash, hget, rfl⟩ := Option.map_eq_some_iff.mp h
  refine ⟨rfl, ?_⟩
  by_contra hbeyond
  rw [List.getElem?_eq_none (Nat.le_of_not_lt hbeyond)] at hget
  exact absurd hget (by simp)

/-- A request is made by the loop that runs, with its next id. -/
theorem op_sendAsync (hop : g.op a = .sendAsync request rid) :
    request.requester = g.active ∧
    (g.download = none → rid = g.rid ∧ g.nextToSend < a.hashes.length) ∧
    (∀ da d, g.download = some (da, d) → rid = d.rid ∧ d.op da = .sendAsync request rid) := by
  unfold Get.op at hop
  unfold active
  cases hexit : g.exit with
  | some exit =>
    rw [hexit] at hop
    exact absurd hop (by simp)
  | none =>
    rw [hexit] at hop
    cases hdownload : g.download with
    | some running =>
      obtain ⟨da, d⟩ := running
      rw [hdownload] at hop
      have hinner : d.op da = .sendAsync request rid := hop
      have hshape : request.requester = da.requester ∧ rid = d.rid := by
        simp only [Download.op] at hinner
        split at hinner
        · exact absurd hinner (by simp)
        · obtain ⟨rfl, rfl⟩ := Op.sendAsync.inj hinner
          exact ⟨rfl, rfl⟩
        · split_ifs at hinner
          obtain ⟨rfl, rfl⟩ := Op.sendAsync.inj hinner
          exact ⟨rfl, rfl⟩
      refine ⟨hshape.1, fun h => absurd h (by simp), fun da' d' hda => ?_⟩
      obtain ⟨rfl, rfl⟩ := Prod.mk.inj (Option.some.inj hda)
      exact ⟨hshape.2, hinner⟩
    | none =>
      rw [hdownload] at hop
      obtain ⟨hread, hrid⟩ : readOf a g.nextToSend = some request ∧ rid = g.rid := by
        dsimp only at hop
        split at hop
        · rename_i hread
          split_ifs at hop
          obtain ⟨rfl, rfl⟩ := Op.sendAsync.inj hop
          exact ⟨hread, rfl⟩
        · exact absurd hop (by simp)
      obtain ⟨hwho, hlt⟩ := readOf_spec hread
      exact ⟨hwho, fun _ => ⟨hrid, hlt⟩, fun da d hda => absurd hda (by simp)⟩

/-- The batch does not run out of request ids. -/
theorem Numbered.succ_rid (h : Numbered a sent g) (hsize : a.hashes.length + 1 < 2 ^ 32)
    (hnext : g.nextToSend < a.hashes.length) : (g.rid + 1).toNat = g.rid.toNat + 1 := by
  have hle := h.rid_le
  rw [UInt32.toNat_add]
  exact Nat.mod_eq_of_lt (by simp only [UInt32.reduceToNat]; omega)

/-- A request is sent. -/
theorem Numbered.sendNext (h : Numbered a sent g) (hsize : a.hashes.length + 1 < 2 ^ 32)
    (hop : g.op a = .sendAsync request rid) :
    Numbered a (sent ++ [{ request, requestId := rid }]) (g.afterSend a true) := by
  obtain ⟨hwho, hbatch, hinner⟩ := op_sendAsync hop
  unfold active at hwho
  unfold Get.afterSend
  cases hdownload : g.download with
  | none =>
    obtain ⟨rfl, hnext⟩ := hbatch hdownload
    rw [hdownload] at hwho
    have hrid := h.succ_rid hsize hnext
    simp only [if_true]
    refine Numbered.advance ⟨?_, ?_, ?_, hnext, ?_, ?_⟩ rfl
    · refine List.pairwise_append.mpr ⟨h.ordered, List.pairwise_singleton _ _, ?_⟩
      intro q hq q' hq' hsame
      rw [List.mem_singleton.mp hq'] at hsame ⊢
      exact h.batch q hq (hsame.trans hwho)
    · intro q hq hq'
      rw [hrid]
      rcases List.mem_append.mp hq with hold | hnew
      · exact Nat.lt_succ_of_lt (h.batch q hold hq')
      · rw [List.mem_singleton.mp hnew]
        exact Nat.lt_succ_self _
    · intro q hq n hn
      rcases List.mem_append.mp hq with hold | hnew
      · exact h.past q hold n hn
      · rw [List.mem_singleton.mp hnew, hwho] at hn
        exact absurd hn (by simp)
    · rw [hrid]
      exact Nat.succ_le_succ h.rid_le
    · intro da d hda
      exact absurd hda (by simp)
  | some running =>
    obtain ⟨da, d⟩ := running
    rw [hdownload] at hwho
    replace hwho : request.requester = da.requester := hwho
    obtain ⟨rfl, hop'⟩ := hinner da d hdownload
    have hrunning := h.running da d hdownload
    obtain ⟨n, hn, hrequester⟩ := hrunning.number
    obtain ⟨hpaced, hrid, hexit⟩ := hrunning.paced.afterSend hrunning.count hrunning.exit hop'
    have hsucc := hrunning.paced.succ_rid hrunning.count
    have hnumbered : Numbered a (sent ++ [{ request, requestId := d.rid }])
        ({ g with download := none } : Get) := by
      refine ⟨?_, ?_, ?_, h.next_le, h.rid_le, fun _ _ hda => absurd hda (by simp)⟩
      · refine List.pairwise_append.mpr ⟨h.ordered, List.pairwise_singleton _ _, ?_⟩
        intro q hq q' hq' hsame
        rw [List.mem_singleton.mp hq'] at hsame ⊢
        exact hrunning.ids q hq (hsame.trans hwho)
      · intro q hq hq'
        rcases List.mem_append.mp hq with hold | hnew
        · exact h.batch q hold hq'
        · rw [List.mem_singleton.mp hnew, hwho, hrequester] at hq'
          exact absurd hq' (by simp)
      · intro q hq k hk
        rcases List.mem_append.mp hq with hold | hnew
        · exact h.past q hold k hk
        · rw [List.mem_singleton.mp hnew, hwho, hrequester] at hk
          obtain rfl := Requester.download.inj hk
          rw [hn]
          exact Nat.lt_succ_self _
    have hafter : Numbered a (sent ++ [{ request, requestId := d.rid }])
        (({ g with download := none } : Get).afterDownload a da (d.afterSend true)) :=
      hnumbered.afterDownload fun _ =>
        ⟨⟨n, hn, hrequester⟩, hexit, hrunning.count, hpaced, fun q hq hq' => by
          rw [hrid, hsucc]
          rcases List.mem_append.mp hq with hold | hnew
          · exact Nat.lt_succ_of_lt (hrunning.ids q hold hq')
          · rw [List.mem_singleton.mp hnew]
            exact Nat.lt_succ_self _⟩
    simpa only [Get.afterDownload, hexit] using hafter

/-- A request could not be sent; its id is used up. -/
theorem Numbered.refused (h : Numbered a sent g) (hsize : a.hashes.length + 1 < 2 ^ 32)
    (hop : g.op a = .sendAsync request rid) :
    Numbered a sent (g.afterSend a false) := by
  obtain ⟨-, hbatch, -⟩ := op_sendAsync hop
  unfold Get.afterSend
  cases hdownload : g.download with
  | none =>
    obtain ⟨rfl, hnext⟩ := hbatch hdownload
    have hrid := h.succ_rid hsize hnext
    simp only [Bool.false_eq_true, if_false]
    refine Numbered.advance ⟨h.ordered, ?_, h.past, hnext, ?_, fun _ _ hda =>
      absurd hda (by simp)⟩ rfl
    · intro q hq hq'
      rw [hrid]
      exact Nat.lt_succ_of_lt (h.batch q hq hq')
    · rw [hrid]
      exact Nat.succ_le_succ h.rid_le
  | some running =>
    obtain ⟨da, d⟩ := running
    refine h.afterDownload fun hexit => ?_
    exact absurd hexit (by simp [Download.afterSend, Download.fail])

/-- A manifest is only followed if `get_chunked` can take its chunks. -/
theorem outcome_manifest {index : Nat} {reply : Message} {m : ManifestData}
    (h : outcome T a index reply = .manifest m) : m.segmentCount.toNat ≤ MAX_CHUNKS := by
  unfold outcome at h
  split at h
  · exact absurd h (by simp)
  cases hblob : decodeBlob T reply.payload.tail with
  | none =>
    rw [hblob] at h
    exact absurd h (by simp)
  | some blob =>
    simp only [hblob] at h
    cases hclass : classifyBlobData blob.data with
    | CDAT =>
      rw [hclass] at h
      exact absurd h (by simp)
    | other =>
      simp only [hclass, saveBlob] at h
      split at h
      · exact absurd h (by simp)
      · split_ifs at h
    | CPAR =>
      simp only [hclass] at h
      split_ifs at h
      split at h
      · exact absurd h (by simp)
      · rename_i hdecode
        obtain ⟨payload, -, hdecode⟩ := Option.bind_eq_some_iff.mp hdecode
        obtain rfl := Outcome.manifest.inj h
        exact segmentCount_le_of_decode hdecode

/-- A reply uses up no request id; a manifest starts a new loop. -/
theorem Numbered.received (h : Numbered a sent g)
    (hidle : ∀ request rid, g.op a ≠ .sendAsync request rid)
    (hexit : g.exit = none) (reply : Option Message) : Numbered a sent (g.afterRecv T a reply) := by
  unfold Get.afterRecv
  cases hdownload : g.download with
  | some running =>
    obtain ⟨da, d⟩ := running
    have hrunning := h.running da d hdownload
    have hretry : d.retrying = none := by
      cases hretry : d.retrying with
      | none => rfl
      | some i =>
        have hop : g.op a = .sendAsync (Download.readOf da i) d.rid := by
          simp only [Get.op, hexit, hdownload, Download.op, hrunning.exit, hretry]
        exact absurd hop (hidle _ _)
    refine h.afterDownload fun hcontinues => ?_
    obtain ⟨hpaced, hrid⟩ := hrunning.paced.afterRecv hretry reply hcontinues
    exact ⟨hrunning.number, hcontinues, hrunning.count, hpaced, hrid ▸ hrunning.ids⟩
  | none =>
    cases reply with
    | none =>
      refine ⟨h.ordered, h.batch, h.past, h.next_le, h.rid_le, ?_⟩
      intro da d hda
      exact absurd hda (by simp [finish])
    | some reply =>
      dsimp only
      cases hlookup : g.ridToIndex.lookup reply.requestId with
      | none => exact h
      | some index =>
        have hother (ridToIndex : List (UInt32 × Nat)) (completed errors : Nat) :
            Numbered a sent ({ g with ridToIndex, completed, errors, download := none } : Get) :=
          ⟨h.ordered, h.batch, h.past, h.next_le, h.rid_le, fun _ _ hda => absurd hda (by simp)⟩
        dsimp only
        cases houtcome : outcome T a index reply with
        | saved => exact (hother _ _ _).advance rfl
        | error => exact (hother _ _ _).advance rfl
        | manifest m =>
          dsimp only
          apply Numbered.afterDownload
          · refine ⟨h.ordered, h.batch, ?_, h.next_le, h.rid_le, ?_⟩
            · intro q hq n hn
              exact Nat.lt_succ_of_lt (h.past q hq n hn)
            · intro da d hda
              exact absurd hda (by simp)
          · intro hstart
            refine ⟨⟨g.downloads, rfl, rfl⟩, hstart, outcome_manifest houtcome,
              Download.paced_start hstart, ?_⟩
            -- no earlier call had this number
            intro q hq hq'
            exact absurd (h.past q hq g.downloads hq') (Nat.lt_irrefl _)

theorem Numbered.transition (hsize : a.hashes.length + 1 < 2 ^ 32) {s s' : System Get ReadRequest}
    {handed : Option Reply} (h : Numbered a s.sent s.state)
    (ht : System.Transition (get T a) s handed s') :
    Numbered a s'.sent s'.state := by
  -- a loop that waits neither sends nor has ended
  have hreceived (hop : System.Receives (get T a) s) (reply : Option Message) :
      Numbered a s.sent (s.state.afterRecv T a reply) := by
    refine h.received ?_ ?_ reply
    · intro request rid hsend
      rcases hop with hop | ⟨_, hop⟩
      · exact absurd (hop.symm.trans hsend) (by simp)
      · exact absurd (hop.symm.trans hsend) (by simp)
    · cases hexit : s.state.exit with
      | none => rfl
      | some exit =>
        have hstop : s.state.op a = .stop := by simp only [Get.op, hexit]
        rcases hop with hop | ⟨_, hop⟩
        · exact absurd (hop.symm.trans hstop) (by simp)
        · exact absurd (hop.symm.trans hstop) (by simp)
  cases ht with
  | same => exact h
  | sent hop => exact h.sendNext hsize hop
  | refused hop => exact h.refused hsize hop
  | stashed => exact h
  | answered hop => exact hreceived hop _
  | unstashed hop => exact hreceived hop _
  | lost hop => exact hreceived hop _

/-- A loop uses no request id twice. -/
theorem Numbered.number_unique (h : Numbered a sent g) {i j : Nat} {q q' : Sent ReadRequest}
    (hi : sent[i]? = some q) (hj : sent[j]? = some q')
    (hwho : q.request.requester = q'.request.requester) (hid : q.requestId = q'.requestId) :
    i = j := by
  obtain ⟨hilt, rfl⟩ := List.getElem?_eq_some_iff.mp hi
  obtain ⟨hjlt, rfl⟩ := List.getElem?_eq_some_iff.mp hj
  rcases Nat.lt_trichotomy i j with hlt | heq | hgt
  · have hordered := List.pairwise_iff_getElem.mp h.ordered i j hilt hjlt hlt hwho
    rw [hid] at hordered
    exact absurd hordered (Nat.lt_irrefl _)
  · exact heq
  · have hordered := List.pairwise_iff_getElem.mp h.ordered j i hjlt hilt hgt hwho.symm
    rw [hid] at hordered
    exact absurd hordered (Nat.lt_irrefl _)

end Get

/-! ## Correlation -/

/-- The request for which a loop holds the id: the last one it sent with it. -/
def requestOf (sent : List (Sent ReadRequest)) (who : Requester) (rid : UInt32) : Option Nat :=
  (List.range sent.length).reverse.find? fun number =>
    (sent[number]?).any fun q => q.request.requester == who && q.requestId == rid

/-- No request id is shared by two outstanding requests. -/
def DistinctIds (s : System Get ReadRequest) : Prop :=
  ∀ i ∈ s.outstanding, ∀ j ∈ s.outstanding,
    (s.sent[i]?).map Sent.requestId = (s.sent[j]?).map Sent.requestId → i = j

instance (s : System Get ReadRequest) : Decidable (DistinctIds s) :=
  inferInstanceAs (Decidable (∀ i ∈ s.outstanding, ∀ j ∈ s.outstanding, _ → i = j))

/-- A reply that is taken for the answer to a request was caused by it. -/
def Correlated (T : Toolkit) (a : GetArgs) (s : System Get ReadRequest) (event : Event) : Prop :=
  ∀ reply, s.handed (get T a) event = some reply → s.state.awaits reply.message.requestId = true →
    requestOf s.sent s.state.active reply.message.requestId = some reply.cause

/-- All outstanding requests were made by the loop that runs: `get_chunked` is only called when
nothing of the batch is under way. -/
def Alone (s : System Get ReadRequest) : Prop :=
  ∀ number ∈ s.outstanding, ∀ q, s.sent[number]? = some q → q.request.requester = s.state.active

instance (s : System Get ReadRequest) : Decidable (Alone s) :=
  decidable_of_iff
    (∀ number ∈ s.outstanding,
      (s.sent[number]?).all (fun q => q.request.requester == s.state.active) = true)
    (by simp only [Alone, Option.all_eq_true, beq_iff_eq])

section

variable {T : Toolkit} {a : GetArgs} {s s' : System Get ReadRequest} {handed : Option Reply}

theorem Get.Numbered.requestOf_eq {sent : List (Sent ReadRequest)} {g : Get} (h : g.Numbered a sent)
    {number : Nat} {q : Sent ReadRequest} (hq : sent[number]? = some q) :
    requestOf sent q.request.requester q.requestId = some number := by
  obtain ⟨hlt, -⟩ := List.getElem?_eq_some_iff.mp hq
  cases hfind : requestOf sent q.request.requester q.requestId with
  | none =>
    have hnone := List.find?_eq_none.mp hfind number (by simpa using hlt)
    exact absurd (by simp [hq]) hnone
  | some found =>
    have hfound := List.find?_some hfind
    cases hq' : sent[found]? with
    | none => simp [hq'] at hfound
    | some q' =>
      simp only [hq', Option.any_some, Bool.and_eq_true, beq_iff_eq] at hfound
      rw [h.number_unique hq' hq hfound.1 hfound.2]

/-- A step leaves the requests that were outstanding, but the answered one, and may add one of the
loop that ran. -/
theorem outstanding_transition (hsound : s.Sound) (halone : Alone s)
    (ht : System.Transition (get T a) s handed s') :
    ∀ number ∈ s'.outstanding, ∀ q, s'.sent[number]? = some q →
      q.request.requester = s.state.active := by
  cases ht with
  | same => exact halone
  | refused => exact halone
  | stashed => exact halone
  | lost => exact halone
  | answered => exact fun number hnumber => halone number (List.mem_of_mem_erase hnumber)
  | unstashed => exact fun number hnumber => halone number (List.mem_of_mem_erase hnumber)
  | sent hop =>
    intro number hnumber q hq
    rcases List.mem_append.mp hnumber with hold | hnew
    · rw [List.getElem?_append_left (hsound.known number hold)] at hq
      exact halone number hold q hq
    · rw [List.mem_singleton.mp hnew, List.getElem?_concat_length] at hq
      obtain rfl := Option.some.inj hq
      exact (Get.op_sendAsync hop).1

/-- Requests of one loop have different ids. -/
theorem Get.Numbered.distinctIds (h : s.state.Numbered a s.sent) (hsound : s.Sound)
    {who : Requester}
    (hwho : ∀ number ∈ s.outstanding, ∀ q, s.sent[number]? = some q → q.request.requester = who) :
    DistinctIds s := by
  intro i hi j hj hid
  have hqi := List.getElem?_eq_getElem (hsound.known i hi)
  have hqj := List.getElem?_eq_getElem (hsound.known j hj)
  rw [hqi, hqj] at hid
  exact h.number_unique hqi hqj ((hwho i hi _ hqi).trans (hwho j hj _ hqj).symm)
    (Option.some.inj hid)

theorem correlated_of_alone (h : s.state.Numbered a s.sent) (hsound : s.Sound) (halone : Alone s)
    (event : Event) : Correlated T a s event := by
  intro reply hreply _
  have ht := s.transition_step (c := get T a) event
  rw [hreply] at ht
  obtain ⟨hcause, q, hq, hid⟩ := hsound.handed ht
  rw [hid, ← halone _ hcause q hq]
  exact h.requestOf_eq hq

end

/-- Every reply is consumed as the answer to the request that caused it, and no two outstanding
requests share an id, in every run of `get` in which `get_chunked` is only called when no request
of the batch is under way. -/
theorem get_correlation (T : Toolkit) (a : GetArgs) (hsize : a.hashes.length + 1 < 2 ^ 32)
    (events : List Event)
    (halone : AllSteps (System.step (get T a)) (fun s _ =>
      Alone s) { state := Get.start a } events) :
    DistinctIds (run (System.step (get T a)) { state := Get.start a } events) ∧
    AllSteps (System.step (get T a)) (Correlated T a) { state := Get.start a } events := by
  -- what the history of a run says, by induction along it
  have hinv (before : List Event) (hbefore : AllSteps (System.step (get T a)) (fun s _ => Alone s)
      { state := Get.start a } before) :
      let s := run (System.step (get T a)) { state := Get.start a } before
      s.Sound ∧ s.state.Numbered a s.sent ∧ DistinctIds s := by
    refine run_invariant (I := fun s => s.Sound ∧ s.state.Numbered a s.sent ∧ DistinctIds s)
      ?_ ?_ hbefore
    · rintro s event ⟨hsound, hnumbered, -⟩ halone
      have ht := s.transition_step (c := get T a) event
      have hsound' := hsound.transition ht
      have hnumbered' := hnumbered.transition hsize ht
      exact ⟨hsound', hnumbered',
        hnumbered'.distinctIds hsound' (outstanding_transition hsound halone ht)⟩
    · refine ⟨System.sound_init _, Get.numbered_start, ?_⟩
      intro i hi
      exact absurd hi (by simp)
  refine ⟨(hinv events halone).2.2, allSteps_of_forall ?_⟩
  rintro before event after rfl
  obtain ⟨hbefore, halone', -⟩ := allSteps_append.mp halone
  obtain ⟨hsound, hnumbered, -⟩ := hinv before hbefore
  exact correlated_of_alone hnumbered hsound halone' event

section Sample

open Cli.Sample

set_option maxRecDepth 20000

/-- The hash of a manifest, and one of a chunk that was asked for directly. -/
def sampleGet (hashes : List (Option Hash32)) : GetArgs where
  hashes := hashes
  ns := FixedBytes.fill 32 1
  sessionCap := 4194304
  decrypt := some
  parseMetadata := some

def readResponse (data : Bytes) : Bytes :=
  1 :: Wire.Sample.finishBlob
    { signerHint := none, data := some data, ttl := 0, timestamp := 0, signature := none }

/-- The reply with a manifest of two chunks. -/
def manifestResponse : Bytes :=
  readResponse (CPAR_MAGIC.toList ++ encodeManifestPayload toolkit
    { chunkSizeBytes := 1048576, segmentCount := 2, totalPlaintextBytes := 3
      plaintextSha3 := FixedBytes.fill 32 0, chunkHashes := List.replicate 64 7, filename := [] })

/-- Both requests are sent, the manifest comes first, and its two chunks are asked for. -/
def nestedWindow : List Event :=
  [.sent true, .sent true, .answer 0 MsgType.ReadResponse manifestResponse, .sent true, .sent true]

/-- A run with one hash: the manifest, and then its chunks. -/
theorem get_correlation_single :
    let a := sampleGet [some (FixedBytes.fill 32 2)]
    let events : List Event :=
    [.sent true, .answer 0 MsgType.ReadResponse manifestResponse, .sent true,
      .sent true, .answer 2 MsgType.ReadResponse (readResponse (CDAT_MAGIC.toList ++ [1]))]
    DistinctIds (run (System.step (get toolkit a)) { state := Get.start a } events) ∧
    AllSteps (System.step (get toolkit a)) (Correlated toolkit a)
        { state := Get.start a } events := by
  refine get_correlation toolkit _ (by decide) _ ⟨?_, ?_, ?_, ?_, ?_, trivial⟩
  · decide
  · decide
  · decide
  · decide
  · decide

/-- The reply to the second request of the batch is taken for the second chunk of the manifest. -/
theorem get_correlation_nested :
    let a := sampleGet [some (FixedBytes.fill 32 2), some (FixedBytes.fill 32 3)]
    let s := run (System.step (get toolkit a)) { state := Get.start a } nestedWindow
    ¬ DistinctIds s ∧
    ¬ Correlated toolkit a s
    (.answer 1 MsgType.ReadResponse (readResponse (CDAT_MAGIC.toList ++ [1]))) := by
  refine ⟨by decide, fun hcorrelated => ?_⟩
  -- the node copies the id 2, which the batch and `get_chunked` both used
  have hconsumed := hcorrelated
    { message := { type := MsgType.ReadResponse, payload := readResponse (CDAT_MAGIC.toList ++ [1])
                   requestId := 2 }
      cause := 1 } (by decide) (by decide)
  exact absurd hconsumed (by decide)

end Sample

end Cli
