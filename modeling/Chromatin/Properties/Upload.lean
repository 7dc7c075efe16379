import Chromatin.Cli.Chunked
import Chromatin.Infra.Run

/-!
# What a chunked upload leaves behind

`Uploading` is the invariant of `put_chunked`: request ids count the chunks, every chunk below
`next` is on its way under its id or acknowledged, and the hash of an acknowledged chunk stands at
its place. So the manifest lists, in order, hashes under which the node keeps encryptions of the
chunks. Against a node that acknowledges what it is sent, every upload that is admitted succeeds
(`exists_upload`).
-/

namespace Cli

open Infra Util Wire Net

namespace Upload

variable {answers : List Answer}

section Invariant

variable (T : Toolkit) (a : UploadArgs) (stored : Hash32 → Option Bytes)

/-- The data of a CDAT blob with the chunk. -/
def Encrypts (i : Nat) (data : Bytes) : Prop := ∃ coins, cdatData T a coins (a.chunk i) = some data

/-- The node gives such data back for the hash. -/
def Kept (i : Nat) (hash : Hash32) : Prop := ∃ data, stored hash = some data ∧ Encrypts T a i data

/-- The chunks are being sent; `sent` is what was sent under which request id. -/
structure Chunks (sent : UInt32 → Bytes → Prop) (u : Upload) : Prop where
  rid : u.rid.toNat = u.next + 1
  next_le : u.next ≤ a.numChunks
  counted : u.completed + u.ridToChunkIndex.length = u.next
  keys : (u.ridToChunkIndex.map Prod.fst).Nodup
  bound : ∀ r i, (r, i) ∈ u.ridToChunkIndex →
    i < u.next ∧ r.toNat = i + 1 ∧ ∃ data, sent r data ∧ Encrypts T a i data
  hashes : u.chunkHashes.length = a.numChunks
  kept : ∀ i < u.next, (∀ r, (r, i) ∉ u.ridToChunkIndex) →
    ∃ hash, u.chunkHashes[i]? = some hash ∧ Kept T a stored i hash
  absorbed : u.absorbed = a.file.take ((if u.attempt = 0 then u.next else u.next + 1) * a.chunkSize)

/-- What is being sent is the next chunk. -/
structure Loaded (u : Upload) : Prop where
  outgoing : ∀ data, u.outgoing = some data → u.next < a.numChunks ∧ Encrypts T a u.next data
  attempt : u.outgoing = none → u.attempt = 0

/-- All chunks are stored. -/
structure Ready (u : Upload) : Prop where
  absorbed : u.absorbed = a.file
  hashes : u.chunkHashes.length = a.numChunks
  kept : ∀ i < a.numChunks, ∃ hash, u.chunkHashes[i]? = some hash ∧ Kept T a stored i hash

/-- The blob with the manifest is being sent, or was. -/
def Announced (sent : UInt32 → Bytes → Prop) (u : Upload) : Prop :=
  ∃ coins data, manifestData T a coins (u.manifest T a) = some data ∧
    (u.outgoing = some data ∨ ∃ r, sent r data)

def Uploading (sent : UInt32 → Bytes → Prop) (u : Upload) : Prop :=
  match u.exit with
  | none =>
    if u.stage = .chunks then Chunks T a stored sent u ∧ Loaded T a u
    else Ready T a stored u ∧ Announced T a sent u
  | some .ok => Ready T a stored u ∧ Announced T a sent u ∧ u.outgoing = none
  | some _ => True

variable {T a stored} {sent sent' : UInt32 → Bytes → Prop} {u : Upload}

theorem Chunks.mono (h : Chunks T a stored sent u) (hmono : ∀ r data, sent r data → sent' r data) :
    Chunks T a stored sent' u where
  rid := h.rid
  next_le := h.next_le
  counted := h.counted
  keys := h.keys
  bound r i hmem := by
    obtain ⟨hlt, hr, data, hsent, hdata⟩ := h.bound r i hmem
    exact ⟨hlt, hr, data, hmono r data hsent, hdata⟩
  hashes := h.hashes
  kept := h.kept
  absorbed := h.absorbed

theorem Announced.mono (h : Announced T a sent u) (hmono : ∀ r data, sent r data → sent' r data) :
    Announced T a sent' u := by
  obtain ⟨coins, data, hdata, hplace⟩ := h
  exact ⟨coins, data, hdata, hplace.imp_right fun ⟨r, hsent⟩ => ⟨r, hmono r data hsent⟩⟩

theorem Uploading.mono (h : Uploading T a stored sent u)
    (hmono : ∀ r data, sent r data → sent' r data) : Uploading T a stored sent' u := by
  unfold Uploading at h ⊢
  cases hexit : u.exit with
  | none =>
    rw [hexit] at h
    dsimp only at h ⊢
    split_ifs at h ⊢
    · exact ⟨h.1.mono hmono, h.2⟩
    · exact ⟨h.1, h.2.mono hmono⟩
  | some exit =>
    rw [hexit] at h
    cases exit with
    | ok => exact ⟨h.1, h.2.1.mono hmono, h.2.2⟩
    | failed => exact trivial
    | threw => exact trivial

section

variable (h : Chunks T a stored sent u)

include h

/-- When all chunks are complete, none is on its way, and the whole file has been read. -/
theorem Chunks.ready (hattempt : u.attempt = 0)
    (hsize : 0 < a.chunkSize) (hall : a.numChunks ≤ u.completed) : Ready T a stored u := by
  have hnext : u.next = a.numChunks := by
    have hcounted := h.counted
    have hle := h.next_le
    omega
  have hempty : u.ridToChunkIndex = [] := by
    have hcounted := h.counted
    exact List.length_eq_zero_iff.mp (by omega)
  refine ⟨?_, h.hashes, fun i hi => ?_⟩
  · rw [h.absorbed, if_pos hattempt, hnext, List.take_of_length_le]
    have hdiv := Nat.div_add_mod (a.file.length + a.chunkSize - 1) a.chunkSize
    have hmod := Nat.mod_lt (a.file.length + a.chunkSize - 1) hsize
    rw [UploadArgs.numChunks, Nat.mul_comm]
    omega
  · exact h.kept i (hnext ▸ hi) (by simp [hempty])

/-- The loop up to its next blocking call. -/
theorem Chunks.advance (hexit : u.exit = none)
    (hstage : u.stage = .chunks) (hattempt : u.attempt = 0) (hsize : 0 < a.chunkSize) :
    Uploading T a stored sent (u.advance T a) := by
  unfold Upload.advance
  split_ifs with hrunning hroom hempty
  · exact trivial
  · cases hdata : cdatData T a (a.coins u.encryptions) (a.chunk u.next) with
    | none => exact trivial
    | some data =>
      simp only [encrypted, Uploading, hexit, hstage, if_true]
      refine ⟨⟨h.rid, h.next_le, h.counted, h.keys, h.bound, h.hashes, h.kept, h.absorbed⟩,
        fun data' hdata' => ?_, by simp⟩
      obtain rfl := Option.some.inj hdata'
      exact ⟨hroom.1, _, hdata⟩
  · simp only [Uploading, hexit, hstage, if_true]
    exact ⟨⟨h.rid, h.next_le, h.counted, h.keys, h.bound, h.hashes, h.kept, h.absorbed⟩, by simp,
      fun _ => hattempt⟩
  · have hready := h.ready hattempt hsize (Nat.le_of_not_lt hrunning)
    cases hdata : manifestData T a (a.coins u.encryptions) (u.manifest T a) with
    | none => exact trivial
    | some data =>
      simp only [encrypted, Uploading, hexit, reduceCtorEq, if_false]
      exact ⟨⟨hready.absorbed, hready.hashes, hready.kept⟩, _, data, hdata, .inl rfl⟩

/-- The chunk that is being read. -/
theorem Chunks.absorbed_afterSend :
    (if u.attempt = 0 then u.absorbed ++ a.chunk u.next else u.absorbed) =
      a.file.take ((u.next + 1) * a.chunkSize) := by
  split_ifs with hattempt
  · rw [h.absorbed, if_pos hattempt, Nat.add_mul, Nat.one_mul, List.take_add]
    rfl
  · rw [h.absorbed, if_neg hattempt]

/-- A chunk is sent, and its request id bound to it. -/
theorem Chunks.sentNext (hcount : a.numChunks ≤ MAX_CHUNKS)
    (hnext : u.next < a.numChunks) {data : Bytes} (hencrypts : Encrypts T a u.next data)
    (hsent : sent u.rid data) {absorbed : Bytes}
    (habsorbed : absorbed = a.file.take ((u.next + 1) * a.chunkSize)) :
    Chunks T a stored sent { u with absorbed, rid := u.rid + 1, next := u.next + 1, attempt := 0
                                    ridToChunkIndex :=
                                    Assoc.assign u.rid u.next u.ridToChunkIndex } := by
  have hrid : (u.rid + 1).toNat = u.next + 1 + 1 := by
    unfold MAX_CHUNKS at hcount
    rw [UInt32.toNat_add, h.rid]
    exact Nat.mod_eq_of_lt (by simp only [UInt32.reduceToNat]; omega)
  have hfresh : u.rid ∉ u.ridToChunkIndex.map Prod.fst := by
    intro hmem
    obtain ⟨⟨r, i⟩, hentry, hkey⟩ := List.mem_map.mp hmem
    obtain ⟨hlt, hr, -⟩ := h.bound r i hentry
    have hrid := h.rid
    rw [← hkey] at hrid
    dsimp only at hrid
    omega
  rw [Assoc.assign, Assoc.unbind_of_notMem hfresh]
  refine ⟨hrid, hnext, ?_, ?_, ?_, h.hashes, ?_, habsorbed⟩
  · have hcounted := h.counted
    rw [List.length_cons]
    dsimp only
    omega
  · rw [List.map_cons, List.nodup_cons]
    exact ⟨hfresh, h.keys⟩
  · intro r i hmem
    rcases List.mem_cons.mp hmem with heq | hmem
    · obtain ⟨rfl, rfl⟩ := Prod.mk.inj heq
      exact ⟨Nat.lt_succ_self _, h.rid, data, hsent, hencrypts⟩
    · obtain ⟨hlt, hr, hdata⟩ := h.bound r i hmem
      exact ⟨Nat.lt_succ_of_lt hlt, hr, hdata⟩
  · intro i hi habsent
    have hne : i ≠ u.next := by
      rintro rfl
      exact habsent u.rid List.mem_cons_self
    refine h.kept i (Nat.lt_of_le_of_ne (Nat.le_of_lt_succ hi) hne) fun r hmem => ?_
    exact habsent r (List.mem_cons_of_mem _ hmem)

theorem Chunks.afterSend (hloaded : Loaded T a u)
    (hexit : u.exit = none) (hstage : u.stage = .chunks) (hsize : 0 < a.chunkSize)
    (hcount : a.numChunks ≤ MAX_CHUNKS) {data : Bytes} (hdata : u.outgoing = some data) (ok : Bool)
    (hsent : ok = true → sent u.rid data) : Uploading T a stored sent (u.afterSend T a ok) := by
  obtain ⟨hnext, hencrypts⟩ := hloaded.outgoing data hdata
  have habsorbed := h.absorbed_afterSend
  simp only [Upload.afterSend, hstage]
  generalize (if u.attempt = 0 then u.absorbed ++ a.chunk u.next else u.absorbed) = absorbed
    at habsorbed ⊢
  cases ok with
  | true =>
    have hchunks := h.sentNext hcount hnext hencrypts (hsent rfl) habsorbed
    rw [hstage] at hchunks
    simp only [if_true]
    exact hchunks.advance hexit rfl rfl hsize
  | false =>
    simp only [Bool.false_eq_true, if_false]
    by_cases hattempt : u.attempt < RETRY_ATTEMPTS
    · rw [if_pos hattempt]
      cases hagain : cdatData T a (a.coins u.encryptions) (a.chunk u.next) with
      | none => exact trivial
      | some again =>
        simp only [encrypted, Uploading, hexit, if_true]
        refine ⟨⟨h.rid, h.next_le, h.counted, h.keys, h.bound, h.hashes, h.kept, ?_⟩,
          fun data' hdata' => ?_, by simp⟩
        · simpa using habsorbed
        · obtain rfl := Option.some.inj hdata'
          exact ⟨hnext, _, hagain⟩
    · rw [if_neg hattempt]
      exact trivial

/-- The hash of an acknowledged chunk is kept at its place. -/
theorem Chunks.acked {rid : UInt32} {i : Nat}
    (hlookup : u.ridToChunkIndex.lookup rid = some i) {hash : Hash32}
    (hkeeps : ∀ data, sent rid data → stored hash = some data) :
    Chunks T a stored sent { u with ridToChunkIndex := Assoc.unbind rid u.ridToChunkIndex
                                    completed := u.completed + 1
                                    chunkHashes := u.chunkHashes.set i hash } := by
  have hentry := Assoc.mem_of_lookup hlookup
  obtain ⟨hlt, hr, data, hsent, hdata⟩ := h.bound _ i hentry
  have hi : i < u.chunkHashes.length := by
    rw [h.hashes]
    exact hlt.trans_le h.next_le
  refine ⟨h.rid, h.next_le, ?_, Assoc.nodup_keys_unbind h.keys,
    fun r j hmem => h.bound r j (Assoc.mem_unbind.mp hmem).1, ?_, ?_, h.absorbed⟩
  · have hlength := Assoc.length_unbind h.keys hentry
    have hcounted := h.counted
    dsimp only
    omega
  · rw [List.length_set]
    exact h.hashes
  · intro j hj habsent
    by_cases hji : j = i
    · subst hji
      refine ⟨hash, ?_, data, hkeeps data hsent, hdata⟩
      rw [List.getElem?_set_self hi]
    · have hold : ∀ r, (r, j) ∉ u.ridToChunkIndex := by
        intro r hmem
        by_cases hkey : r = rid
        · subst hkey
          have hother := Assoc.lookup_of_mem h.keys hmem
          rw [hlookup] at hother
          exact hji (Option.some.inj hother).symm
        · exact habsent r (Assoc.mem_unbind.mpr ⟨hmem, hkey⟩)
      obtain ⟨hash', hget, hkept⟩ := h.kept j hj hold
      exact ⟨hash', by rw [List.getElem?_set_ne (Ne.symm hji)]; exact hget, hkept⟩

theorem Chunks.afterRecv (hloaded : Loaded T a u)
    (hexit : u.exit = none) (hstage : u.stage = .chunks) (hidle : u.outgoing = none)
    (hsize : 0 < a.chunkSize) (reply : Option Message)
    (hkeeps : ∀ message hash data, reply = some message → ackedHash message = some hash →
      sent message.requestId data → stored hash = some data) :
    Uploading T a stored sent (u.afterRecv T a reply) := by
  cases reply with
  | none => exact trivial
  | some reply =>
    simp only [Upload.afterRecv, hstage]
    cases hlookup : u.ridToChunkIndex.lookup reply.requestId with
    | none =>
      simp only [Uploading, hexit, hstage, if_true]
      exact ⟨h, hloaded⟩
    | some i =>
      dsimp only
      cases hack : ackedHash reply with
      | none => exact trivial
      | some hash =>
        have hchunks := h.acked hlookup fun data => hkeeps reply hash data rfl hack
        rw [hstage] at hchunks
        exact hchunks.advance hexit rfl (hloaded.attempt hidle) hsize

end

/-- The manifest is sent. -/
theorem Ready.afterSend (h : Ready T a stored u) (hannounced : Announced T a sent u)
    (hexit : u.exit = none) (hstage : u.stage ≠ .chunks) (ok : Bool)
    (hsent : ∀ data, u.outgoing = some data → ok = true → sent u.rid data) :
    Uploading T a stored sent (u.afterSend T a ok) := by
  unfold Upload.afterSend
  split
  · rename_i hchunks
    exact absurd hchunks hstage
  · cases ok with
    | true =>
      obtain ⟨coins, data, hdata, hplace⟩ := hannounced
      simp only [Uploading, hexit, if_true, reduceCtorEq, if_false]
      refine ⟨⟨h.absorbed, h.hashes, h.kept⟩, coins, data, hdata, .inr ?_⟩
      rcases hplace with hout | hdone
      · exact ⟨u.rid, hsent data hout rfl⟩
      · exact hdone
    | false => exact trivial

/-- The manifest is acknowledged. -/
theorem Ready.afterRecv (h : Ready T a stored u) (hannounced : Announced T a sent u)
    (hstage : u.stage ≠ .chunks) (hidle : u.outgoing = none) (reply : Option Message) :
    Uploading T a stored sent (u.afterRecv T a reply) := by
  unfold Upload.afterRecv
  split
  · exact trivial
  · split
    · rename_i hchunks
      exact absurd hchunks hstage
    · split
      · exact trivial
      · exact ⟨⟨h.absorbed, h.hashes, h.kept⟩, hannounced, hidle⟩

/-- One blocking call of the upload. -/
theorem Uploading.step (h : Uploading T a stored sent u) (hsize : 0 < a.chunkSize)
    (hcount : a.numChunks ≤ MAX_CHUNKS) (answer : Answer)
    (hmono : ∀ r data, sent r data → sent' r data)
    (hnew : ∀ blob r, answer = .sent true → u.op a = .sendAsync blob r → sent' r blob.data)
    (hkeeps : ∀ message hash data, answer = .received (some message) → u.stage = .chunks →
      ackedHash message = some hash → sent message.requestId data → stored hash = some data) :
    Uploading T a stored sent' ((putChunked T a).step u answer) := by
  have hstill := h.mono hmono
  cases hexit : u.exit with
  | some exit =>
    have hstop : (putChunked T a).op u = .stop := by simp [putChunked, Upload.op, hexit]
    rwa [Command.step_stop hstop]
  | none =>
    by_cases hstage : u.stage = .chunks
    · simp only [Uploading, hexit, hstage, if_true] at h
      obtain ⟨hchunks, hloaded⟩ := h
      cases hidle : u.outgoing with
      | some data =>
        have hop : (putChunked T a).op u =
            .sendAsync { data, ttl := a.ttl, timestamp := a.timestamp } u.rid := by
          simp [putChunked, Upload.op, hexit, hidle]
        cases answer with
        | sent ok =>
          simp only [Command.step, hop]
          refine (hchunks.mono hmono).afterSend hloaded hexit hstage hsize hcount hidle ok
            fun hok => ?_
          exact hnew _ u.rid (by rw [hok]) hop
        | received reply => simpa only [Command.step, hop] using hstill
      | none =>
        have hop : (putChunked T a).op u = .recvNext := by
          simp [putChunked, Upload.op, hexit, hidle, hstage]
        cases answer with
        | sent ok => simpa only [Command.step, hop] using hstill
        | received reply =>
          simp only [Command.step, hop]
          -- the acknowledged blob was sent before this step
          refine (hchunks.afterRecv hloaded hexit hstage hidle hsize reply ?_).mono hmono
          intro message hash data heq hack hsent
          exact hkeeps message hash data (by rw [heq]) hstage hack hsent
    · simp only [Uploading, hexit, if_neg hstage] at h
      obtain ⟨hready, hannounced⟩ := h
      have hannounced := hannounced.mono hmono
      cases hidle : u.outgoing with
      | some data =>
        have hop : (putChunked T a).op u =
            .sendAsync { data, ttl := a.ttl, timestamp := a.timestamp } u.rid := by
          simp [putChunked, Upload.op, hexit, hidle]
        cases answer with
        | sent ok =>
          simp only [Command.step, hop]
          refine hready.afterSend hannounced hexit hstage ok fun data' hdata' hok => ?_
          rw [hidle] at hdata'
          obtain rfl := Option.some.inj hdata'
          exact hnew _ u.rid (by rw [hok]) hop
        | received reply => simpa only [Command.step, hop] using hstill
      | none =>
        have hop : (putChunked T a).op u = .recvFor (u.rid - 1) := by
          simp only [putChunked, Upload.op, hexit, hidle]
        cases answer with
        | sent ok => simpa only [Command.step, hop] using hstill
        | received reply =>
          simp only [Command.step, hop]
          split_ifs
          · exact hready.afterRecv hannounced hstage hidle reply
          · exact hstill

end Invariant

/-! ### Every run -/

section Runs

variable (T : Toolkit) (a : UploadArgs)

/-- A blob with the data was sent under the request id. -/
def SentUnder (rid : UInt32) (data : Bytes) (answers : List Answer) : Prop :=
  Happened (putChunked T a).step
    (fun u answer => answer = .sent true ∧ ∃ blob, u.op a = .sendAsync blob rid ∧ blob.data = data)
    (start T a) answers

/-- The node keeps what it acknowledges: the hash it answers the blob of a chunk with leads to the
data that was sent under the request id. -/
def Keeps (stored : Hash32 → Option Bytes) (answers : List Answer) : Prop :=
  ∀ before message after hash data, answers = before ++ .received (some message) :: after →
    (run (putChunked T a).step (start T a) before).stage = .chunks →
    ackedHash message = some hash → SentUnder T a message.requestId data before →
    stored hash = some data

variable {T a} {stored : Hash32 → Option Bytes}

/-- Behind the chunks nothing is asked of an answer. -/
theorem Keeps.append_singleton (h : Keeps T a stored answers) {answer : Answer}
    (hbehind : (run (putChunked T a).step (start T a) answers).stage ≠ .chunks) :
    Keeps T a stored (answers ++ [answer]) := by
  intro before message after hash data hsplit hstage hack hsent
  rcases List.eq_nil_or_concat after with rfl | ⟨after, last, rfl⟩
  · obtain ⟨rfl, -⟩ := List.append_inj' hsplit rfl
    exact absurd hstage hbehind
  · rw [List.concat_eq_append, ← List.cons_append, ← List.append_assoc] at hsplit
    obtain ⟨rfl, -⟩ := List.append_inj' hsplit rfl
    exact h before message after hash data rfl hstage hack hsent

/-- What the checks before the first chunk leave. -/
theorem admitted_iff : a.admitted = true ↔ a.sessionCap ≠ 0 ∧
    (a.sessionCap.toNat < a.file.length ∧ a.file.length ≤ MAX_CHUNKED_FILE_SIZE) ∧
    a.fixedOverhead < a.sessionCap.toNat ∧ a.chunkSize < 2 ^ 32 ∧
    (a.numChunks ≠ 0 ∧ a.numChunks ≤ MAX_CHUNKS) ∧ a.pubkEnsured = true := by
  simp [UploadArgs.admitted, and_assoc]

/-- The chunks cover the file, and the last one begins in it. -/
theorem numChunks_bounds (hadmitted : a.admitted = true) :
    (a.numChunks - 1) * a.chunkSize < a.file.length ∧
    a.file.length ≤ a.numChunks * a.chunkSize := by
  obtain ⟨-, ⟨hfile, -⟩, hoverhead, -, ⟨hcount, -⟩, -⟩ := admitted_iff.mp hadmitted
  have hsize : 0 < a.chunkSize := Nat.sub_pos_of_lt hoverhead
  have hdiv := Nat.div_add_mod (a.file.length + a.chunkSize - 1) a.chunkSize
  have hmod := Nat.mod_lt (a.file.length + a.chunkSize - 1) hsize
  have hprevious : (a.numChunks - 1) * a.chunkSize + a.chunkSize = a.chunkSize * a.numChunks := by
    rw [Nat.sub_mul, Nat.one_mul, Nat.mul_comm, Nat.sub_add_cancel]
    exact Nat.le_mul_of_pos_right _ (Nat.pos_of_ne_zero hcount)
  rw [← UploadArgs.numChunks] at hdiv
  rw [Nat.mul_comm a.numChunks]
  omega

theorem uploading_start (hsize : 0 < a.chunkSize) (sent : UInt32 → Bytes → Prop) :
    Uploading T a stored sent (start T a) := by
  unfold start
  dsimp only
  split_ifs
  · refine Chunks.advance ⟨rfl, Nat.zero_le _, rfl, List.nodup_nil, ?_, ?_, ?_,
      ?_⟩ rfl rfl rfl hsize
    · exact fun r i hmem => absurd hmem List.not_mem_nil
    · exact List.length_replicate
    · exact fun i hi => absurd hi (Nat.not_lt_zero i)
    · simp
  · exact trivial

/-- **The invariant of `put_chunked`** holds in every state of every run. -/
theorem uploading_run (hsize : 0 < a.chunkSize) (hcount : a.numChunks ≤ MAX_CHUNKS)
    (answers : List Answer) (hkeeps : Keeps T a stored answers) :
    Uploading T a stored (fun r data => SentUnder T a r data answers)
      (run (putChunked T a).step (start T a) answers) := by
  induction answers using List.reverseRecOn with
  | nil => exact uploading_start hsize _
  | append_singleton answers answer ih =>
    have hbefore : Keeps T a stored answers := by
      intro before message after hash data heq
      exact hkeeps before message (after ++ [answer]) hash data (by rw [heq]; simp)
    rw [run_append, run_cons, run_nil]
    refine (ih hbefore).step hsize hcount answer (fun r data h => h.append [answer])
      (fun blob r hanswer hop => Happened.last ⟨hanswer, blob, hop, rfl⟩) ?_
    intro message hash data hanswer hstage hack hsent
    exact hkeeps answers message [] hash data (by rw [hanswer]) hstage hack hsent

/-- An upload that is not admitted does not succeed. -/
theorem admitted_of_ok
    (hok : (run (putChunked T a).step (start T a) answers).exit = some .ok) :
    a.admitted = true := by
  by_contra hrefused
  have hfailed : ∀ answers,
      (run (putChunked T a).step (start T a) answers).exit = some .failed := by
    intro answers
    induction answers using List.reverseRecOn with
    | nil => simp only [run_nil, start, if_neg hrefused]
    | append_singleton answers answer ih =>
      rw [run_append, run_cons, run_nil]
      generalize run (putChunked T a).step (start T a) answers = u at ih
      have hstop : (putChunked T a).op u = .stop := by simp [putChunked, Upload.op, ih]
      rwa [Command.step_stop hstop]
  rw [hfailed] at hok
  exact absurd hok (by simp)

end Runs

/-! ### A node that acknowledges -/

section Acknowledged

variable (T : Toolkit) (a : UploadArgs)

/-- The blob of a chunk when no request has to be sent again. -/
def chunkData (i : Nat) : Option Bytes := cdatData T a (a.coins i) (a.chunk i)

/-- The node here keeps the blob of a request under the number of the request. -/
def hashOf (rid : UInt32) : Hash32 := ⟨toBigEndian 32 rid.toNat, length_toBigEndian _ _⟩

def keptBlob (hash : Hash32) : Option Bytes := chunkData T a (ofBigEndian hash.toList - 1)

def ackOf (rid : UInt32) : Message :=
  { type := MsgType.WriteAck, payload := (hashOf rid).toList ++ List.replicate 9 0,
    requestId := rid }

/-- An upload that runs, without any failure so far. -/
structure Working (u : Upload) : Prop where
  running : u.exit = none
  stage : u.stage = .chunks
  attempt : u.attempt = 0
  unfinished : u.completed < a.numChunks
  chunks : Chunks T a (keptBlob T a) (fun r data => chunkData T a (r.toNat - 1) = some data) u
  outgoing : ∀ data, u.outgoing = some data →
    u.next < a.numChunks ∧ u.encryptions = u.next + 1 ∧ chunkData T a u.next = some data
  waiting : u.outgoing = none → u.encryptions = u.next ∧ u.ridToChunkIndex ≠ []

variable {T a} {u : Upload}

theorem keptBlob_hashOf (rid : UInt32) :
    keptBlob T a (hashOf rid) = chunkData T a (rid.toNat - 1) := by
  have hvalue : ofBigEndian (hashOf rid).toList = rid.toNat :=
    ofBigEndian_toBigEndian (rid.toNat_lt.trans (by decide))
  rw [keptBlob, hvalue]

theorem ackedHash_ackOf (rid : UInt32) : ackedHash (ackOf rid) = some (hashOf rid) := by
  have hlength : 41 ≤ (ackOf rid).payload.length := by simp [ackOf]
  rw [ackedHash, if_pos ⟨rfl, hlength⟩]
  exact readFixed_append [] (hashOf rid) _

theorem chunk_ne_nil (hadmitted : a.admitted = true) {i : Nat} (hi : i < a.numChunks) :
    a.chunk i ≠ [] := by
  obtain ⟨hbelow, -⟩ := numChunks_bounds hadmitted
  obtain ⟨-, -, hoverhead, -⟩ := admitted_iff.mp hadmitted
  have hsize : 0 < a.chunkSize := Nat.sub_pos_of_lt hoverhead
  have hstart : i * a.chunkSize ≤ (a.numChunks - 1) * a.chunkSize :=
    Nat.mul_le_mul_right _ (by omega)
  rw [← List.length_pos_iff, UploadArgs.chunk, length_sliceAt]
  omega

variable (hadmitted : a.admitted = true)
  (hencrypt : ∀ coins plaintext, (Envelope.encrypt T coins plaintext a.recipients).isSome = true)

include hencrypt in
theorem exists_cdatData (coins : Envelope.Coins) (chunk : Bytes) :
    ∃ data, cdatData T a coins chunk = some data := by
  obtain ⟨envelope, henvelope⟩ := Option.isSome_iff_exists.mp (hencrypt coins chunk)
  exact ⟨_, by rw [cdatData, henvelope, Option.map_some]⟩

include hadmitted hencrypt

/-- The loop goes on, or all chunks are complete and the manifest is to be sent. -/
theorem Chunks.working_advance
    (h : Chunks T a (keptBlob T a) (fun r data => chunkData T a (r.toNat - 1) = some data) u)
    (hexit : u.exit = none) (hstage : u.stage = .chunks) (hattempt : u.attempt = 0)
    (hencryptions : u.encryptions = u.next) :
    let u' := u.advance T a
    u'.next = u.next ∧ u'.completed = u.completed ∧
    (Working T a u' ∨ (u'.exit = none ∧ u'.stage = .manifest ∧ u'.outgoing.isSome = true)) := by
  intro u'
  simp only [u', Upload.advance]
  split_ifs with hrunning hroom hempty
  · exact absurd hempty (chunk_ne_nil hadmitted hroom.1)
  · obtain ⟨data, hdata⟩ := exists_cdatData hencrypt (a.coins u.encryptions) (a.chunk u.next)
    rw [hdata]
    refine ⟨rfl, rfl, .inl ⟨hexit, hstage, hattempt, hrunning, ?_, fun data' hdata' => ?_, by
      simp [encrypted]⟩⟩
    · exact ⟨h.rid, h.next_le, h.counted, h.keys, h.bound, h.hashes, h.kept, h.absorbed⟩
    · obtain rfl := Option.some.inj hdata'
      refine ⟨hroom.1, congrArg (· + 1) hencryptions, ?_⟩
      rw [hencryptions] at hdata
      exact hdata
  · refine ⟨rfl, rfl, .inl ⟨hexit, hstage, hattempt, hrunning,
      ?_, by simp, fun _ => ⟨hencryptions, ?_⟩⟩⟩
    · exact ⟨h.rid, h.next_le, h.counted, h.keys, h.bound, h.hashes, h.kept, h.absorbed⟩
    · -- without a request under way every chunk sent is complete, so one is left to send
      intro hnone
      have hcounted := h.counted
      have hle := h.next_le
      rw [hnone] at hroom hcounted
      refine hroom ⟨?_, by decide⟩
      rw [List.length_nil] at hcounted
      omega
  · obtain ⟨envelope, henvelope⟩ := Option.isSome_iff_exists.mp
      (hencrypt (a.coins u.encryptions) (encodeManifestPayload T (u.manifest T a)))
    rw [manifestData, henvelope]
    exact ⟨rfl, rfl, .inr ⟨hexit, rfl, rfl⟩⟩

/-- A step of the loop: what is being sent is sent, or a chunk on its way is acknowledged. -/
theorem Working.step (h : Working T a u) :
    ∃ answer, (∀ message, answer = .received (some message) → message = ackOf message.requestId) ∧
      (∀ blob r, u.op a = .sendAsync blob r → chunkData T a (r.toNat - 1) = some blob.data) ∧
      let u' := (putChunked T a).step u answer
      u'.next + u'.completed = u.next + u.completed + 1 ∧
      (Working T a u' ∨ (u'.exit = none ∧ u'.stage = .manifest ∧ u'.outgoing.isSome = true)) := by
  obtain ⟨-, -, -, -, ⟨-, hmax⟩, -⟩ := admitted_iff.mp hadmitted
  cases hidle : u.outgoing with
  | some data =>
    obtain ⟨hnext, hencryptions, hdata⟩ := h.outgoing data hidle
    have hop : (putChunked T a).op u =
        .sendAsync { data, ttl := a.ttl, timestamp := a.timestamp } u.rid := by
      simp [putChunked, Upload.op, h.running, hidle]
    have hrid : u.rid.toNat - 1 = u.next := by rw [h.chunks.rid, Nat.add_sub_cancel]
    have hkept : chunkData T a (u.rid.toNat - 1) = some data := by rw [hrid, hdata]
    have habsorbed := h.chunks.absorbed_afterSend
    refine ⟨.sent true, by simp, fun blob r hop' => ?_, ?_⟩
    · obtain ⟨rfl, rfl⟩ := Op.sendAsync.inj (hop.symm.trans hop')
      exact hkept
    · have hchunks := h.chunks.sentNext hmax hnext ⟨_, hdata⟩ hkept habsorbed
      simp only [Command.step, hop]
      simp only [putChunked, Upload.afterSend, h.stage, if_true] at hchunks ⊢
      obtain ⟨hnext', hcompleted', hresult⟩ :=
        hchunks.working_advance hadmitted hencrypt h.running rfl rfl
        hencryptions
      refine ⟨?_, hresult⟩
      rw [hnext', hcompleted']
      dsimp only
      omega
  | none =>
    obtain ⟨hencryptions, hpending⟩ := h.waiting hidle
    obtain ⟨⟨rid, i⟩, hentry⟩ := List.exists_mem_of_ne_nil _ hpending
    have hlookup := Assoc.lookup_of_mem h.chunks.keys hentry
    have hop : (putChunked T a).op u = .recvNext := by
      simp [putChunked, Upload.op, h.running, hidle, h.stage]
    refine ⟨.received (some (ackOf rid)), ?_, fun blob r hop' => ?_, ?_⟩
    · rintro message heq
      obtain rfl := Option.some.inj (Answer.received.inj heq)
      rfl
    · exact absurd (hop.symm.trans hop') (by simp)
    · have hkeeps : ∀ data, chunkData T a (rid.toNat - 1) = some data →
          keptBlob T a (hashOf rid) = some data := fun data hdata => by rw [keptBlob_hashOf, hdata]
      have hchunks := h.chunks.acked hlookup hkeeps
      simp only [Command.step, hop]
      simp only [putChunked, Upload.afterRecv, h.stage, show (ackOf rid).requestId = rid from rfl,
        hlookup, ackedHash_ackOf] at hchunks ⊢
      obtain ⟨hnext', hcompleted', hresult⟩ :=
        hchunks.working_advance hadmitted hencrypt h.running rfl h.attempt hencryptions
      refine ⟨?_, hresult⟩
      rw [hnext', hcompleted']
      dsimp only
      omega

/-- What has been sent and received so far in such a run. -/
structure Honest (T : Toolkit) (a : UploadArgs) (answers : List Answer) : Prop where
  sent : ∀ r data, SentUnder T a r data answers → chunkData T a (r.toNat - 1) = some data
  received : ∀ message, .received (some message) ∈ answers → message = ackOf message.requestId

omit hadmitted hencrypt in
theorem Honest.keeps (h : Honest T a answers) :
    Keeps T a (keptBlob T a) answers := by
  intro before message after hash data hsplit _ hack hsent
  have hmessage := h.received message (by simp [hsplit])
  rw [hmessage, ackedHash_ackOf] at hack
  rw [← Option.some.inj hack, keptBlob_hashOf]
  refine h.sent _ data ?_
  rw [hsplit]
  exact hsent.append _

/-- The chunks are sent and acknowledged one by one. -/
theorem exists_manifest : ∀ (k : Nat) (answers : List Answer), Honest T a answers →
    let u := run (putChunked T a).step (start T a) answers
    Working T a u → 2 * a.numChunks ≤ u.next + u.completed + k →
    ∃ answers', Honest T a answers' ∧
      let u' := run (putChunked T a).step (start T a) answers'
      u'.exit = none ∧ u'.stage = .manifest ∧ u'.outgoing.isSome = true
  | 0, answers, _, hworking, hbound => by
    have hunfinished := hworking.unfinished
    have hnext := hworking.chunks.next_le
    omega
  | k + 1, answers, hhonest, hworking, hbound => by
    obtain ⟨answer, hack, hsend, hprogress, hresult⟩ := hworking.step hadmitted hencrypt
    have hhonest' : Honest T a (answers ++ [answer]) := by
      refine ⟨fun r data hsent => ?_, fun message hmem => ?_⟩
      · rcases happened_append_singleton.mp hsent with hbefore | ⟨-, blob, hop, rfl⟩
        · exact hhonest.sent r data hbefore
        · exact hsend blob r hop
      · rcases List.mem_append.mp hmem with hbefore | hlast
        · exact hhonest.received message hbefore
        · exact hack message (List.mem_singleton.mp hlast).symm
    have hrun : run (putChunked T a).step (start T a) (answers ++ [answer]) =
        (putChunked T a).step (run (putChunked T a).step (start T a) answers) answer := by
      rw [run_append, run_cons, run_nil]
    rcases hresult with hworking' | hmanifest
    · refine exists_manifest k (answers ++ [answer]) hhonest' (hrun ▸ hworking') ?_
      rw [hrun, hprogress]
      omega
    · exact ⟨answers ++ [answer], hhonest', hrun ▸ hmanifest⟩

/-- **An upload that is admitted succeeds** with a node that acknowledges what it is sent. -/
theorem exists_upload : ∃ answers, Keeps T a (keptBlob T a) answers ∧
    (run (putChunked T a).step (start T a) answers).exit = some .ok := by
  have hempty : Honest T a [] := ⟨fun r data h => absurd h not_happened_nil, by simp⟩
  have hstart : start T a = Upload.advance T a
      { chunkHashes := List.replicate a.numChunks (FixedBytes.fill 32 0) } := if_pos hadmitted
  have hchunks : Chunks T a (keptBlob T a) (fun r data => chunkData T a (r.toNat - 1) = some data)
      { chunkHashes := List.replicate a.numChunks (FixedBytes.fill 32 0) } :=
    ⟨rfl, Nat.zero_le _, rfl, List.nodup_nil, by simp, List.length_replicate, by simp, by simp⟩
  obtain ⟨-, -, hfirst⟩ := hchunks.working_advance hadmitted hencrypt rfl rfl rfl rfl
  rw [← hstart] at hfirst
  obtain ⟨answers, hhonest, hexit, hstage, hout⟩ : ∃ answers, Honest T a answers ∧
      let u := run (putChunked T a).step (start T a) answers
      u.exit = none ∧ u.stage = .manifest ∧ u.outgoing.isSome = true := by
    rcases hfirst with hworking | hmanifest
    · exact exists_manifest hadmitted hencrypt (2 * a.numChunks) [] hempty hworking (by simp)
    · exact ⟨[], hempty, hmanifest⟩
  -- the manifest is sent and acknowledged
  obtain ⟨data, hdata⟩ := Option.isSome_iff_exists.mp hout
  generalize hu : run (putChunked T a).step (start T a) answers = u at hexit hstage hdata
  have hsent : (putChunked T a).step u (.sent true) =
      { u with rid := u.rid + 1, stage := .manifestAck, outgoing := none } := by
    simp [Command.step, putChunked, Upload.op, Upload.afterSend, hexit, hdata, hstage]
  have hacked :
    ((putChunked T a).step { u with rid := u.rid + 1, stage := .manifestAck, outgoing := none }
      (.received (some (ackOf (u.rid + 1 - 1))))).exit = some .ok := by
    have hid : (ackOf (u.rid + 1 - 1)).requestId = u.rid + 1 - 1 := rfl
    simp only [Command.step, putChunked, Upload.op, hexit, Option.all_some, hid, beq_self_eq_true,
      if_true, Upload.afterRecv, ackedHash_ackOf]
  have hrun : run (putChunked T a).step (start T a) (answers ++ [.sent true]) =
      { u with rid := u.rid + 1, stage := .manifestAck, outgoing := none } := by
    rw [run_append, hu, run_cons, run_nil, hsent]
  refine ⟨(answers ++ [.sent true]) ++ [.received (some (ackOf (u.rid + 1 - 1)))], ?_, ?_⟩
  · refine Keeps.append_singleton (hhonest.keeps.append_singleton ?_) ?_
    · rw [hu, hstage]
      simp
    · rw [hrun]
      simp
  · rw [run_append, hrun, run_cons, run_nil]
    exact hacked

end Acknowledged

end Upload

end Cli
