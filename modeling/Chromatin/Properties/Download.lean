import Chromatin.Cli.Chunked
import Chromatin.Cli.Sample
import Chromatin.Infra.Run

/-!
# What a chunked download leaves behind

`Tracked` is the invariant of `get_chunked`: every chunk index below `next` is in at most one
place, done, bound to a request id or being sent again, and the plaintexts of the chunks that are
done stand at their places in the file. So when as many chunks are complete as the manifest has,
all of them stand in the file. Every failure removes the file.
-/

namespace Cli.Download

open Infra Util Wire Net

variable {i : Nat}

section Shape

variable {a : DownloadArgs} {T : Toolkit}

/-- The last chunk ends at the end of the file. -/
theorem expectedLen_last (hfit : (chunkCount a - 1) * chunkSize a ≤ total a)
    (hlast : i + 1 = chunkCount a) : i * chunkSize a + expectedLen a i = total a := by
  have hi : chunkCount a - 1 = i := by omega
  rw [hi] at hfit
  have hlt : i * chunkSize a < 2 ^ 64 := hfit.trans_lt a.manifest.totalPlaintextBytes.toNat_lt
  have hle : UInt64.ofNat (i * chunkSize a) ≤ a.manifest.totalPlaintextBytes := by
    rw [UInt64.le_iff_toNat_le, UInt64.toNat_ofNat_of_lt' hlt]
    exact hfit
  rw [expectedLen, if_pos hlast, UInt64.toNat_sub_of_le _ _ hle, UInt64.toNat_ofNat_of_lt' hlt]
  exact Nat.add_sub_cancel' hfit

/-- Every chunk lies in the file. -/
theorem expectedLen_le (hfit : (chunkCount a - 1) * chunkSize a ≤ total a)
    (hi : i < chunkCount a) : i * chunkSize a + expectedLen a i ≤ total a := by
  by_cases hlast : i + 1 = chunkCount a
  · exact (expectedLen_last hfit hlast).le
  · rw [expectedLen, if_neg hlast]
    have hle : (i + 1) * chunkSize a ≤ (chunkCount a - 1) * chunkSize a :=
      Nat.mul_le_mul_right _ (by omega)
    rw [Nat.add_mul, Nat.one_mul] at hle
    exact hle.trans hfit

/-- Chunks do not overlap. -/
theorem expectedLen_disjoint {j : Nat} (hij : i < j) (hj : j < chunkCount a) :
    i * chunkSize a + expectedLen a i ≤ j * chunkSize a := by
  rw [expectedLen, if_neg (by omega)]
  have hle : (i + 1) * chunkSize a ≤ j * chunkSize a := Nat.mul_le_mul_right _ hij
  rwa [Nat.add_mul, Nat.one_mul] at hle

/-- A last chunk behind the declared end would have to be longer than any vector. -/
theorem expectedLen_huge (hcount : chunkCount a ≤ MAX_CHUNKS)
    (hbeyond : total a < (chunkCount a - 1) * chunkSize a)
    (hlast : i + 1 = chunkCount a) : 2 ^ 63 ≤ expectedLen a i := by
  have hi : chunkCount a - 1 = i := by omega
  rw [hi] at hbeyond
  have hsize : chunkSize a < 2 ^ 32 := a.manifest.chunkSizeBytes.toNat_lt
  have hle : i * chunkSize a ≤ 65536 * 2 ^ 32 := by
    refine Nat.mul_le_mul ?_ hsize.le
    unfold MAX_CHUNKS at hcount
    omega
  have hlt : i * chunkSize a < UInt64.size := hle.trans_lt (by decide)
  rw [expectedLen, if_pos hlast, UInt64.toNat_sub, UInt64.toNat_ofNat_of_lt' hlt]
  unfold total at hbeyond
  omega

end Shape

/-! ## The invariant -/

section Invariant

variable (T : Toolkit) (a : DownloadArgs)

/-- The plaintext of a chunk comes out of a reply to a request for it. -/
def Delivered (i : Nat) (plaintext : Bytes) (d : Download) (answer : Answer) : Prop :=
  ∃ reply, answer = .received (some reply) ∧ d.ridToChunkIndex.lookup reply.requestId = some i ∧
    content T a reply = .plaintext plaintext

/-- The chunks in `done` are complete, with these plaintexts. -/
structure Tracked (d : Download) (done : List Nat) (plain : Nat → Bytes) : Prop where
  completed : d.completed = done.length
  once : (done ++ (d.ridToChunkIndex.map Prod.snd ++ d.retrying.toList)).Nodup
  below : ∀ i ∈ done ++ (d.ridToChunkIndex.map Prod.snd ++ d.retrying.toList), i < d.next
  next_le : d.next ≤ chunkCount a
  lengths : ∀ i ∈ done, (plain i).length = expectedLen a i ∧ (plain i).length < 2 ^ 63
  placed : (chunkCount a - 1) * chunkSize a ≤ total a → ∃ content, d.file = some content ∧
    content.length = total a ∧
      ∀ i ∈ done, sliceAt content (i * chunkSize a) (plain i).length = plain i

/-- The file is what the manifest says, chunk by chunk. -/
def Complete (happened : Nat → Bytes → Prop) (d : Download) : Prop :=
  ∃ content, d.file = some content ∧ content.length = total a ∧
    T.sha3_256 content = a.manifest.plaintextSha3 ∧
    ∀ i < chunkCount a, ∃ plaintext, happened i plaintext ∧
      sliceAt content (i * chunkSize a) plaintext.length = plaintext

/-- What holds of a download that created its file. -/
def Accounted (happened : Nat → Bytes → Prop) (d : Download) : Prop :=
  match d.exit with
  | none => ∃ done plain, Tracked a d done plain ∧ ∀ i ∈ done, happened i (plain i)
  | some .ok => Complete T a happened d
  | some _ => d.file = none

variable {T a} {happened happened' : Nat → Bytes → Prop} {d : Download} {done : List Nat}
  {plain : Nat → Bytes} {rid : UInt32}

theorem accounted_fail : Accounted T a happened d.fail := rfl

theorem Accounted.mono (h : Accounted T a happened d)
    (hmono : ∀ i plaintext, happened i plaintext → happened' i plaintext) :
    Accounted T a happened' d := by
  unfold Accounted at h ⊢
  cases hexit : d.exit with
  | none =>
    rw [hexit] at h
    obtain ⟨done, plain, htracked, hdone⟩ := h
    exact ⟨done, plain, htracked, fun i hi => hmono i _ (hdone i hi)⟩
  | some exit =>
    rw [hexit] at h
    cases exit with
    | ok =>
      obtain ⟨content, hfile, hlength, hsha3, hchunks⟩ := h
      refine ⟨content, hfile, hlength, hsha3, fun i hi => ?_⟩
      obtain ⟨plaintext, hhappened, hslice⟩ := hchunks i hi
      exact ⟨plaintext, hmono i plaintext hhappened, hslice⟩
    | failed => exact h
    | threw => exact h

section

variable (h : Tracked a d done plain)

include h

/-- A chunk that a request is out for. -/
theorem Tracked.lt_of_mem
    (hentry : (rid, i) ∈ d.ridToChunkIndex) : i < d.next := by
  refine h.below i (List.mem_append_right _ (List.mem_append_left _ ?_))
  exact List.mem_map.mpr ⟨(rid, i), hentry, rfl⟩

/-- When as many chunks are done as there are, all of them are. -/
theorem Tracked.mem_done (hall : chunkCount a ≤ d.completed)
    (hi : i < chunkCount a) : i ∈ done := by
  have hnodup : done.Nodup := h.once.sublist (List.sublist_append_left _ _)
  have hbelow : ∀ j ∈ done, j < chunkCount a := fun j hj =>
    (h.below j (List.mem_append_left _ hj)).trans_le h.next_le
  have hperm : done.Perm (List.range (chunkCount a)) := by
    refine List.Subperm.perm_of_length_le ?_ ?_
    · exact List.subperm_of_subset hnodup fun j hj => List.mem_range.mpr (hbelow j hj)
    · rw [List.length_range, ← h.completed]
      exact hall
  exact hperm.mem_iff.mpr (List.mem_range.mpr hi)

/-- All chunks together fit the declared size. -/
theorem Tracked.fits (hcount : chunkCount a ≤ MAX_CHUNKS)
    (hall : chunkCount a ≤ d.completed) : (chunkCount a - 1) * chunkSize a ≤ total a := by
  by_contra hbeyond
  have hpos : 0 < chunkCount a := by
    rcases Nat.eq_zero_or_pos (chunkCount a) with hzero | hpos
    · rw [hzero] at hbeyond
      omega
    · exact hpos
  have hlast : chunkCount a - 1 + 1 = chunkCount a := by omega
  have hmem : chunkCount a - 1 ∈ done := h.mem_done hall (by omega)
  obtain ⟨hlength, hshort⟩ := h.lengths _ hmem
  have hhuge := expectedLen_huge hcount (Nat.lt_of_not_le hbeyond) hlast
  omega

/-- The end of the loop. -/
theorem Tracked.advance (hexit : d.exit = none)
    (hcount : chunkCount a ≤ MAX_CHUNKS) (hdone : ∀ i ∈ done, happened i (plain i)) :
    Accounted T a happened (d.advance T a) := by
  unfold Download.advance
  split_ifs with hrunning
  · unfold Accounted
    rw [hexit]
    exact ⟨done, plain, h, hdone⟩
  · have hall : chunkCount a ≤ d.completed := Nat.le_of_not_lt hrunning
    obtain ⟨content, hfile, hlength, hslices⟩ := h.placed (h.fits hcount hall)
    unfold finish
    split_ifs with hverified
    · refine ⟨content, hfile, hlength, ?_, fun i hi => ?_⟩
      · simpa [hfile] using hverified.2
      · have hmem := h.mem_done hall hi
        exact ⟨plain i, hdone i hmem, hslices i hmem⟩
    · exact accounted_fail

/-- The request for a chunk is sent again. -/
theorem Tracked.sentAgain (hretry : d.retrying = some i) :
    Tracked a { d with rid := d.rid + 1, retrying := none
                       ridToChunkIndex := Assoc.assign d.rid i d.ridToChunkIndex } done plain := by
  have hsub := (Assoc.unbind_sublist d.rid d.ridToChunkIndex).map Prod.snd
  have hperm : (done ++ (d.ridToChunkIndex.map Prod.snd ++ [i])).Perm
      (done ++ (i :: d.ridToChunkIndex.map Prod.snd ++ [])) := by
    refine List.Perm.append_left _ ?_
    rw [List.append_nil]
    exact List.perm_append_comm
  have hsmaller : (done ++ ((Assoc.assign d.rid i d.ridToChunkIndex).map Prod.snd ++ [])).Sublist
      (done ++ (i :: d.ridToChunkIndex.map Prod.snd ++ [])) := by
    refine List.Sublist.append (List.Sublist.refl _) (List.Sublist.append ?_ (List.Sublist.refl _))
    exact hsub.cons_cons i
  have honce := h.once
  have hbelow := h.below
  rw [hretry] at honce hbelow
  refine ⟨h.completed, (hperm.nodup honce).sublist hsmaller, fun j hj => ?_, h.next_le, h.lengths,
    h.placed⟩
  exact hbelow j (hperm.mem_iff.mpr (hsmaller.subset hj))

/-- The request for the next chunk is sent. -/
theorem Tracked.sentNext (hnext : d.next < chunkCount a) :
    Tracked a { d with rid := d.rid + 1, next := d.next + 1
                       ridToChunkIndex :=
                       Assoc.assign d.rid d.next d.ridToChunkIndex } done plain := by
  have hsub := (Assoc.unbind_sublist d.rid d.ridToChunkIndex).map Prod.snd
  have hbelow := h.below
  have hfresh : d.next ∉ done ++ (d.ridToChunkIndex.map Prod.snd ++ d.retrying.toList) :=
    fun hmem =>
    absurd (hbelow d.next hmem) (Nat.lt_irrefl _)
  have hsmaller : (done ++ ((Assoc.assign d.rid d.next d.ridToChunkIndex).map Prod.snd ++
      d.retrying.toList)).Sublist
      (done ++ (d.next :: d.ridToChunkIndex.map Prod.snd ++ d.retrying.toList)) := by
    refine List.Sublist.append (List.Sublist.refl _) (List.Sublist.append ?_ (List.Sublist.refl _))
    exact hsub.cons_cons d.next
  have hnodup :
      (done ++ (d.next :: d.ridToChunkIndex.map Prod.snd ++ d.retrying.toList)).Nodup := by
    rw [List.cons_append]
    exact List.nodup_middle.mpr (List.nodup_cons.mpr ⟨hfresh, h.once⟩)
  refine ⟨h.completed, hnodup.sublist hsmaller, fun j hj => ?_, hnext, h.lengths, h.placed⟩
  have hmem := hsmaller.subset hj
  rw [List.cons_append, List.mem_append, List.mem_cons] at hmem
  rcases hmem with hmem | rfl | hmem
  · exact Nat.lt_succ_of_lt (hbelow j (List.mem_append_left _ hmem))
  · exact Nat.lt_succ_self _
  · exact Nat.lt_succ_of_lt (hbelow j (List.mem_append_right _ hmem))

theorem Tracked.afterSend (hexit : d.exit = none)
    (hnext : d.retrying = none → d.next < chunkCount a) (hdone : ∀ i ∈ done, happened i (plain i))
    (ok : Bool) : Accounted T a happened (d.afterSend ok) := by
  cases ok with
  | false => exact accounted_fail
  | true =>
    cases hretry : d.retrying with
    | some i =>
      have hsent := h.sentAgain hretry
      rw [hexit] at hsent
      simp only [Download.afterSend, if_true, hretry, Accounted, hexit]
      exact ⟨done, plain, hsent, hdone⟩
    | none =>
      have hsent := h.sentNext (hnext hretry)
      rw [hretry, hexit] at hsent
      simp only [Download.afterSend, if_true, hretry, Accounted, hexit]
      exact ⟨done, plain, hsent, hdone⟩

/-- The reply is taken: the chunk of the request is neither done nor bound any more. -/
theorem Tracked.taken (hretry : d.retrying = none)
    (hlookup : d.ridToChunkIndex.lookup rid = some i) :
    ((i :: done) ++ ((Assoc.unbind rid d.ridToChunkIndex).map Prod.snd ++ [])).Nodup ∧
      ∀ j ∈ (i :: done) ++ ((Assoc.unbind rid d.ridToChunkIndex).map Prod.snd ++ []),
          j < d.next := by
  have honce := h.once
  have hbelow := h.below
  rw [hretry] at honce hbelow
  refine ⟨Assoc.nodup_values_of_lookup hlookup honce, fun j hj => ?_⟩
  rw [List.cons_append, List.mem_cons, List.mem_append, List.append_nil] at hj
  refine hbelow j ?_
  rcases hj with rfl | hmem | hmem
  · refine List.mem_append_right _ (List.mem_append_left _ ?_)
    exact List.mem_map.mpr ⟨_, Assoc.mem_of_lookup hlookup, rfl⟩
  · exact List.mem_append_left _ hmem
  · refine List.mem_append_right _ (List.mem_append_left _ ?_)
    exact ((Assoc.unbind_sublist rid _).map Prod.snd).subset hmem

/-- A chunk is written at its place. -/
theorem Tracked.written (hretry : d.retrying = none)
    (hlookup : d.ridToChunkIndex.lookup rid = some i) {plaintext : Bytes}
    (hlen : plaintext.length = expectedLen a i) (hshort : plaintext.length < 2 ^ 63) :
    i ∉ done ∧
    Tracked a { d with ridToChunkIndex := Assoc.unbind rid d.ridToChunkIndex
                       file := d.file.map fun content =>
                         pwrite 0 content (i * chunkSize a) plaintext
                       completed := d.completed + 1 }
      (i :: done) (Function.update plain i plaintext) := by
  obtain ⟨hnodup, hbelow⟩ := h.taken hretry hlookup
  have hi : i < chunkCount a := (hbelow i (by simp)).trans_le h.next_le
  have hfresh : i ∉ done := by
    intro hmem
    rw [List.cons_append, List.nodup_cons] at hnodup
    exact hnodup.1 (List.mem_append_left _ hmem)
  have hother {j : Nat} (hj : j ∈ done) : Function.update plain i plaintext j = plain j :=
    Function.update_of_ne (fun heq : j = i => hfresh (heq ▸ hj)) _ _
  refine ⟨hfresh, ⟨?_, ?_, ?_, h.next_le, ?_, ?_⟩⟩
  · rw [List.length_cons, ← h.completed]
  · rw [hretry]
    exact hnodup
  · rw [hretry]
    exact hbelow
  · intro j hj
    rcases List.mem_cons.mp hj with rfl | hj
    · rw [Function.update_self]
      exact ⟨hlen, hshort⟩
    · rw [hother hj]
      exact h.lengths j hj
  · intro hfit
    obtain ⟨content, hfile, hsize, hslices⟩ := h.placed hfit
    have hroom : i * chunkSize a + plaintext.length ≤ content.length := by
      rw [hlen, hsize]
      exact expectedLen_le hfit hi
    refine ⟨pwrite 0 content (i * chunkSize a) plaintext, by rw [hfile]; rfl, ?_, fun j hj => ?_⟩
    · rw [length_pwrite hroom, hsize]
    · rcases List.mem_cons.mp hj with rfl | hj
      · rw [Function.update_self]
        exact sliceAt_pwrite_self hroom
      · rw [hother hj, sliceAt_pwrite_of_disjoint hroom, hslices j hj]
        rw [(h.lengths j hj).1, hlen]
        have hjlt : j < chunkCount a :=
          (h.below j (List.mem_append_left _ hj)).trans_le h.next_le
        rcases Nat.lt_or_gt_of_ne (fun heq : j = i => hfresh (heq ▸ hj)) with hlt | hgt
        · exact .inl (expectedLen_disjoint hlt hi)
        · exact .inr (expectedLen_disjoint hgt hjlt)

theorem Tracked.writeChunk (hexit : d.exit = none)
    (hretry : d.retrying = none) (hcount : chunkCount a ≤ MAX_CHUNKS)
    (hlookup : d.ridToChunkIndex.lookup rid = some i) {plaintext : Bytes}
    (hshort : plaintext.length < 2 ^ 63) (hdone : ∀ i ∈ done, happened i (plain i))
    (hnew : happened i plaintext) :
    Accounted T a happened (Download.writeChunk T a
      { d with ridToChunkIndex := Assoc.unbind rid d.ridToChunkIndex } i plaintext) := by
  unfold Download.writeChunk
  split_ifs with hlength hwrite
  · exact accounted_fail
  · exact accounted_fail
  · obtain ⟨hfresh, hwritten⟩ := h.written hretry hlookup (by simpa using hlength) hshort
    refine hwritten.advance hexit hcount fun j hj => ?_
    rcases List.mem_cons.mp hj with rfl | hj
    · rw [Function.update_self]
      exact hnew
    · rw [Function.update_of_ne (fun heq : j = i => hfresh (heq ▸ hj))]
      exact hdone j hj

/-- The request for a chunk is to be made again. -/
theorem Tracked.retryChunk (hexit : d.exit = none)
    (hretry : d.retrying = none)
    (hlookup : d.ridToChunkIndex.lookup rid = some i) (hdone : ∀ i ∈ done, happened i (plain i)) :
    Accounted T a happened (Download.retryChunk
      { d with ridToChunkIndex := Assoc.unbind rid d.ridToChunkIndex } i) := by
  obtain ⟨hnodup, hbelow⟩ := h.taken hretry hlookup
  unfold Download.retryChunk
  split_ifs with hspent
  · exact accounted_fail
  · have hperm : ((i :: done) ++ ((Assoc.unbind rid d.ridToChunkIndex).map Prod.snd ++ [])).Perm
        (done ++ ((Assoc.unbind rid d.ridToChunkIndex).map Prod.snd ++ [i])) := by
      rw [List.append_nil, List.cons_append, ← List.append_assoc]
      exact (List.perm_append_singleton i _).symm
    simp only [Accounted, hexit]
    refine ⟨done, plain, ⟨h.completed, hperm.nodup hnodup, fun j hj => ?_, h.next_le, h.lengths,
      h.placed⟩, hdone⟩
    exact hbelow j (hperm.mem_iff.mpr hj)

theorem Tracked.afterRecv (hexit : d.exit = none)
    (hretry : d.retrying = none) (hcount : chunkCount a ≤ MAX_CHUNKS)
    (hsize : ∀ envelope plaintext, a.decrypt envelope = some plaintext → plaintext.length < 2 ^ 63)
    (hdone : ∀ i ∈ done, happened i (plain i)) {reply : Option Message}
    (hnew : ∀ i plaintext, Delivered T a i plaintext d (.received reply) → happened i plaintext) :
    Accounted T a happened (d.afterRecv T a reply) := by
  cases reply with
  | none => exact accounted_fail
  | some reply =>
    simp only [Download.afterRecv]
    cases hlookup : d.ridToChunkIndex.lookup reply.requestId with
    | none =>
      simp only [Accounted, hexit]
      exact ⟨done, plain, h, hdone⟩
    | some i =>
      dsimp only
      cases hcontent : content T a reply with
      | unusable => exact h.retryChunk hexit hretry hlookup hdone
      | foreign => exact accounted_fail
      | plaintext bytes =>
        refine h.writeChunk hexit hretry hcount hlookup ?_ hdone
          (hnew i bytes ⟨reply, rfl, hlookup, hcontent⟩)
        simp only [content] at hcontent
        split_ifs at hcontent
        split at hcontent
        · exact absurd hcontent (by simp)
        · split_ifs at hcontent
          split at hcontent
          · exact absurd hcontent (by simp)
          · rename_i hdecrypt
            obtain rfl := Content.plaintext.inj hcontent
            exact hsize _ _ hdecrypt

end

/-- What the loop is waiting for. -/
theorem op_cases (d : Download) (hexit : d.exit = none) :
    (∃ request rid, d.op a = .sendAsync request rid ∧
      (d.retrying = none → d.next < chunkCount a)) ∨
    (d.op a = .recvNext ∧ d.retrying = none) := by
  unfold Download.op
  cases hretry : d.retrying with
  | some i =>
    simp only [hexit]
    exact .inl ⟨_, _, rfl, fun h => absurd h (by simp)⟩
  | none =>
    simp only [hexit]
    split_ifs with hroom
    · exact .inl ⟨_, _, rfl, fun _ => hroom.1⟩
    · exact .inr ⟨rfl, trivial⟩

theorem Accounted.step (h : Accounted T a happened d) (hcount : chunkCount a ≤ MAX_CHUNKS)
    (hsize : ∀ envelope plaintext, a.decrypt envelope = some plaintext → plaintext.length < 2 ^ 63)
    (answer : Answer)
    (hmono : ∀ i plaintext, happened i plaintext → happened' i plaintext)
    (hnew : ∀ i plaintext, Delivered T a i plaintext d answer → happened' i plaintext) :
    Accounted T a happened' ((getChunked T a).step d answer) := by
  have hkept := h.mono hmono
  cases hexit : d.exit with
  | some exit =>
    have hstop : (getChunked T a).op d = .stop := by simp [getChunked, Download.op, hexit]
    rwa [Command.step_stop hstop]
  | none =>
    simp only [Accounted, hexit] at hkept
    obtain ⟨done, plain, htracked, hdone⟩ := hkept
    have hsame : Accounted T a happened' d := by
      simp only [Accounted, hexit]
      exact ⟨done, plain, htracked, hdone⟩
    rcases op_cases (a := a) d hexit with ⟨request, rid, hop, hnext⟩ | ⟨hop, hretry⟩
    · have hop' : (getChunked T a).op d = .sendAsync request rid := hop
      cases answer with
      | sent ok =>
        simp only [Command.step, hop']
        exact htracked.afterSend hexit hnext hdone ok
      | received reply => simpa only [Command.step, hop'] using hsame
    · have hop' : (getChunked T a).op d = .recvNext := hop
      cases answer with
      | sent ok => simpa only [Command.step, hop'] using hsame
      | received reply =>
        simp only [Command.step, hop']
        exact htracked.afterRecv hexit hretry hcount hsize hdone hnew

end Invariant

/-! ## Every run -/

/-- The output file is created: it is not there, or is to be overwritten, and can be opened. -/
def Created (a : DownloadArgs) : Prop :=
  (a.forceOverwrite = true ∨ a.disk.previous = none) ∧ a.disk.opens = true

variable {T : Toolkit} {a : DownloadArgs}

theorem Created.start_eq (h : Created a) : start T a =
    if a.disk.truncates = false then
      { attempts := List.replicate (chunkCount a) 0, file := none, exit := some .failed }
    else ({ attempts := List.replicate (chunkCount a) 0
            file := some (List.replicate (total a) 0) } : Download).advance T a := by
  obtain ⟨habsent, hopens⟩ := h
  have hcheck : ¬(a.forceOverwrite = false ∧ a.disk.previous.isSome = true) := by
    rintro ⟨hforce, hprevious⟩
    rcases habsent with h | h
    · rw [hforce] at h
      exact absurd h (by simp)
    · rw [h] at hprevious
      exact absurd hprevious (by simp)
  unfold start
  rw [if_neg hcheck, if_neg (by simp [hopens])]

/-- Before the first request nothing is done. -/
theorem tracked_start : Tracked a { attempts := List.replicate (chunkCount a) 0
                                    file := some (List.replicate (total a) 0) } [] fun _ => [] :=
  ⟨rfl, by simp, by simp, Nat.zero_le _, by simp,
    fun _ => ⟨_, rfl, List.length_replicate, by simp⟩⟩

theorem accounted_start {happened : Nat → Bytes → Prop} (hcreated : Created a)
    (hcount : chunkCount a ≤ MAX_CHUNKS) : Accounted T a happened (start T a) := by
  rw [hcreated.start_eq]
  split_ifs with htruncate
  · exact rfl
  · exact tracked_start.advance rfl hcount (by simp)

theorem accounted_run (hcreated : Created a) (hcount : chunkCount a ≤ MAX_CHUNKS)
    (hsize : ∀ envelope plaintext, a.decrypt envelope = some plaintext → plaintext.length < 2 ^ 63)
    (answers : List Answer) :
    Accounted T a (fun i plaintext => Happened (getChunked T a).step (Delivered T a i plaintext)
      (start T a) answers) (run (getChunked T a).step (start T a) answers) := by
  induction answers using List.reverseRecOn with
  | nil => exact accounted_start hcreated hcount
  | append_singleton answers answer ih =>
    rw [run_append, run_cons, run_nil]
    exact ih.step hcount hsize answer (fun i plaintext h => h.append [answer])
      fun i plaintext h => Happened.last h

end Cli.Download

namespace Cli

open Infra Util Wire Net Download

/-- **Download integrity.** Whatever the node answers: if `get_chunked` succeeds, the file has the
declared size and hash, and the plaintext of every chunk, which came out of a reply to a request for
that chunk, stands at its place; if it fails after it created the file, there is no file. -/
theorem download_integrity (T : Toolkit) (a : DownloadArgs) (payload : Bytes) (sessionCap : UInt64)
    (haccepted : decodeManifestPayload T payload sessionCap = some a.manifest)
    (hsize : ∀ envelope plaintext, a.decrypt envelope = some plaintext → plaintext.length < 2 ^ 63)
    (hcreated : Created a) (answers : List Answer) :
    let d := run (getChunked T a).step (start T a) answers
    (d.exit = some .ok → ∃ content, d.file = some content ∧
      content.length = a.manifest.totalPlaintextBytes.toNat ∧
      T.sha3_256 content = a.manifest.plaintextSha3 ∧
      ∀ i < a.manifest.segmentCount.toNat, ∃ plaintext,
        Happened (getChunked T a).step (Delivered T a i plaintext) (start T a) answers ∧
        sliceAt content (i * a.manifest.chunkSizeBytes.toNat) plaintext.length = plaintext) ∧
    (∀ exit, d.exit = some exit → exit ≠ .ok → d.file = none) := by
  intro d
  have hcount : chunkCount a ≤ MAX_CHUNKS := segmentCount_le_of_decode haccepted
  have haccounted := accounted_run (T := T) hcreated hcount hsize answers
  constructor
  · intro hok
    simp only [Accounted, show (run (getChunked T a).step (start T a) answers).exit =
      some .ok from hok]
      at haccounted
    exact haccounted
  · intro exit hexit hne
    simp only [Accounted, show (run (getChunked T a).step (start T a) answers).exit =
      some exit from hexit]
      at haccounted
    cases exit with
    | ok => exact absurd rfl hne
    | failed => exact haccounted
    | threw => exact haccounted

section Sample

open Cli.Sample

/-- A whole chunk, too long to be computed with. -/
@[irreducible] def firstChunk : Bytes := List.replicate 1048576 7

theorem length_firstChunk : firstChunk.length = 1048576 := by
  rw [firstChunk, List.length_replicate]

/-- A file of two chunks, the second one of three bytes. -/
def sampleManifest : ManifestData where
  chunkSizeBytes := 1048576
  segmentCount := 2
  totalPlaintextBytes := 1048579
  plaintextSha3 := FixedBytes.fill 32 7
  chunkHashes := List.replicate 32 7 ++ List.replicate 32 8
  filename := []

def sampleDownload : DownloadArgs where
  ns := FixedBytes.fill 32 1
  manifest := sampleManifest
  forceOverwrite := false
  disk := {}
  decrypt envelope :=
    if envelope = [0] then some firstChunk else if envelope = [1] then some [1, 2, 3] else none

def chunkReply (requestId : UInt32) (envelope : Bytes) : Message :=
  let blob : FbBlob := { signerHint := none, data := some (CDAT_MAGIC.toList ++ envelope), ttl := 0
                         timestamp := 0, signature := none }
  ⟨MsgType.ReadResponse, 1 :: Wire.Sample.finishBlob blob, requestId⟩

/-- The second chunk comes first, and the first one has to be asked for again. -/
def firstAnswers : List Answer :=
  [.sent true, .sent true, .received (chunkReply 2 [1]), .received (some ⟨63, [], 1⟩), .sent true]

def sampleAnswers : List Answer := firstAnswers ++ [.received (chunkReply 3 [0])]

/-- The state before the last reply. -/
def beforeLast : Download :=
  { rid := 4, ridToChunkIndex := [(3, 0)], attempts := [1, 0], next := 2, completed := 1
    file := some (pwrite 0 (List.replicate 1048579 0) 1048576 [1, 2, 3]) }

theorem pwrite_two (first last : Bytes) :
    pwrite 0 (pwrite 0 (List.replicate (first.length + last.length) 0) first.length last) 0 first =
      first ++ last := by
  simp [pwrite]

theorem hash_sampleFile : toolkit.sha3_256 (firstChunk ++ [1, 2, 3]) = FixedBytes.fill 32 7 := by
  apply Subtype.ext
  show (firstChunk ++ [1, 2, 3] ++ List.replicate 32 0).take 32 = List.replicate 32 7
  rw [List.append_assoc, List.take_append_of_le_length (by rw [length_firstChunk]; decide),
    firstChunk, List.take_replicate, Nat.min_eq_left (by decide)]

theorem sampleDownload_ok :
    (run (getChunked toolkit sampleDownload).step (start toolkit sampleDownload)
      sampleAnswers).exit = some .ok := by
  have hbefore : run (getChunked toolkit sampleDownload).step (start toolkit sampleDownload)
      firstAnswers = beforeLast := rfl
  have hop : op sampleDownload beforeLast = .recvNext := rfl
  have hlookup : beforeLast.ridToChunkIndex.lookup (chunkReply 3 [0]).requestId = some 0 := rfl
  have hcontent : content toolkit sampleDownload (chunkReply 3 [0]) = .plaintext firstChunk := rfl
  have hfile := pwrite_two firstChunk [1, 2, 3]
  rw [length_firstChunk] at hfile
  rw [sampleAnswers, run_append, hbefore, run_cons, run_nil]
  simp only [Command.step, getChunked, hop, afterRecv, hlookup, hcontent]
  rw [writeChunk, if_neg (by rw [length_firstChunk]; decide), if_neg (by decide), advance,
    if_neg (by decide), finish, if_pos]
  exact ⟨rfl, congrArg some ((congrArg _ hfile).trans hash_sampleFile)⟩

theorem download_integrity_sample :
    ∃ content, (run (getChunked toolkit sampleDownload).step (start toolkit sampleDownload)
        sampleAnswers).file = some content ∧ content.length = 1048579 ∧
      ∀ i < 2, ∃ plaintext, Happened (getChunked toolkit sampleDownload).step
          (Delivered toolkit sampleDownload i plaintext) (start toolkit sampleDownload)
          sampleAnswers ∧
        sliceAt content (i * 1048576) plaintext.length = plaintext := by
  have haccepted :
    decodeManifestPayload toolkit (encodeManifestPayload toolkit sampleManifest) 4194304 =
      some sampleDownload.manifest := by decide
  have hsize : ∀ envelope plaintext, sampleDownload.decrypt envelope = some plaintext →
      plaintext.length < 2 ^ 63 := by
    intro envelope plaintext h
    simp only [sampleDownload] at h
    split_ifs at h
    · rw [← Option.some.inj h, length_firstChunk]
      decide
    · rw [← Option.some.inj h]
      decide
  obtain ⟨content, hfile, hlength, -, hchunks⟩ := (download_integrity toolkit sampleDownload
    _ 4194304 haccepted hsize ⟨.inr rfl, rfl⟩ sampleAnswers).1 sampleDownload_ok
  exact ⟨content, hfile, hlength, hchunks⟩

end Sample

end Cli
