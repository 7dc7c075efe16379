import Chromatin.Infra.Run
import Chromatin.Peer.BlobPushManager
import Chromatin.Wire.Sample

/-!
# Fetches and their answers

The entry of a fetch is erased under the key of the blob that was received. An answer without a
blob, with bytes that do not decode or with another blob leaves the entry in place, until the
connection is closed; so does an exception. As long as it is there, notices of the blob by others
are ignored.

* `fetch_answers_iff` — the entry of a fetch is gone when its answer is handled exactly if it was
  gone before, or the answer is the blob that was asked for and is handled without an exception
* `notify_fetches_iff` — when a notice makes the node fetch
-/

namespace Peer

open Infra Util Wire Storage Engine

/-- Namespace and blob that the coroutine of an answer holds. -/
def ResponsePoint.opened : ResponsePoint → Option (Hash32 × BlobData)
  | .ingesting ns blob _ | .posting ns blob _ => some (ns, blob)
  | .spawned | .finished => none

namespace BlobPushManager

variable {P : Primitives} {m : BlobPushManager} {e : PushEvent} {i : Nat} {h : ResponseHandler}

/-! ## What a step does -/

/-- How far the coroutine of an answer gets. -/
def nextPoint (P : Primitives) (m : BlobPushManager) (h : ResponseHandler) : ResponsePoint :=
  match h.point with
  | .spawned =>
    match openResponse P h.payload with
    | none => .finished
    | some (ns, blob) => .ingesting ns blob m.node.tasks.length
  | .ingesting ns blob call =>
    match m.node.tasks[call]?.map Task.pc with
    | some (.done result) => .posting ns blob result
    | _ => .ingesting ns blob call
  | .posting _ _ _ | .finished => .finished

/-- How far an answer is handled after a step. -/
def move (P : Primitives) (m : BlobPushManager) (i : Nat) (h : ResponseHandler) :
    PushEvent → ResponsePoint
  | .resume j _ => if i = j then m.nextPoint P h else h.point
  | .thrown j => if i = j then .finished else h.point
  | _ => h.point

/-- The answer that arrives in a step. -/
def arrived : PushEvent → List ResponseHandler
  | .blobFetchResponse conn payload answers =>
    [{ conn, payload, answers, point := if isFound payload then .spawned else .finished }]
  | _ => []

theorem onBlobIngested_frame (now : UInt64) (ns hash : Hash32) (seqNum : UInt64) (blobSize : UInt32)
    (tombstone : Bool) (expiryTime : UInt64) (source : ConnId) :
    (m.onBlobIngested now ns hash seqNum blobSize tombstone expiryTime source).responses =
      m.responses ∧
      (m.onBlobIngested now ns hash seqNum blobSize tombstone expiryTime source).pendingFetches =
        m.pendingFetches := by
  unfold onBlobIngested
  split_ifs <;> exact ⟨rfl, rfl⟩

theorem finishResponse_frame (now : UInt64) (conn : ConnId) (ns : Hash32) (blob : BlobData)
    (result : IngestResult) :
    (m.finishResponse P now conn ns blob result).responses = m.responses ∧
      (m.finishResponse P now conn ns blob result).pendingFetches =
        m.pendingFetches.erase (makeBlobKey ns (contentHash P blob)) := by
  unfold finishResponse
  cases result with
  | rejection error detail => exact ⟨rfl, rfl⟩
  | success ack =>
    dsimp only
    split_ifs
    · exact onBlobIngested_frame ..
    · exact ⟨rfl, rfl⟩

theorem getElem?_setPoint (j : Nat) (point : ResponsePoint) (hj : m.responses[j]? = some h) :
    (m.setPoint j point).responses[i]? = if i = j then some { h with point }
    else m.responses[i]? := by
  simp only [setPoint, List.getElem?_modify]
  by_cases hij : i = j
  · subst hij; simp [hj]
  · simp [hij, Ne.symm hij]

theorem getElem?_resumeResponse (j : Nat) (now : UInt64) (hj : m.responses[j]? = some h) :
    (m.resumeResponse P j now h).responses[i]? =
      if i = j then some { h with point := m.nextPoint P h } else m.responses[i]? := by
  have hstays (point : ResponsePoint) (hpoint : h.point = point) :
      m.responses[i]? = if i = j then some { h with point } else m.responses[i]? := by
    subst hpoint
    split_ifs with hij
    · rw [hij, hj]
    · rfl
  unfold resumeResponse nextPoint
  cases hpoint : h.point with
  | spawned =>
    dsimp only
    cases openResponse P h.payload with
    | none => exact getElem?_setPoint j _ hj
    | some opened => exact getElem?_setPoint (m := { m with node := _ }) j _ hj
  | ingesting ns blob call =>
    dsimp only
    cases m.node.tasks[call]?.map Task.pc with
    | none => exact hstays _ hpoint
    | some pc =>
      cases pc with
      | done result => exact getElem?_setPoint j _ hj
      | _ => exact hstays _ hpoint
  | posting ns blob result =>
    have hframe := (finishResponse_frame (P := P) (m := m) now h.conn ns blob result).1
    have hset := getElem?_setPoint (i := i) j .finished ((congrArg (·[j]?) hframe).trans hj)
    rw [hframe] at hset
    exact hset
  | finished => exact hstays _ hpoint

theorem onBlobNotify_responses (now : UInt64) (conn : ConnId) (payload : Bytes) :
    (m.onBlobNotify now conn payload).responses = m.responses := by
  unfold onBlobNotify
  split_ifs
  · rfl
  · split
    · split_ifs <;> rfl
    · rfl

/-- **What a step does to the answers.** -/
theorem responses_step (P : Primitives) (m : BlobPushManager) (e : PushEvent) :
    (m.step P e).responses =
      (m.responses.mapIdx fun i h => { h with point := m.move P i h e }) ++ arrived e := by
  have hsame : (m.responses.mapIdx fun _ h => { h with point := h.point }) = m.responses :=
    List.ext_getElem? fun i => by simp
  cases e with
  | resume j now =>
    refine List.ext_getElem? fun i => ?_
    simp only [step, move, arrived, List.append_nil, List.getElem?_mapIdx]
    cases hj : m.responses[j]? with
    | none =>
      by_cases hij : i = j
      · subst hij; simp [hj]
      · simp [hij]
    | some h =>
      refine (getElem?_resumeResponse j now hj).trans ?_
      by_cases hij : i = j
      · subst hij; simp [hj]
      · simp [hij]
  | thrown j =>
    refine List.ext_getElem? fun i => ?_
    simp only [step, setPoint, move, arrived, List.append_nil, List.getElem?_mapIdx,
      List.getElem?_modify]
    by_cases hij : i = j
    · simp [hij]
    · simp [hij, Ne.symm hij]
  | blobNotify now conn payload =>
    simp only [step, onBlobNotify_responses, move, arrived, hsame, List.append_nil]
  | blobFetch now conn payload =>
    simp only [step, handleBlobFetch, move, arrived, hsame, List.append_nil]
    split_ifs
    · rfl
    · split <;> rfl
  | blobIngested now ns hash seqNum blobSize tombstone expiryTime source =>
    simp only [step, move, arrived, hsame, List.append_nil, (onBlobIngested_frame ..).1]
  | blobFetchResponse conn payload answers =>
    simp only [step, handleBlobFetchResponse, move, arrived, hsame]
  | _ => simp only [step, move, arrived, hsame, List.append_nil]

/-- An answer was there before, or arrives in the step. -/
theorem response_of_step (hi : (m.step P e).responses[i]? = some h) :
    (∃ point, m.responses[i]? = some { h with point } ∧ h.point = m.move P i { h with point } e) ∨
      (m.responses[i]? = none ∧ h ∈ arrived e) := by
  rw [responses_step] at hi
  rcases Nat.lt_or_ge i m.responses.length with hlt | hge
  · rw [List.getElem?_append_left (by simpa using hlt)] at hi
    simp only [List.getElem?_mapIdx, Option.map_eq_some_iff] at hi
    obtain ⟨h', hh', rfl⟩ := hi
    exact .inl ⟨h'.point, hh', rfl⟩
  · rw [List.getElem?_append_right (by simpa using hge)] at hi
    exact .inr ⟨List.getElem?_eq_none hge, List.mem_of_getElem? hi⟩

/-! ## The key of an answer -/

/-- The key under which an answer is looked up: that of the blob in it. -/
def fetchedKey (P : Primitives) (payload : Bytes) : Option (FixedBytes 64) :=
  if isFound payload then
    (openResponse P payload).map fun opened => makeBlobKey opened.1 (contentHash P opened.2)
  else none

/-- The coroutines that are still running have found a blob in their answer, and hold it once they
have decoded it. -/
def HoldsAnswer (P : Primitives) (h : ResponseHandler) : Prop :=
  (h.point ≠ .finished → isFound h.payload = true) ∧
    ∀ opened, h.point.opened = some opened → openResponse P h.payload = some opened

def HoldAnswers (P : Primitives) (m : BlobPushManager) : Prop := ∀ h ∈ m.responses, HoldsAnswer P h

theorem HoldsAnswer.nextPoint (hh : HoldsAnswer P h) :
    HoldsAnswer P { h with point := m.nextPoint P h } := by
  obtain ⟨hfound, hopened⟩ := hh
  unfold BlobPushManager.nextPoint
  cases hpoint : h.point with
  | spawned =>
    have hfound := hfound (by simp [hpoint])
    dsimp only
    cases hopen : openResponse P h.payload with
    | none => exact ⟨fun hne => absurd rfl hne, fun opened ho =>
        absurd ho (by simp [ResponsePoint.opened])⟩
    | some opened => exact ⟨fun _ => hfound, fun opened' ho => hopen.trans ho⟩
  | ingesting ns blob call =>
    have hfound := hfound (by simp [hpoint])
    have hopen := hopened (ns, blob) (by simp [hpoint, ResponsePoint.opened])
    dsimp only
    split
    · exact ⟨fun _ => hfound, fun opened ho => hopen.trans ho⟩
    · exact ⟨fun _ => hfound, fun opened ho => hopen.trans ho⟩
  | posting ns blob result =>
    exact ⟨fun hne => absurd rfl hne, fun opened ho => absurd ho (by simp [ResponsePoint.opened])⟩
  | finished =>
    exact ⟨fun hne => absurd rfl hne, fun opened ho => absurd ho (by simp [ResponsePoint.opened])⟩

theorem HoldAnswers.step (hm : HoldAnswers P m) (e : PushEvent) : HoldAnswers P (m.step P e) := by
  intro h hmem
  obtain ⟨i, hi⟩ := List.getElem?_of_mem hmem
  have hfinished : HoldsAnswer P { h with point := .finished } :=
    ⟨fun hne => absurd rfl hne, fun opened ho => absurd ho (by simp [ResponsePoint.opened])⟩
  rcases response_of_step hi with ⟨point, hold, hmove⟩ | ⟨-, harrived⟩
  · have hbefore := hm _ (List.mem_of_getElem? hold)
    rw [show h = { h with point := m.move P i { h with point } e } from hmove ▸ rfl]
    cases e with
    | resume j now =>
      simp only [move]
      split_ifs
      · exact hbefore.nextPoint
      · exact hbefore
    | thrown j =>
      simp only [move]
      split_ifs
      · exact hfinished
      · exact hbefore
    | _ => exact hbefore
  · cases e with
    | blobFetchResponse conn payload answers =>
      obtain rfl := List.mem_singleton.mp harrived
      dsimp only [HoldsAnswer]
      split_ifs with hfound
      · exact ⟨fun _ => hfound, fun opened ho => absurd ho (by simp [ResponsePoint.opened])⟩
      · exact ⟨fun hne => absurd rfl hne, fun opened ho =>
          absurd ho (by simp [ResponsePoint.opened])⟩
    | _ => exact absurd harrived List.not_mem_nil

/-! ## When an answer is handled -/

/-- The handling of answer `i` ends with the step. -/
def Finishes (P : Primitives) (m : BlobPushManager) (e : PushEvent) (i : Nat)
    (h : ResponseHandler) : Prop :=
  (m.step P e).responses[i]? = some h ∧ h.point = .finished ∧
    ∀ h', m.responses[i]? = some h' → h'.point ≠ .finished

/-- The answer is the blob that was asked for, and no exception is thrown. -/
def Releases (P : Primitives) (e : PushEvent) (h : ResponseHandler) : Prop :=
  fetchedKey P h.payload = some h.answers ∧ ∀ i, e ≠ .thrown i

theorem fetchedKey_of_opened (hh : HoldsAnswer P h) {ns : Hash32} {blob : BlobData}
    (hopened : h.point.opened = some (ns, blob)) :
    fetchedKey P h.payload = some (makeBlobKey ns (contentHash P blob)) := by
  have hfound := hh.1 (by rintro hfinished; simp [hfinished, ResponsePoint.opened] at hopened)
  rw [fetchedKey, if_pos hfound, hh.2 _ hopened, Option.map_some]

/-- The last part of the coroutine erases the key of its blob; without a blob nothing is erased. -/
theorem pendingFetches_resumeResponse {now : UInt64} (hh : HoldsAnswer P h)
    (hrunning : h.point ≠ .finished)
    (hlast : m.nextPoint P h = .finished) (answers : FixedBytes 64) :
    (m.resumeResponse P i now h).pendingFetches[answers]? =
      if fetchedKey P h.payload = some answers then none else m.pendingFetches[answers]? := by
  unfold nextPoint at hlast
  unfold resumeResponse
  cases hpoint : h.point with
  | spawned =>
    simp only [hpoint] at hlast
    cases hopen : openResponse P h.payload with
    | none => simp [fetchedKey, hopen, setPoint]
    | some opened => simp [hopen] at hlast
  | ingesting ns blob call =>
    simp only [hpoint] at hlast
    split at hlast <;> exact absurd hlast (by simp)
  | posting ns blob result =>
    rw [fetchedKey_of_opened hh (by rw [hpoint]; rfl)]
    show (m.finishResponse P now h.conn ns blob result).pendingFetches[answers]? = _
    rw [(finishResponse_frame now h.conn ns blob result).2, getElem?_erase_eq]
    simp only [Option.some.injEq]
  | finished => exact absurd hpoint hrunning

/-- **What the end of the handling does to the table.** -/
theorem pendingFetches_of_finishes (hm : HoldAnswers P m) (hfinishes : Finishes P m e i h) :
    (Releases P e h → (m.step P e).pendingFetches[h.answers]? = none) ∧
      (¬ Releases P e h → (m.step P e).pendingFetches[h.answers]? =
          m.pendingFetches[h.answers]?) := by
  obtain ⟨hi, hfinished, hbefore⟩ := hfinishes
  rcases response_of_step hi with ⟨point, hold, hmove⟩ | ⟨-, harrived⟩
  · have hrunning : point ≠ .finished := hbefore _ hold
    have hholds := hm _ (List.mem_of_getElem? hold)
    rw [hfinished] at hmove
    cases e with
    | resume j now =>
      simp only [move] at hmove
      split_ifs at hmove with hij
      · subst hij
        have hstep : m.step P (.resume i now) = m.resumeResponse P i now { h with point } := by
          simp only [step, hold]
        rw [hstep]
        have hpending :=
          @pendingFetches_resumeResponse _ _ i _ now hholds hrunning hmove.symm h.answers
        refine ⟨fun hreleases => hpending.trans (if_pos hreleases.1), fun hnot =>
          hpending.trans (if_neg ?_)⟩
        exact fun hkey => hnot ⟨hkey, fun j => by simp⟩
      · exact absurd hmove.symm hrunning
    | thrown j =>
      refine ⟨fun hreleases => absurd rfl (hreleases.2 j), fun _ => rfl⟩
    | _ => exact absurd hmove.symm hrunning
  · cases e with
    | blobFetchResponse conn payload answers =>
      obtain rfl := List.mem_singleton.mp harrived
      refine ⟨fun hreleases => ?_, fun _ => rfl⟩
      have hfound : isFound payload = false := by
        by_contra hfound
        simp [hfound] at hfinished
      simp [Releases, fetchedKey, hfound] at hreleases
    | _ => exact absurd harrived List.not_mem_nil

/-- **The entry of a fetch is gone when its answer is handled, exactly if** it was gone before, or
the answer is the blob that was asked for and is handled without an exception. -/
theorem fetch_answers_iff (P : Primitives) (events : List PushEvent) :
    AllSteps (step P) (fun m e => ∀ i h, Finishes P m e i h →
        (m.step P e).pendingFetches[h.answers]? ≠ some h.conn) {} events ↔
      AllSteps (step P) (fun m e => ∀ i h, Finishes P m e i h →
        m.pendingFetches[h.answers]? = some h.conn → Releases P e h) {} events := by
  refine allSteps_congr (I := HoldAnswers P) ?_ (fun m e hm _ => hm.step e)
    (by intro h hmem; simp at hmem)
  intro m e hm
  refine forall_congr' fun i => forall_congr' fun h => forall_congr' fun hfinishes => ?_
  obtain ⟨hreleased, hkept⟩ := pendingFetches_of_finishes hm hfinishes
  by_cases hreleases : Releases P e h
  · simp [hreleased hreleases, hreleases]
  · simp [hkept hreleases, hreleases]

/-- A notice by a connected peer of a blob that the node does not have makes it fetch the blob,
exactly if no fetch of the blob is pending. -/
theorem notify_fetches_iff {now : UInt64} {conn : ConnId} {payload : Bytes} {peer : PushPeer}
    {ns hash : Hash32}
    (hlength : payload.length = 77)
    (hpeer : m.findPeer conn = some peer) (hidle : peer.syncing = false)
    (hextract : extractNamespaceHash payload = some (ns, hash))
    (hmissing : m.hasFresh now ns hash = false) :
    (m.step P (.blobNotify now conn payload)).sent =
        m.sent ++ [(conn, .blobFetch (encodeNamespaceHash ns hash))] ↔
      m.pendingFetches[makeBlobKey ns hash]? = none := by
  simp only [step, onBlobNotify, hlength, hpeer, hextract, hidle, hmissing, ne_eq,
    not_true_eq_false, if_false, Bool.false_eq_true, Std.ExtTreeMap.contains_eq_isSome_getElem?]
  cases m.pendingFetches[makeBlobKey ns hash]? with
  | none => simp
  | some bound => simp

section Sample

open Sample

/-- A notice of a blob. -/
def notice : Bytes := encodeBlobRef (owned 1) (owned 2) 1 10 false

/-- Two peers are connected; the first one notifies the node of a blob and answers the fetch with
not found. -/
def notFoundRun : List PushEvent :=
  [.peers [{ conn := 1 }, { conn := 2 }], .blobNotify 0 1 notice,
    .blobFetchResponse 1 notFoundResponse (makeBlobKey (owned 1) (owned 2))]

set_option maxRecDepth 20000 in
/-- **The entry stays**, and the notice of the second peer is ignored. -/
theorem fetch_not_found_kept :
    let m := run (step primitives) {} notFoundRun
    m.responses = [⟨1, notFoundResponse, makeBlobKey (owned 1) (owned 2), .finished⟩] ∧
      m.pendingFetches[makeBlobKey (owned 1) (owned 2)]? = some 1 ∧
      (m.node.tables.getBlob (owned 1) (owned 2)) = none ∧
      (m.step primitives (.blobNotify 0 2 notice)).sent = m.sent := by
  refine ⟨by decide, by decide, by decide, by decide⟩

end Sample

end BlobPushManager

end Peer
