import Chromatin.Properties.EngineCalls
import Mathlib.Data.Set.Function

/-!
# A BOMB and the tombstones it stands for

A BOMB deletes its targets when it is committed, as a tombstone for each of them would. Unlike
them it leaves no mark, so it does not keep a target out that arrives later.

* `Agree` relates two tables that `ingest` cannot tell apart by a regular blob that is none of the
  targets.
* `bomb_equivalent`: after a BOMB and after the tombstones the same regular blobs are stored, now
  and after any further regular blobs that are none of the targets.
* `bomb_forgets`: a target that arrives later is stored after the BOMB, not after the tombstone.
-/

namespace Engine

open Infra Util Wire Storage

variable {P : Primitives} {env : Env} {ns : Hash32} {targets special : Set Hash32}
  {t t' : Tables} {blob : BlobData}

/-! ## Tables that agree -/

/-- The blob is a tombstone or a BOMB and deletes nothing but the targets. -/
def DeletesOnly (targets : Set Hash32) (blob : BlobData) : Prop :=
  isRegular blob = false ∧ ∀ target ∈ targetsOf blob, target ∈ targets

/-- The tables hold the same for the namespace, except for the marks of the targets and for what
is stored under the `special` hashes, which is harmless on either side. -/
structure Agree (ns : Hash32) (targets special : Set Hash32) (t t' : Tables) : Prop where
  owners : ∀ hint, t.getOwnerPubkey hint = t'.getOwnerPubkey hint
  blobs : ∀ hash ∉ special, t.getBlob ns hash = t'.getBlob ns hash
  delegations : ∀ hint, t.delegation[makeBlobKey ns hint]? = t'.delegation[makeBlobKey ns hint]?
  marks : ∀ hash ∉ targets, t.hasTombstoneFor ns hash = t'.hasTombstoneFor ns hash
  left : ∀ hash ∈ special, ∀ blob, t.getBlob ns hash = some blob → DeletesOnly targets blob
  right : ∀ hash ∈ special, ∀ blob, t'.getBlob ns hash = some blob → DeletesOnly targets blob

theorem Agree.symm (h : Agree ns targets special t t') : Agree ns targets special t' t where
  owners hint := (h.owners hint).symm
  blobs hash hhash := (h.blobs hash hhash).symm
  delegations hint := (h.delegations hint).symm
  marks hash hhash := (h.marks hash hhash).symm
  left := h.right
  right := h.left

theorem agree_refl (h : ∀ hash ∈ special, t.getBlob ns hash = none) :
    Agree ns targets special t t where
  owners _ := rfl
  blobs _ _ := rfl
  delegations _ := rfl
  marks _ _ := rfl
  left hash hhash blob hblob := by simp [h hash hhash] at hblob
  right hash hhash blob hblob := by simp [h hash hhash] at hblob

theorem isDelegation_of_irregular (h : isRegular blob = false) :
    isDelegation blob.data = false := by
  simp only [isRegular, Bool.and_eq_false_iff, Bool.not_eq_false'] at h
  rcases h with htomb | hbomb
  · exact isDelegation_of_isTombstone htomb
  · exact isDelegation_of_isBomb hbomb

theorem target_of_deletesOnly (h : DeletesOnly targets blob)
    (htomb : isTombstone blob.data = true) :
    extractTombstoneTarget blob.data ∈ targets :=
  h.2 _ (by simp [targetsOf, htomb])

/-- The regular blobs of tables that agree are the same. -/
theorem Agree.regular (h : Agree ns targets special t t') (hash : Hash32)
    (hregular : isRegular blob = true) :
    t.getBlob ns hash = some blob ↔ t'.getBlob ns hash = some blob := by
  by_cases hspecial : hash ∈ special
  · constructor
    · intro hblob
      rw [(h.left hash hspecial blob hblob).1] at hregular
      exact absurd hregular Bool.false_ne_true
    · intro hblob
      rw [(h.right hash hspecial blob hblob).1] at hregular
      exact absurd hregular Bool.false_ne_true
  · rw [h.blobs hash hspecial]

theorem isRegular_of_isDelegation (h : isDelegation blob.data = true) : isRegular blob = true := by
  by_contra hirregular
  rw [isDelegation_of_irregular (Bool.eq_false_of_not_eq_true hirregular)] at h
  exact Bool.false_ne_true h

variable (henv : Unlimited env ns) (hregular : isRegular blob = true)
  (hhash : contentHash P blob ∉ special) (htarget : contentHash P blob ∉ targets)

section

variable (h : Agree ns targets special t t')

include h

theorem Agree.getDelegatePubkeyByHint (hint : Hash32) :
    t.getDelegatePubkeyByHint ns hint = t'.getDelegatePubkeyByHint ns hint := by
  apply Option.ext
  intro pubkey
  simp only [getDelegatePubkeyByHint_eq_some, h.delegations hint]
  constructor
  · rintro ⟨hash, delegation, hindex, hblob, hshape, hkey⟩
    have hblob' := (h.regular hash (isRegular_of_isDelegation hshape)).mp hblob
    exact ⟨hash, delegation, hindex, hblob', hshape, hkey⟩
  · rintro ⟨hash, delegation, hindex, hblob, hshape, hkey⟩
    have hblob' := (h.regular hash (isRegular_of_isDelegation hshape)).mpr hblob
    exact ⟨hash, delegation, hindex, hblob', hshape, hkey⟩

/-! ## Deleting -/

/-- Deleting the same blob on both sides. -/
theorem Agree.removeBlob (hash : Hash32) (blob : BlobData) :
    Agree ns targets special (t.removeBlob P ns hash blob) (t'.removeBlob P ns hash blob) where
  owners := h.owners
  blobs other hother := by rw [getBlob_removeBlob, getBlob_removeBlob, h.blobs other hother]
  delegations hint := by
    simp only [Tables.removeBlob]
    split_ifs
    · simp only [getElem?_erase_eq, h.delegations hint]
    · exact h.delegations hint
  marks other hother := by
    rw [hasTombstoneFor_removeBlob, hasTombstoneFor_removeBlob, h.marks other hother]
  left other hother b hb := by
    rw [getBlob_removeBlob] at hb
    split_ifs at hb
    exact h.left other hother b hb
  right other hother b hb := by
    rw [getBlob_removeBlob] at hb
    split_ifs at hb
    exact h.right other hother b hb

/-- Deleting what is stored under a special hash, on one side. -/
theorem Agree.delete_special {hash : Hash32}
    (hspecial : hash ∈ special) :
    Agree ns targets special (deleteBlobData P t ns hash).1 t' := by
  unfold deleteBlobData
  cases hblob : t.getBlob ns hash with
  | none => exact h
  | some blob =>
    have hdeletes := h.left hash hspecial blob hblob
    refine ⟨h.owners, fun other hother => ?_, fun hint => ?_, fun other hother => ?_,
      fun other hother b hb => ?_, h.right⟩
    · have hne : hash ≠ other := fun heq => hother (heq ▸ hspecial)
      rw [getBlob_removeBlob, if_neg fun hkey => hne hkey.2, h.blobs other hother]
    · simpa [Tables.removeBlob, isDelegation_of_irregular hdeletes.1] using h.delegations hint
    · rw [hasTombstoneFor_removeBlob, h.marks other hother]
      by_cases htomb : isTombstone blob.data = true
      · have hne : extractTombstoneTarget blob.data ≠ other :=
          fun heq => hother (heq ▸ target_of_deletesOnly hdeletes htomb)
        simp [hne]
      · simp [htomb]
    · rw [getBlob_removeBlob] at hb
      split_ifs at hb
      exact h.left other hother b hb

theorem Agree.delete (hash : Hash32) :
    Agree ns targets special (deleteBlobData P t ns hash).1 (deleteBlobData P t' ns hash).1 := by
  by_cases hspecial : hash ∈ special
  · exact (h.delete_special hspecial).symm.delete_special hspecial |>.symm
  · have hblobs := h.blobs hash hspecial
    unfold deleteBlobData
    rw [hblobs]
    cases t'.getBlob ns hash with
    | none => exact h
    | some blob => exact h.removeBlob hash blob

/-! ## Storing -/

/-- Storing a deleting blob under a special hash, on one side. -/
theorem Agree.insert_special
    (hspecial : contentHash P blob ∈ special) (hdeletes : DeletesOnly targets blob) :
    Agree ns targets special (t.insertBlob P ns blob) t' where
  owners := h.owners
  blobs other hother := by
    have hne : contentHash P blob ≠ other := fun heq => hother (heq ▸ hspecial)
    rw [getBlob_insertBlob, if_neg fun hkey => hne hkey.2, h.blobs other hother]
  delegations hint := by
    simpa [Tables.insertBlob, isDelegation_of_irregular hdeletes.1] using h.delegations hint
  marks other hother := by
    rw [hasTombstoneFor_insertBlob, h.marks other hother]
    by_cases htomb : isTombstone blob.data = true
    · have hne : extractTombstoneTarget blob.data ≠ other :=
        fun heq => hother (heq ▸ target_of_deletesOnly hdeletes htomb)
      simp [hne]
    · simp [htomb]
  left other hother b hb := by
    rw [getBlob_insertBlob] at hb
    split_ifs at hb with hkey
    · exact Option.some.inj hb ▸ hdeletes
    · exact h.left other hother b hb
  right := h.right

include hhash in
/-- Storing the same blob on both sides. -/
theorem Agree.insertBlob :
    Agree ns targets special (t.insertBlob P ns blob) (t'.insertBlob P ns blob) where
  owners := h.owners
  blobs other hother := by rw [getBlob_insertBlob, getBlob_insertBlob, h.blobs other hother]
  delegations hint := by
    simp only [Tables.insertBlob]
    split_ifs
    · simp only [getElem?_insert_eq, h.delegations hint]
    · exact h.delegations hint
  marks other hother := by
    rw [hasTombstoneFor_insertBlob, hasTombstoneFor_insertBlob, h.marks other hother]
  left other hother b hb := by
    have hne : contentHash P blob ≠ other := fun heq => hhash (heq ▸ hother)
    rw [getBlob_insertBlob, if_neg fun hkey => hne hkey.2] at hb
    exact h.left other hother b hb
  right other hother b hb := by
    have hne : contentHash P blob ≠ other := fun heq => hhash (heq ▸ hother)
    rw [getBlob_insertBlob, if_neg fun hkey => hne hkey.2] at hb
    exact h.right other hother b hb

theorem Agree.registered :
    Agree ns targets special (registered t blob) (registered t' blob) where
  owners hint := by simp only [getOwnerPubkey_registered, h.owners]
  blobs other hother := by rw [getBlob_registered, getBlob_registered, h.blobs other hother]
  delegations hint := by
    have hsame (t : Tables) : (Engine.registered t blob).delegation = t.delegation := by
      unfold Engine.registered
      split <;> rfl
    rw [hsame, hsame, h.delegations hint]
  marks other hother := by
    rw [hasTombstoneFor_registered, hasTombstoneFor_registered, h.marks other hother]
  left other hother b hb := h.left other hother b (by rwa [getBlob_registered] at hb)
  right other hother b hb := h.right other hother b (by rwa [getBlob_registered] at hb)

/-! ## `ingest` cannot tell them apart -/

include hhash in
theorem Agree.hasBlob : t.hasBlob ns (contentHash P blob) = t'.hasBlob ns (contentHash P blob) := by
  rw [Tables.hasBlob, Tables.hasBlob, h.blobs _ hhash]

theorem Agree.resolveOther (henv : Unlimited env ns) :
    resolveOther P env t ns blob = resolveOther P env t' ns blob := by
  simp only [Engine.resolveOther, resolveDelegate, h.getDelegatePubkeyByHint,
    checkQuota_unlimited henv]

include henv hregular hhash htarget

theorem Agree.ingestCommit :
    Agree ns targets special (ingestCommit P env t ns blob).1
    (ingestCommit P env t' ns blob).1 := by
  have hstore {t t' : Tables} (h : Agree ns targets special t t') :
      Agree ns targets special (ingestStore P env t ns blob).1
          (ingestStore P env t' ns blob).1 := by
    have hblob := h.hasBlob hhash
    simp only [ingestStore, henv.quota, henv.capacity, henv.errors.store, ite_self, storeBlob,
      Bool.false_eq_true, if_false, hblob]
    cases t'.hasBlob ns (contentHash P blob) with
    | true => exact h
    | false => simpa [overQuota] using h.insertBlob hhash
  have hthrows : RegisterThrows env t blob ↔ RegisterThrows env t' blob := by
    simp only [RegisterThrows, h.owners]
  simp only [Engine.ingestCommit, sideEffects_eq, hregular, h.marks _ htarget, Bool.true_and,
    deletedBy_regular hregular, deleteTargets, List.foldl_nil]
  cases t'.hasTombstoneFor ns (contentHash P blob) with
  | true => exact h
  | false =>
    simp only [Bool.false_eq_true, if_false]
    rcases registerPubk_cases env t blob with ⟨hleft, hnone⟩ | ⟨hleft, hsome⟩
    · rcases registerPubk_cases env t' blob with ⟨-, hnone'⟩ | ⟨hright, -⟩
      · simpa only [hnone, hnone'] using h
      · exact absurd (hthrows.mp hleft) hright
    · rcases registerPubk_cases env t' blob with ⟨hright, -⟩ | ⟨-, hsome'⟩
      · exact absurd (hthrows.mpr hright) hleft
      · simpa only [hsome, hsome'] using hstore h.registered

/-- Waits that two runs of the same call can be in: the same one, or both are over. -/
def SameWait (pc pc' : Pc) : Prop :=
  pc = pc' ∨ ∃ result result', pc = .done result ∧ pc' = .done result'

/-- **One turn of a call on tables that agree** leaves tables that agree, and the same wait. -/
theorem Agree.segment (pc : Pc) :
    Agree ns targets special (ingestSegment P env t ns blob pc).1
      (ingestSegment P env t' ns blob pc).1 ∧
    SameWait (ingestSegment P env t ns blob pc).2 (ingestSegment P env t' ns blob pc).2 := by
  cases pc with
  | start =>
    have howner : t.hasOwnerPubkey ns = t'.hasOwnerPubkey ns := by
      simp only [Tables.hasOwnerPubkey, h.owners]
    have hfirst : checkPubkFirst t ns blob = checkPubkFirst t' ns blob := by
      simp only [checkPubkFirst, howner]
    have hchecks : ingestChecks env t ns blob = ingestChecks env t' ns blob := by
      simp only [ingestChecks, hfirst]
    simp only [ingestSegment, hchecks]
    cases ingestChecks env t' ns blob with
    | some result => exact ⟨h, .inl rfl⟩
    | none =>
      refine ⟨h, .inl ?_⟩
      simp only [resolveSigner, h.owners, h.resolveOther henv]
  | ownerHash ownerPk =>
    simp only [ingestSegment, checkQuota_unlimited henv, h.resolveOther henv]
    split_ifs
    · exact ⟨h, .inl rfl⟩
    · exact ⟨h, .inl rfl⟩
  | pubkHash =>
    simp only [ingestSegment, checkQuota_unlimited henv]
    split_ifs
    · exact ⟨h, .inl rfl⟩
    · exact ⟨h, .inl rfl⟩
  | blobHash signer =>
    simp only [ingestSegment, h.hasBlob hhash]
    split_ifs
    · exact ⟨h, .inl rfl⟩
    · exact ⟨h, .inl rfl⟩
  | verify signer =>
    simp only [ingestSegment]
    split_ifs
    · exact ⟨h.ingestCommit henv hregular hhash htarget, .inr ⟨_, _, rfl, rfl⟩⟩
    · exact ⟨h, .inl rfl⟩
  | done result => exact ⟨h, .inl rfl⟩

end

include henv hregular hhash htarget in
theorem Agree.runAlone (n : Nat) :
    ∀ {t t' : Tables} {pc pc' : Pc}, Agree ns targets special t t' → SameWait pc pc' →
      Agree ns targets special (runAlone P env n t { entry := .ingest, ns, blob, pc }).1
        (runAlone P env n t' { entry := .ingest, ns, blob, pc := pc' }).1 := by
  induction n with
  | zero => exact fun h _ => h
  | succ n ih =>
    rintro t t' pc pc' h (rfl | ⟨result, result', rfl, rfl⟩)
    · obtain ⟨hagree, hwait⟩ := h.segment henv hregular hhash htarget pc
      rw [Engine.runAlone, Engine.runAlone]
      exact ih hagree hwait
    · rw [runAlone_done, runAlone_done]
      exact h

include henv hregular hhash htarget in
/-- **A regular blob that is none of the targets** is treated alike on tables that agree. -/
theorem Agree.ingest (h : Agree ns targets special t t') :
    Agree ns targets special (ingest P env t ns blob).1 (ingest P env t' ns blob).1 :=
  Agree.runAlone henv hregular hhash htarget callTurns h (.inl rfl)

theorem Agree.ingestAll {calls : List (Env × BlobData)}
    (hcalls : ∀ call ∈ calls, Unlimited call.1 ns ∧ isRegular call.2 = true ∧
      contentHash P call.2 ∉ special ∧ contentHash P call.2 ∉ targets) :
    ∀ {t t' : Tables}, Agree ns targets special t t' →
      Agree ns targets special (ingestAll P ns t calls) (ingestAll P ns t' calls) := by
  induction calls with
  | nil => exact fun h => h
  | cons call rest ih =>
    intro t t' h
    obtain ⟨henv, hregular, hhash, htarget⟩ := hcalls call List.mem_cons_self
    exact ih (fun c hc => hcalls c (List.mem_cons_of_mem _ hc))
      (h.ingest henv hregular hhash htarget)

/-! ## A BOMB against tombstones -/

/-- Each tombstone that is stored on the right has done its work on the left. -/
def Done (P : Primitives) (ns : Hash32) (tombstones : List (Env × BlobData)) (t t' : Tables) :
    Prop :=
  ∀ call ∈ tombstones, t'.hasBlob ns (contentHash P call.2) = true →
    t.getBlob ns (extractTombstoneTarget call.2.data) = none

theorem Done.delete {tombstones : List (Env × BlobData)} (h : Done P ns tombstones t t')
    (target : Hash32) : Done P ns tombstones (deleteBlobData P t ns target).1
      (deleteBlobData P t' ns target).1 := by
  intro call hcall hstored
  have hbefore : t'.hasBlob ns (contentHash P call.2) = true := by
    rw [Tables.hasBlob, getBlob_deleteBlobData] at hstored
    split_ifs at hstored
    · simp at hstored
    · exact hstored
  rw [getBlob_deleteBlobData, h call hcall hbefore, ite_self]

section Tombstones

variable {tombstones : List (Env × BlobData)}
  (htomb : ∀ call ∈ tombstones, (isTombstone call.2.data = true ∧ call.1.deleteErrors = []) ∧
    extractTombstoneTarget call.2.data ∈ targets ∧ contentHash P call.2 ∈ special)
  (hcollision : Set.InjOn (contentHash P) {blob | blob ∈ tombstones.map Prod.snd})

include htomb hcollision

/-- One accepted tombstone against the deletion of its target. -/
theorem agree_tombstone {call : Env × BlobData} (hmem : call ∈ tombstones)
    (hagree : Agree ns targets special t t') (hdone : Done P ns tombstones t t') {ack : WriteAck}
    (haccepted : (ingest P call.1 t' ns call.2).2 = .done (.success ack)) :
    Agree ns targets special (deleteBlobData P t ns (extractTombstoneTarget call.2.data)).1
      (ingest P call.1 t' ns call.2).1 ∧
    Done P ns tombstones (deleteBlobData P t ns (extractTombstoneTarget call.2.data)).1
      (ingest P call.1 t' ns call.2).1 := by
  obtain ⟨⟨hshape, herrors⟩, htarget, hspecial⟩ := htomb call hmem
  have hprepared : prepared P call.1 t' ns call.2 =
      (deleteBlobData P t' ns (extractTombstoneTarget call.2.data)).1 := by
    rw [prepared_tombstone hshape, deleteTarget, if_neg (by simp [herrors])]
  have hdeletes : DeletesOnly targets call.2 :=
    ⟨by simp [isRegular, hshape], by simpa [targetsOf, hshape] using htarget⟩
  have hdelete := hagree.delete (P := P) (extractTombstoneTarget call.2.data)
  have hdone' := hdone.delete (extractTombstoneTarget call.2.data)
  rcases ingest_accepted haccepted with ⟨hsame, hknown⟩ | hcommit
  · -- the tombstone was there, so its target is already gone on the left
    rw [hsame, deleteBlobData, hdone call hmem hknown]
    exact ⟨hagree, hdone⟩
  · generalize (ingest P call.1 t' ns call.2).1 = tables at hcommit ⊢
    cases hcommit with
    | duplicate ack _ _ =>
      rw [hprepared]
      exact ⟨hdelete, hdone'⟩
    | stored ack _ _ _ =>
      rw [hprepared]
      refine ⟨(hdelete.symm.insert_special hspecial hdeletes).symm, fun other hother hstored => ?_⟩
      rw [Tables.hasBlob, getBlob_insertBlob] at hstored
      split_ifs at hstored with hkey
      · have hsame : call.2 = other.2 :=
          hcollision (List.mem_map_of_mem hmem) (List.mem_map_of_mem hother) hkey.2
        rw [← hsame, getBlob_deleteBlobData, if_pos ⟨rfl, rfl⟩]
      · exact hdone' other hother hstored

/-- **Deleting the targets of accepted tombstones** leads to tables that agree with those the
tombstones lead to. -/
theorem agree_tombstones (calls : List (Env × BlobData)) (hsub : calls ⊆ tombstones) :
    ∀ {t t' : Tables}, Agree ns targets special t t' → Done P ns tombstones t t' →
      AllAccepted P ns t' calls →
      Agree ns targets special
        (deleteTargets P t ns (calls.map fun call => extractTombstoneTarget call.2.data))
        (ingestAll P ns t' calls) := by
  induction calls with
  | nil => exact fun h _ _ => h
  | cons call rest ih =>
    rintro t t' hagree hdone ⟨⟨ack, haccepted⟩, hrest⟩
    obtain ⟨hagree', hdone'⟩ := agree_tombstone htomb hcollision (hsub List.mem_cons_self)
      hagree hdone haccepted
    exact ih (fun c hc => hsub (List.mem_cons_of_mem _ hc)) hagree' hdone' hrest

end Tombstones

theorem targetsOf_bomb (hbomb : isBomb blob.data = true) :
    targetsOf blob = extractBombTargets blob.data := by
  have htomb : isTombstone blob.data = false := by
    by_contra htomb
    rw [isBomb_of_isTombstone (Bool.eq_true_of_not_eq_false htomb)] at hbomb
    exact Bool.false_ne_true hbomb
  simp [targetsOf, htomb, hbomb]

theorem prepared_bomb (hbomb : isBomb blob.data = true) (herrors : env.deleteErrors = []) :
    prepared P env t ns blob = deleteTargets P t ns (extractBombTargets blob.data) := by
  simp [prepared, registered, isPubkeyBlob_of_isBomb hbomb, deletedBy_errorFree herrors,
    targetsOf_bomb hbomb]

/-- **BOMB equivalence**, for targets that do not arrive later. Let a BOMB and one tombstone for
each of its targets, none of them stored yet, be accepted on the same tables, and let none of their
deletions throw. Then the same regular blobs are stored in the namespace in both cases, and still
after any number of further calls with regular blobs that are none of the targets, as long as no
quota or capacity applies to those calls and none of their transactions throws (and no two of the
blobs involved have the same hash). -/
theorem bomb_equivalent (P : Primitives) (t : Tables) (ns : Hash32) (bombEnv : Env)
    (bomb : BlobData) (tombstones later : List (Env × BlobData)) (hbomb : isBomb bomb.data = true)
    (hbombErrors : bombEnv.deleteErrors = [])
    (htombs : ∀ call ∈ tombstones, isTombstone call.2.data = true ∧ call.1.deleteErrors = [])
    (htargets : (tombstones.map fun call => extractTombstoneTarget call.2.data) =
      extractBombTargets bomb.data)
    (hfresh : ∀ blob ∈ bomb :: tombstones.map Prod.snd, t.getBlob ns (contentHash P blob) = none)
    (hbombAccepted : ∃ ack, (ingest P bombEnv t ns bomb).2 = .done (.success ack))
    (htombsAccepted : AllAccepted P ns t tombstones)
    (hlater : ∀ call ∈ later, isRegular call.2 = true ∧
      contentHash P call.2 ∉ extractBombTargets bomb.data ∧ Unlimited call.1 ns)
    (hcollision : Set.InjOn (contentHash P)
      {blob | blob ∈ bomb :: (tombstones.map Prod.snd ++ later.map Prod.snd)})
    (k : Nat) (hash : Hash32) (blob : BlobData) (hregular : isRegular blob = true) :
    (ingestAll P ns (ingest P bombEnv t ns bomb).1 (later.take k)).getBlob ns hash = some blob ↔
      (ingestAll P ns (ingestAll P ns t tombstones) (later.take k)).getBlob ns hash =
          some blob := by
  set targets : Set Hash32 := {h | h ∈ extractBombTargets bomb.data}
  set special : Set Hash32 := {h | ∃ b ∈ bomb :: tombstones.map Prod.snd, contentHash P b = h}
  have hnone : ∀ h ∈ special, t.getBlob ns h = none := by
    rintro h ⟨b, hb, rfl⟩
    exact hfresh b hb
  have htomb : ∀ call ∈ tombstones, (isTombstone call.2.data = true ∧ call.1.deleteErrors = []) ∧
      extractTombstoneTarget call.2.data ∈ targets ∧ contentHash P call.2 ∈ special := by
    intro call hcall
    refine ⟨htombs call hcall, ?_, call.2, List.mem_cons_of_mem _ (List.mem_map_of_mem hcall), rfl⟩
    show _ ∈ extractBombTargets bomb.data
    rw [← htargets]
    exact List.mem_map_of_mem hcall
  have hirregular : ∀ b ∈ bomb :: tombstones.map Prod.snd, isRegular b = false := by
    intro b hb
    rcases List.mem_cons.mp hb with rfl | hb
    · simp [isRegular, hbomb]
    · obtain ⟨call, hcall, rfl⟩ := List.mem_map.mp hb
      simp [isRegular, (htombs call hcall).1]
  -- the tombstones against the bare deletions
  have hright : Agree ns targets special
      (deleteTargets P t ns (extractBombTargets bomb.data)) (ingestAll P ns t tombstones) := by
    rw [← htargets]
    have hdistinct : Set.InjOn (contentHash P) {b | b ∈ tombstones.map Prod.snd} :=
      hcollision.mono fun b hb => List.mem_cons_of_mem _ (List.mem_append_left _ hb)
    refine agree_tombstones htomb hdistinct tombstones (List.Subset.refl _) (agree_refl hnone)
      (fun call hcall hstored => ?_) htombsAccepted
    rw [Tables.hasBlob, hnone _ (htomb call hcall).2.2] at hstored
    exact absurd hstored Bool.false_ne_true
  -- the BOMB is the bare deletions and one more blob
  have hagree : Agree ns targets special (ingest P bombEnv t ns bomb).1
      (ingestAll P ns t tombstones) := by
    obtain ⟨ack, haccepted⟩ := hbombAccepted
    have hspecial : contentHash P bomb ∈ special := ⟨bomb, List.mem_cons_self, rfl⟩
    rw [ingest_accepted_fresh haccepted (hnone _ hspecial), prepared_bomb hbomb hbombErrors]
    refine hright.insert_special hspecial ⟨hirregular bomb List.mem_cons_self, ?_⟩
    rw [targetsOf_bomb hbomb]
    exact fun target htarget => htarget
  refine Agree.regular (Agree.ingestAll (fun call hcall => ?_) hagree) hash hregular
  have hmem := List.mem_of_mem_take hcall
  obtain ⟨hcallRegular, hcallTarget, hcallEnv⟩ := hlater call hmem
  refine ⟨hcallEnv, hcallRegular, ?_, hcallTarget⟩
  rintro ⟨b, hb, hsame⟩
  have heq : b = call.2 := by
    refine hcollision ?_ ?_ hsame
    · exact List.mem_append_left (later.map Prod.snd) hb
    · exact List.mem_append_right (bomb :: tombstones.map Prod.snd) (List.mem_map_of_mem hmem)
  rw [← heq, hirregular b hb] at hcallRegular
  exact Bool.false_ne_true hcallRegular

/-! ## A target that arrives after the BOMB -/

section Sample

open Wire.Sample

-- the list of the PUBK's bytes is as deep as it is long
set_option maxRecDepth 20000

/-- The owner's BOMB for the blob `note`. -/
def noteBomb : BlobData :=
  signed (key 1) (owned 1) (owned 1) ((makeBombData [noteHash]).getD []) 0 3000003

/-- **A BOMB does not keep its target out**: the owner has published its key and nothing else. After
the BOMB for `note` that blob is stored when it arrives, after the tombstone for it it is not. -/
theorem bomb_forgets :
    ∃ events, (run (Node.step primitives) {} events).tables = published ∧
      isBomb noteBomb.data = true ∧ extractBombTargets noteBomb.data = [noteHash] ∧
      (∃ ack, (ingest primitives sampleEnv published (owned 1) noteBomb).2 = .done (.success ack)) ∧
      isTombstone grave.data = true ∧ grave.ttl = 0 ∧
      extractTombstoneTarget grave.data = noteHash ∧
      AllAccepted primitives (owned 1) published [(sampleEnv, grave)] ∧ isRegular note = true ∧
      (ingestAll primitives (owned 1) (ingest primitives sampleEnv published (owned 1) noteBomb).1
        [(sampleEnv, note)]).getBlob (owned 1) noteHash = some note ∧
      (ingestAll primitives (owned 1) (ingestAll primitives (owned 1) published
        [(sampleEnv, grave)]) [(sampleEnv, note)]).getBlob (owned 1) noteHash = none := by
  refine ⟨ownerEvents [pubk 1 (owned 1) 3000000], ?_, ?_, ?_,
    ⟨{ blobHash := contentHash primitives noteBomb, seqNum := 2 }, ?_⟩, ?_, ?_, ?_,
    ⟨⟨{ blobHash := contentHash primitives grave, seqNum := 2 }, ?_⟩, trivial⟩, ?_, ?_, ?_⟩
  all_goals decide +kernel

/-- A blob that is not the target. -/
def memo : BlobData := signed (key 1) (owned 1) (owned 1) [4, 5, 6] 0 3000004

/-- With `note` stored, its BOMB and its tombstone leave the same, also after `memo`. -/
theorem bomb_equivalent_noted :
    extractBombTargets noteBomb.data = [noteHash] ∧
    ∀ k hash blob, isRegular blob = true →
      ((ingestAll primitives (owned 1) (ingest primitives sampleEnv noted (owned 1) noteBomb).1
          ([(sampleEnv, memo)].take k)).getBlob (owned 1) hash = some blob ↔
        (ingestAll primitives (owned 1)
          (ingestAll primitives (owned 1) noted [(sampleEnv, grave)])
          ([(sampleEnv, memo)].take k)).getBlob (owned 1) hash = some blob) := by
  have hmemo : isRegular memo = true ∧
      contentHash primitives memo ∉ extractBombTargets noteBomb.data := by
    decide +kernel
  have hdistinct : ∀ a ∈ [noteBomb, grave, memo], ∀ b ∈ [noteBomb, grave, memo],
      contentHash primitives a = contentHash primitives b → a = b := by
    decide +kernel
  refine ⟨by decide, bomb_equivalent primitives noted (owned 1) sampleEnv noteBomb
    [(sampleEnv, grave)] [(sampleEnv, memo)] (by decide) rfl ?_ ?_ ?_
    ⟨{ blobHash := contentHash primitives noteBomb, seqNum := 3 }, ?_⟩
    ⟨⟨{ blobHash := contentHash primitives grave, seqNum := 3 }, ?_⟩, trivial⟩ ?_ hdistinct⟩
  case refine_6 =>
    intro call hcall
    obtain rfl := List.mem_singleton.mp hcall
    exact ⟨hmemo.1, hmemo.2, unlimited_default rfl errorFree_sampleEnv⟩
  all_goals decide +kernel

end Sample

end Engine
