import Chromatin.Properties.EngineCalls
import Mathlib.Data.Set.Function

/-!
# Ingesting in another order

The blobs of one owner end up the same whatever the order they are ingested in and however often,
once the owner's PUBK came first. What a node shows is a function of the *set* of blobs delivered
to it, and that function is the abstract model here.

* `visible`: the delivered tombstones and the acceptable regular blobs that none of them targets.
* `Converged`: the tables hold what is visible of the blobs delivered so far; `Converged.ingest` is
  the step.
* `ingest_converges`: two sequences over the same blobs leave the same blobs stored.
* `ingest_drops_foreign_key`: a PUBK of another key is a blob that `ingest` never accepts.
-/

namespace Engine

open Infra Util Wire Storage

/-! ## What is visible of the delivered blobs -/

/-- The checks of `ingest` that only the blob, the configuration and the owner's key decide. -/
structure Acceptable (config : Config) (pubkey : PubKey) (blob : BlobData) : Prop where
  size : checkSize { config, now := 0 } blob = none
  maxTtl : checkMaxTtl { config, now := 0 } blob = none
  bomb : checkBomb blob = none
  key : isPubkeyBlob blob.data = true → extractPubkSigningPk blob.data = pubkey

/-- One of the delivered tombstones targets the blob. -/
def Targeted (delivered : Set BlobData) (hash : Hash32) : Prop :=
  ∃ tomb ∈ delivered, isTombstone tomb.data = true ∧ extractTombstoneTarget tomb.data = hash

/-- The tombstones, and the acceptable regular blobs that no tombstone targets. -/
def visible (P : Primitives) (config : Config) (pubkey : PubKey) (delivered : Set BlobData) :
    Set BlobData :=
  {blob | blob ∈ delivered ∧ (isTombstone blob.data = true ∨
    Acceptable config pubkey blob ∧ ¬ Targeted delivered (contentHash P blob))}

section Visible

variable {P : Primitives} {config : Config} {pubkey : PubKey} {delivered : Set BlobData}
  {blob other : BlobData} {hash : Hash32}

theorem targeted_insert : Targeted (insert blob delivered) hash ↔
    (isTombstone blob.data = true ∧ extractTombstoneTarget blob.data = hash) ∨
      Targeted delivered hash := by
  simp [Targeted]

/-- A regular blob that is not acceptable or is targeted adds nothing. -/
theorem visible_insert_hidden (htomb : isTombstone blob.data = false)
    (hhidden : Acceptable config pubkey blob → Targeted delivered (contentHash P blob)) :
    visible P config pubkey (insert blob delivered) = visible P config pubkey delivered := by
  ext other
  simp only [visible, Set.mem_ofPred_eq, targeted_insert, htomb, Bool.false_eq_true, false_and,
    false_or, Set.mem_insert_iff]
  constructor
  · rintro ⟨rfl | hmem, hother⟩
    · rcases hother with hother | ⟨hacc, hclear⟩
      · rw [htomb] at hother
        exact absurd hother Bool.false_ne_true
      · exact absurd (hhidden hacc) hclear
    · exact ⟨hmem, hother⟩
  · rintro ⟨hmem, hother⟩
    exact ⟨.inr hmem, hother⟩

/-- An acceptable regular blob that is not targeted becomes visible. -/
theorem mem_visible_insert (htomb : isTombstone blob.data = false)
    (hacc : Acceptable config pubkey blob) (hclear : ¬ Targeted delivered (contentHash P blob)) :
    other ∈ visible P config pubkey (insert blob delivered) ↔
      other = blob ∨ other ∈ visible P config pubkey delivered := by
  simp only [visible, Set.mem_ofPred_eq, targeted_insert, htomb, Bool.false_eq_true, false_and,
    false_or, Set.mem_insert_iff]
  constructor
  · rintro ⟨rfl | hmem, hother⟩
    · exact .inl rfl
    · exact .inr ⟨hmem, hother⟩
  · rintro (rfl | ⟨hmem, hother⟩)
    · exact ⟨.inl rfl, .inr ⟨hacc, hclear⟩⟩
    · exact ⟨.inr hmem, hother⟩

/-- A tombstone becomes visible and hides its target, which must not be a tombstone itself. -/
theorem mem_visible_insert_tombstone (htomb : isTombstone blob.data = true)
    (htarget : ∀ other ∈ delivered, isTombstone other.data = true →
      contentHash P other ≠ extractTombstoneTarget blob.data) :
    other ∈ visible P config pubkey (insert blob delivered) ↔
      other = blob ∨ (other ∈ visible P config pubkey delivered ∧
        contentHash P other ≠ extractTombstoneTarget blob.data) := by
  simp only [visible, Set.mem_ofPred_eq, targeted_insert, htomb, true_and, Set.mem_insert_iff,
    not_or]
  constructor
  · rintro ⟨rfl | hmem, hother⟩
    · exact .inl rfl
    · rcases hother with hother | ⟨hacc, hne, hclear⟩
      · exact .inr ⟨⟨hmem, .inl hother⟩, htarget other hmem hother⟩
      · exact .inr ⟨⟨hmem, .inr ⟨hacc, hclear⟩⟩, Ne.symm hne⟩
  · rintro (rfl | ⟨⟨hmem, hother⟩, hne⟩)
    · exact ⟨.inl rfl, .inl htomb⟩
    · refine ⟨.inr hmem, hother.imp_right fun ⟨hacc, hclear⟩ => ⟨hacc, Ne.symm hne, hclear⟩⟩

end Visible

/-! ## The blobs of one owner and the calls that deliver them -/

/-- A blob for the namespace under its owner's signature. -/
structure OwnerSigned (P : Primitives) (ns : Hash32) (pubkey : PubKey) (blob : BlobData) :
    Prop where
  hint : blob.signerHint = ns
  present : blob.signature ≠ []
  valid : verifySignature P ns blob pubkey = true

/-- Blobs of one owner without a BOMB: regular ones and permanent tombstones, of which none targets
a tombstone. -/
structure OwnersBlobs (P : Primitives) (ns : Hash32) (pubkey : PubKey) (blobs : Set BlobData) :
    Prop where
  owner : P.sha3_256 pubkey.toList = ns
  signed : ∀ blob ∈ blobs, OwnerSigned P ns pubkey blob
  noBomb : ∀ blob ∈ blobs, isBomb blob.data = false
  permanent : ∀ blob ∈ blobs, isTombstone blob.data = true → blob.ttl = 0
  targets : ∀ blob ∈ blobs, isTombstone blob.data = true →
    ∀ other ∈ blobs, isTombstone other.data = true →
      contentHash P other ≠ extractTombstoneTarget blob.data
  distinct : Set.InjOn (contentHash P) blobs

/-- The configuration limits neither the namespace nor the store, and its bound on the size of a
blob lets a tombstone pass (`validate_config` asks for at least 1 MiB). -/
structure Roomy (config : Config) (ns : Hash32) : Prop where
  quota : effectiveQuota config ns = (0, 0)
  capacity : config.maxStorageBytes = 0
  tombstone : TOMBSTONE_DATA_SIZE ≤ config.blobMaxBytes.toNat

/-- A call under the configuration whose blob is inside the time window, on a disk that works: none
of its transactions throws. -/
structure Timely (config : Config) (env : Env) (blob : BlobData) : Prop where
  config : env.config = config
  errors : env.ErrorFree
  timestamp : checkTimestamp env blob = none
  expired : checkExpired env blob = none

/-- The calls deliver the blobs, all of them, and the PUBK first. -/
structure Delivery (config : Config) (blobs : Set BlobData) (first : BlobData)
    (calls : List (Env × BlobData)) : Prop where
  first : calls.head?.map Prod.snd = some first
  covers : ∀ blob, blob ∈ blobs ↔ blob ∈ calls.map Prod.snd
  timely : ∀ call ∈ calls, Timely config call.1 call.2

section Calls

variable {P : Primitives} {config : Config} {env : Env} {ns hash : Hash32} {pubkey : PubKey}
  {t : Tables} {blob : BlobData} {blobs delivered : Set BlobData}

theorem Roomy.unlimited (h : Roomy config ns) (htimely : Timely config env blob) :
    Unlimited env ns where
  quota := by rw [htimely.config, h.quota]
  capacity := by rw [htimely.config, h.capacity]
  errors := htimely.errors

theorem checkSize_config (h : env.config = config) :
    checkSize env blob = checkSize { config, now := 0 } blob := by
  simp only [checkSize, h]

theorem checkMaxTtl_config (h : env.config = config) :
    checkMaxTtl env blob = checkMaxTtl { config, now := 0 } blob := by
  simp only [checkMaxTtl, h]

theorem Acceptable.admissible (h : Acceptable config pubkey blob) (hroomy : Roomy config ns)
    (htimely : Timely config env blob) (hsigned : OwnerSigned P ns pubkey blob) :
    Admissible env blob where
  size := (checkSize_config htimely.config).trans h.size
  capacity := by simp [checkCapacity, htimely.config, hroomy.capacity]
  timestamp := htimely.timestamp
  expired := htimely.expired
  maxTtl := (checkMaxTtl_config htimely.config).trans h.maxTtl
  signature := by simp [checkSignaturePresent, hsigned.present]
  bomb := h.bomb

/-- Every tombstone is acceptable. -/
theorem acceptable_tombstone (hroomy : Roomy config ns) (htomb : isTombstone blob.data = true) :
    Acceptable config pubkey blob where
  size := by
    have hsize : blob.data.length = TOMBSTONE_DATA_SIZE := by
      simp only [isTombstone, Bool.and_eq_true, beq_iff_eq] at htomb
      exact htomb.1
    have hcap := hroomy.tombstone
    rw [checkSize, if_neg (by simp only; omega)]
  maxTtl := by simp [checkMaxTtl, htomb]
  bomb := by simp [checkBomb, hasBombMagic_of_isTombstone htomb]
  key := fun hpubk => by simp [isPubkeyBlob_of_isTombstone htomb] at hpubk

/-- A blob that is not acceptable changes nothing once the owner's key is registered. -/
theorem ingest_unacceptable (hroomy : Roomy config ns) (htimely : Timely config env blob)
    (hsigned : OwnerSigned P ns pubkey blob) (howner : P.sha3_256 pubkey.toList = ns)
    (hkey : t.getOwnerPubkey ns = some pubkey) (hacc : ¬ Acceptable config pubkey blob) :
    (ingest P env t ns blob).1 = t := by
  by_cases hchecks : ingestChecks env t ns blob = none
  · -- the checks pass, so the blob is a PUBK of another key
    have hadm := (ingestChecks_eq_none_iff.mp hchecks).1
    have hforeign : isPubkeyBlob blob.data = true ∧ extractPubkSigningPk blob.data ≠ pubkey := by
      by_contra hnot
      refine hacc ⟨(checkSize_config htimely.config).symm.trans hadm.size,
        (checkMaxTtl_config htimely.config).symm.trans hadm.maxTtl, hadm.bomb, fun hpubk => ?_⟩
      by_contra hne
      exact hnot ⟨hpubk, hne⟩
    have hregular := isRegular_of_isPubkeyBlob hforeign.1
    by_cases hmark : t.hasTombstoneFor ns (contentHash P blob) = true
    · exact ingest_own_blocked hadm (hroomy.unlimited htimely) hsigned.hint hkey howner
        hregular hmark
    · have hcommit : ingestCommit P env t ns blob = _ :=
        ingestCommit_mismatch hforeign.1 (Bool.eq_false_of_not_eq_true hmark)
          (hsigned.hint ▸ hkey) (Ne.symm hforeign.2)
      rw [ingest_own hadm (hroomy.unlimited htimely) hsigned.hint hkey howner,
        finishIngest, hcommit]
      split_ifs <;> rfl
  · exact ingest_of_checks_fail hchecks

end Calls

/-! ## One call -/

/-- The tables hold what is visible of the delivered blobs, and the marks of their tombstones. -/
structure Converged (P : Primitives) (config : Config) (ns : Hash32) (pubkey : PubKey)
    (delivered : Set BlobData) (t : Tables) : Prop where
  key : t.getOwnerPubkey ns = some pubkey
  stored : ∀ hash blob, t.getBlob ns hash = some blob ↔
    contentHash P blob = hash ∧ blob ∈ visible P config pubkey delivered
  marks : ∀ hash, t.hasTombstoneFor ns hash = true ↔ Targeted delivered hash

section Step

variable {P : Primitives} {config : Config} {env : Env} {ns hash : Hash32} {pubkey : PubKey}
  {t : Tables} {blob : BlobData} {blobs delivered : Set BlobData}

theorem getOwnerPubkey_prepared_of_some {other : Hash32} (h : t.getOwnerPubkey ns = some pubkey) :
    (prepared P env t other blob).getOwnerPubkey ns = some pubkey := by
  rw [getOwnerPubkey_prepared, if_neg, h]
  rintro ⟨-, hnone, rfl⟩
  simp [h] at hnone

/-- Deleting a blob that is not a tombstone keeps the marks. -/
theorem hasTombstoneFor_deleteBlobData {target : Hash32}
    (h : ∀ stored, t.getBlob ns target = some stored → isTombstone stored.data = false) :
    (deleteBlobData P t ns target).1.hasTombstoneFor ns hash = t.hasTombstoneFor ns hash := by
  unfold deleteBlobData
  cases hstored : t.getBlob ns target with
  | none => rfl
  | some stored =>
    rw [hasTombstoneFor_removeBlob, h stored hstored]
    simp

/-- A regular blob that is acceptable and not targeted is stored. -/
theorem converged_insert (hkey : (prepared P env t ns blob).getOwnerPubkey ns = some pubkey)
    (hstored : ∀ hash other, t.getBlob ns hash = some other ↔
      contentHash P other = hash ∧ other ∈ visible P config pubkey delivered)
    (hmarks : ∀ hash, t.hasTombstoneFor ns hash = true ↔ Targeted delivered hash)
    (hdistinct : ∀ other ∈ delivered, contentHash P other = contentHash P blob → other = blob)
    (hregular : isRegular blob = true) (hacc : Acceptable config pubkey blob)
    (hclear : ¬ Targeted delivered (contentHash P blob)) :
    Converged P config ns pubkey (insert blob delivered)
      ((prepared P env t ns blob).insertBlob P ns blob) := by
  have htomb := isTombstone_of_isRegular hregular
  refine ⟨hkey, fun hash other => ?_, fun hash => ?_⟩
  · rw [mem_visible_insert htomb hacc hclear, getBlob_insertBlob, getBlob_prepared,
      deletedBy_regular hregular]
    simp only [true_and, List.not_mem_nil, and_false, if_false]
    split_ifs with hkey
    · subst hkey
      rw [Option.some.injEq]
      constructor
      · rintro rfl
        exact ⟨rfl, .inl rfl⟩
      · rintro ⟨hhash, rfl | hother⟩
        · rfl
        · exact (hdistinct other hother.1 hhash).symm
    · rw [hstored]
      refine and_congr_right fun hhash => ⟨.inr, ?_⟩
      rintro (rfl | hother)
      · exact absurd hhash hkey
      · exact hother
  · rw [targeted_insert, hasTombstoneFor_insertBlob, ← hmarks, htomb, prepared,
      deletedBy_regular hregular, hasTombstoneFor_registered]
    simp [deleteTargets]

/-- A regular blob that is not acceptable or is targeted may as well have been delivered. -/
theorem Converged.hidden (h : Converged P config ns pubkey delivered t)
    (htomb : isTombstone blob.data = false)
    (hhidden : Acceptable config pubkey blob → Targeted delivered (contentHash P blob)) :
    Converged P config ns pubkey (insert blob delivered) t := by
  refine ⟨h.key, fun hash other => ?_, fun hash => ?_⟩
  · rw [visible_insert_hidden htomb hhidden, h.stored]
  · rw [targeted_insert, htomb, h.marks]
    simp

/-- The owner's PUBK on an empty node. -/
theorem converged_first (hroomy : Roomy config ns) (howner : P.sha3_256 pubkey.toList = ns)
    (hsigned : OwnerSigned P ns pubkey blob) (htimely : Timely config env blob)
    (hpubk : isPubkeyBlob blob.data = true) (hacc : Acceptable config pubkey blob) :
    Converged P config ns pubkey {blob} (ingest P env {} ns blob).1 := by
  have hregular := isRegular_of_isPubkeyBlob hpubk
  have hadm := hacc.admissible hroomy htimely hsigned
  have hsigner : signerOf P {} ns blob = some (.owner pubkey) := by
    simp [signerOf, registeredOwner, hpubk, embeddedOwner, hacc.key hpubk, howner]
  have hcommit : ingestCommit P env {} ns blob = _ :=
    ingestCommit_fresh (hroomy.unlimited htimely) (fun _ => hasTombstoneFor_empty)
      (fun _ existing h => by simp at h) (by simp [getBlob_prepared])
  have hcall : (ingest P env {} ns blob).1 = (prepared P env {} ns blob).insertBlob P ns blob := by
    rw [ingest_signer (ingestChecks_eq_none hadm (.inr hpubk)) (hroomy.unlimited htimely) hsigner,
      finishIngest, hcommit]
    simp [Tables.hasBlob, Signer.pubkey, hsigned.valid]
  rw [hcall, ← insert_empty_eq]
  refine converged_insert ?_ (fun hash other => ?_) (fun hash => ?_) (fun other hother => ?_)
    hregular hacc ?_
  · rw [getOwnerPubkey_prepared, if_pos ⟨hpubk, by simp, hsigned.hint⟩, hacc.key hpubk]
  · simp [visible]
  · simp [Targeted, Tables.hasTombstoneFor]
  · exact absurd hother (Set.notMem_empty other)
  · simp [Targeted]

section Call

variable (h : Converged P config ns pubkey delivered t) (hblobs : OwnersBlobs P ns pubkey blobs)
  (hsub : delivered ⊆ blobs) (hblob : blob ∈ blobs)

include h hblobs hsub hblob

theorem Converged.getBlob_eq_none (hnew : blob ∉ delivered) :
    t.getBlob ns (contentHash P blob) = none := by
  cases hstored : t.getBlob ns (contentHash P blob) with
  | none => rfl
  | some other =>
    obtain ⟨hhash, hvisible⟩ := (h.stored _ _).mp hstored
    have hsame : other = blob := hblobs.distinct (hsub hvisible.1) hblob hhash
    exact absurd (hsame ▸ hvisible.1) hnew

variable (hroomy : Roomy config ns) (htimely : Timely config env blob)

include hroomy htimely

/-- A new tombstone is stored, its target removed and marked. -/
theorem Converged.ingest_tombstone (hnew : blob ∉ delivered)
    (htomb : isTombstone blob.data = true) :
    Converged P config ns pubkey (insert blob delivered) (ingest P env t ns blob).1 := by
  have hsigned := hblobs.signed blob hblob
  have hadm := (acceptable_tombstone hroomy htomb).admissible hroomy htimely hsigned
  have hregular : isRegular blob = false := by simp [isRegular, htomb]
  have htargets := fun other hother => hblobs.targets blob hblob htomb other (hsub hother)
  rw [ingest_own_fresh hadm (hroomy.unlimited htimely) hsigned.hint h.key hblobs.owner hsigned.valid
    (h.getBlob_eq_none hblobs hsub hblob hnew) (fun hreg => by simp [hregular] at hreg)
    (fun hpubk => by simp [isPubkeyBlob_of_isTombstone htomb] at hpubk)]
  refine ⟨getOwnerPubkey_prepared_of_some h.key, fun hash other => ?_, fun hash => ?_⟩
  · rw [mem_visible_insert_tombstone htomb htargets, getBlob_insertBlob, getBlob_prepared]
    have hsame (hother : other ∈ visible P config pubkey delivered)
        (hhash : contentHash P other = contentHash P blob) : other = blob :=
      hblobs.distinct (hsub hother.1) hblob hhash
    have htarget : deletedBy env blob = [extractTombstoneTarget blob.data] := by
      simp [deletedBy_errorFree htimely.errors.delete, targetsOf, htomb]
    by_cases hkey : contentHash P blob = hash
    · subst hkey
      simp only [and_self, if_true, Option.some.injEq]
      constructor
      · rintro rfl
        exact ⟨rfl, .inl rfl⟩
      · rintro ⟨hhash, rfl | ⟨hother, -⟩⟩
        · rfl
        · exact (hsame hother hhash).symm
    · simp only [hkey, htarget, List.mem_singleton, true_and, if_false]
      split_ifs with hgone
      · -- the target is gone
        simp only [false_iff, not_and, not_or]
        rintro rfl
        exact ⟨fun hother => hkey (congrArg _ hother.symm), fun _ hne => hne hgone⟩
      · rw [h.stored]
        refine and_congr_right fun hhash => ⟨fun hother => .inr ⟨hother, hhash ▸ hgone⟩, ?_⟩
        rintro (rfl | ⟨hother, -⟩)
        · exact absurd hhash hkey
        · exact hother
  · have hmarks : (deleteBlobData P t ns (extractTombstoneTarget blob.data)).1.hasTombstoneFor ns
        hash = t.hasTombstoneFor ns hash := by
      refine hasTombstoneFor_deleteBlobData fun stored hstored => ?_
      obtain ⟨hhash, hvisible⟩ := (h.stored _ _).mp hstored
      by_contra hstoredTomb
      exact htargets stored hvisible.1 (Bool.eq_true_of_not_eq_false hstoredTomb) hhash
    rw [targeted_insert, hasTombstoneFor_insertBlob, ← h.marks, prepared_tombstone htomb,
      deleteTarget, if_neg (by simp [htimely.errors.delete]), hmarks]
    simp

/-- **One call keeps the tables converged**, whatever blob of the owner it is with. -/
theorem Converged.ingest :
    Converged P config ns pubkey (insert blob delivered) (ingest P env t ns blob).1 := by
  have hsigned := hblobs.signed blob hblob
  by_cases htomb : isTombstone blob.data = true
  · by_cases hnew : blob ∈ delivered
    · have hstored := (h.stored _ blob).mpr ⟨rfl, hnew, .inl htomb⟩
      have hacc : Acceptable config pubkey blob := acceptable_tombstone hroomy htomb
      rw [Set.insert_eq_of_mem hnew, ingest_own_known (hacc.admissible hroomy htimely hsigned)
        (hroomy.unlimited htimely) hsigned.hint h.key hblobs.owner hstored]
      exact h
    · exact h.ingest_tombstone hblobs hsub hblob hroomy htimely hnew htomb
  have htomb : isTombstone blob.data = false := Bool.eq_false_of_not_eq_true htomb
  have hregular : isRegular blob = true := by simp [isRegular, htomb, hblobs.noBomb blob hblob]
  by_cases hacc : Acceptable config pubkey blob
  · have hadm := hacc.admissible hroomy htimely hsigned
    by_cases hmark : Targeted delivered (contentHash P blob)
    · rw [ingest_own_blocked hadm (hroomy.unlimited htimely) hsigned.hint h.key hblobs.owner
        hregular ((h.marks _).mpr hmark)]
      exact h.hidden htomb fun _ => hmark
    · by_cases hnew : blob ∈ delivered
      · have hstored := (h.stored _ blob).mpr ⟨rfl, hnew, .inr ⟨hacc, hmark⟩⟩
        rw [Set.insert_eq_of_mem hnew, ingest_own_known hadm (hroomy.unlimited htimely) hsigned.hint
          h.key hblobs.owner hstored]
        exact h
      · have hclear : t.hasTombstoneFor ns (contentHash P blob) = false :=
          Bool.eq_false_of_not_eq_true fun htrue => hmark ((h.marks _).mp htrue)
        rw [ingest_own_fresh hadm (hroomy.unlimited htimely) hsigned.hint h.key hblobs.owner
          hsigned.valid (h.getBlob_eq_none hblobs hsub hblob hnew) (fun _ => hclear) hacc.key]
        exact converged_insert (getOwnerPubkey_prepared_of_some h.key) h.stored h.marks
          (fun other hother hhash => hblobs.distinct (hsub hother) hblob hhash) hregular hacc hmark
  · rw [ingest_unacceptable hroomy htimely hsigned hblobs.owner h.key hacc]
    exact h.hidden htomb fun hacc' => absurd hacc' hacc

end Call

/-! ## Any order -/

/-- **A run of calls keeps the tables converged.** -/
theorem Converged.ingestAll (hroomy : Roomy config ns) (hblobs : OwnersBlobs P ns pubkey blobs)
    (calls : List (Env × BlobData)) (hcalls : ∀ call ∈ calls, call.2 ∈ blobs ∧
      Timely config call.1 call.2) :
    ∀ {t : Tables} {delivered : Set BlobData}, delivered ⊆ blobs →
      Converged P config ns pubkey delivered t →
      Converged P config ns pubkey (delivered ∪ {blob | blob ∈ calls.map Prod.snd})
        (ingestAll P ns t calls) := by
  induction calls with
  | nil =>
    intro t delivered _ h
    simpa [Engine.ingestAll] using h
  | cons call rest ih =>
    intro t delivered hsub h
    obtain ⟨hblob, htimely⟩ := hcalls call List.mem_cons_self
    have hrest := ih (fun c hc => hcalls c (List.mem_cons_of_mem _ hc))
      (Set.insert_subset hblob hsub) (h.ingest hblobs hsub hblob hroomy htimely)
    have hset : insert call.2 delivered ∪ {blob | blob ∈ rest.map Prod.snd} =
        delivered ∪ {blob | blob ∈ (call :: rest).map Prod.snd} := by
      ext other
      simp only [List.map_cons, List.mem_cons, Set.mem_union, Set.mem_insert_iff, Set.mem_ofPred_eq]
      tauto
    rw [hset] at hrest
    exact hrest

/-- What a delivery leaves on an empty node. -/
theorem converged_delivery (hroomy : Roomy config ns) (hblobs : OwnersBlobs P ns pubkey blobs)
    {first : BlobData} (hpubk : isPubkeyBlob first.data = true)
    (hacc : Acceptable config pubkey first) {calls : List (Env × BlobData)}
    (hcalls : Delivery config blobs first calls) :
    Converged P config ns pubkey blobs (Engine.ingestAll P ns {} calls) := by
  obtain ⟨hfirst, hcovers, htimely⟩ := hcalls
  cases calls with
  | nil => simp at hfirst
  | cons call rest =>
    obtain rfl : call.2 = first := by simpa using hfirst
    have hmem : call.2 ∈ blobs := (hcovers _).mpr List.mem_cons_self
    have hstart := converged_first hroomy hblobs.owner (hblobs.signed _ hmem)
      (htimely call List.mem_cons_self) hpubk hacc
    have hrest : ∀ c ∈ rest, c.2 ∈ blobs ∧ Timely config c.1 c.2 := fun c hc =>
      ⟨(hcovers _).mpr (List.mem_cons_of_mem _ (List.mem_map_of_mem hc)),
        htimely c (List.mem_cons_of_mem _ hc)⟩
    have hend :=
      Converged.ingestAll hroomy hblobs rest hrest (Set.singleton_subset_iff.mpr hmem) hstart
    have hall : {call.2} ∪ {blob | blob ∈ rest.map Prod.snd} = blobs := by
      ext other
      rw [hcovers other]
      simp
    rw [hall] at hend
    exact hend

end Step

/-- **Convergence.** Let a set of an owner's blobs consist of its PUBK, regular blobs and permanent
tombstones of which none targets a tombstone. Two sequences of calls that deliver the set, the PUBK
first, the rest in any order and any number of times, leave the same blobs stored on an empty node:
the tombstones, and the regular blobs that the checks of `ingest` let pass and no tombstone
targets. -/
theorem ingest_converges (P : Primitives) (config : Config) (ns : Hash32) (pubkey : PubKey)
    (blobs : Set BlobData) (first : BlobData) (calls calls' : List (Env × BlobData))
    (hroomy : Roomy config ns) (hblobs : OwnersBlobs P ns pubkey blobs)
    (hpubk : isPubkeyBlob first.data = true) (hacc : Acceptable config pubkey first)
    (hcalls : Delivery config blobs first calls) (hcalls' : Delivery config blobs first calls') :
    (∀ hash, (ingestAll P ns {} calls).getBlob ns hash =
      (ingestAll P ns {} calls').getBlob ns hash) ∧
    ∀ hash blob, (ingestAll P ns {} calls).getBlob ns hash = some blob ↔
      contentHash P blob = hash ∧ blob ∈ visible P config pubkey blobs := by
  have hleft := converged_delivery hroomy hblobs hpubk hacc hcalls
  have hright := converged_delivery hroomy hblobs hpubk hacc hcalls'
  refine ⟨fun hash => Option.ext fun blob => ?_, hleft.stored⟩
  rw [hleft.stored, hright.stored]

section Sample

open Wire.Sample

set_option maxRecDepth 20000

theorem roomy_default : Roomy {} (owned 1) where
  quota := (show Unlimited sampleEnv (owned 1) from unlimited_default rfl errorFree_sampleEnv).quota
  capacity := rfl
  tombstone := by decide

/-- The blobs of a list, by evaluation. -/
theorem ownersBlobs_of_list {blobs : Set BlobData} {l : List BlobData}
    (hmem : ∀ blob ∈ blobs, blob ∈ l)
    (h : ∀ a ∈ l, (a.signerHint = owned 1 ∧ a.signature ≠ [] ∧
        verifySignature primitives (owned 1) a (key 1) = true) ∧
      isBomb a.data = false ∧ (isTombstone a.data = true → a.ttl = 0) ∧
      ∀ b ∈ l, (contentHash primitives a = contentHash primitives b → a = b) ∧
        (isTombstone a.data = true → isTombstone b.data = true →
          contentHash primitives b ≠ extractTombstoneTarget a.data)) :
    OwnersBlobs primitives (owned 1) (key 1) blobs where
  owner := hash_key 1
  signed a ha := ⟨(h a (hmem a ha)).1.1, (h a (hmem a ha)).1.2.1, (h a (hmem a ha)).1.2.2⟩
  noBomb a ha := (h a (hmem a ha)).2.1
  permanent a ha := (h a (hmem a ha)).2.2.1
  targets a ha htomb b hb := ((h a (hmem a ha)).2.2.2 b (hmem b hb)).2 htomb
  distinct a ha b hb := ((h a (hmem a ha)).2.2.2 b (hmem b hb)).1

theorem delivery_of_list {blobs : Set BlobData} {first : BlobData} {l : List BlobData}
    (hfirst : l.head? = some first) (hmem : ∀ blob, blob ∈ blobs ↔ blob ∈ l)
    (h : ∀ blob ∈ l, checkTimestamp sampleEnv blob = none ∧ checkExpired sampleEnv blob = none) :
    Delivery {} blobs first (l.map fun blob => (sampleEnv, blob)) where
  first := by simpa [List.head?_map, Function.comp_def] using hfirst
  covers blob := by simpa [Function.comp_def] using hmem blob
  timely call hcall := by
    obtain ⟨blob, hblob, rfl⟩ := List.mem_map.mp hcall
    exact ⟨rfl, errorFree_sampleEnv, (h blob hblob).1, (h blob hblob).2⟩

def graveyard : Set BlobData := {pubk 1 (owned 1) 3000000, note, grave}

theorem acceptable_pubk : Acceptable {} (key 1) (pubk 1 (owned 1) 3000000) :=
  ⟨by decide +kernel, by decide +kernel, by decide +kernel, by decide +kernel⟩

/-- The blob before its tombstone, or after it and twice: only the PUBK and the tombstone stay. -/
theorem ingest_converges_graveyard :
    (∀ hash, (ingestAll primitives (owned 1) {}
        [(sampleEnv, pubk 1 (owned 1) 3000000), (sampleEnv, note), (sampleEnv, grave)]).getBlob
          (owned 1) hash =
      (ingestAll primitives (owned 1) {}
        [(sampleEnv, pubk 1 (owned 1) 3000000), (sampleEnv, grave), (sampleEnv, note),
          (sampleEnv, note)]).getBlob (owned 1) hash) ∧
    ∀ hash blob, (ingestAll primitives (owned 1) {}
        [(sampleEnv, pubk 1 (owned 1) 3000000), (sampleEnv, note), (sampleEnv, grave)]).getBlob
          (owned 1) hash = some blob ↔
      contentHash primitives blob = hash ∧ blob ∈ visible primitives {} (key 1) graveyard := by
  have howner : OwnersBlobs primitives (owned 1) (key 1) graveyard :=
    ownersBlobs_of_list (l := [pubk 1 (owned 1) 3000000, note, grave])
      (fun blob => by simp [graveyard]) (by decide +kernel)
  exact ingest_converges primitives {} (owned 1) (key 1) graveyard (pubk 1 (owned 1) 3000000) _ _
    roomy_default howner (isPubkeyBlob_pubk _ _ _) acceptable_pubk
    (delivery_of_list (l := [pubk 1 (owned 1) 3000000, note, grave]) rfl
      (fun blob => by simp [graveyard]) (by decide +kernel))
    (delivery_of_list (l := [pubk 1 (owned 1) 3000000, grave, note, note]) rfl
      (fun blob => by simp [graveyard]; tauto) (by decide +kernel))

/-! ## A PUBK of another key -/

/-- A PUBK with key 2 that the owner of namespace 1 signs; irreducible as `pubk` is. -/
@[irreducible] def foreign : BlobData :=
  signed (key 1) (owned 1) (owned 1) (makePubkData (key 2) (FixedBytes.fill 1568 0)) 0 3000001

/-- **A PUBK of another key is never stored**, although the owner signed it, it is regular and no
tombstone targets it. -/
theorem ingest_drops_foreign_key :
    Roomy {} (owned 1) ∧
    OwnersBlobs primitives (owned 1) (key 1) {pubk 1 (owned 1) 3000000, foreign} ∧
    Delivery {} {pubk 1 (owned 1) 3000000, foreign} (pubk 1 (owned 1) 3000000)
      [(sampleEnv, pubk 1 (owned 1) 3000000), (sampleEnv, foreign)] ∧
    isRegular foreign = true ∧ isDelegation foreign.data = false ∧
    ¬ Targeted {pubk 1 (owned 1) 3000000, foreign} (contentHash primitives foreign) ∧
    (ingestAll primitives (owned 1) {}
      [(sampleEnv, pubk 1 (owned 1) 3000000), (sampleEnv, foreign)]).getBlob (owned 1)
        (contentHash primitives foreign) = none := by
  refine ⟨roomy_default,
    ownersBlobs_of_list (l := [pubk 1 (owned 1) 3000000, foreign]) (fun blob => by simp) ?_,
    delivery_of_list (l := [pubk 1 (owned 1) 3000000, foreign]) rfl (fun blob => by simp) ?_,
    ?_, ?_, ?_, ?_⟩
  case refine_5 =>
    have htomb : ∀ blob ∈ [pubk 1 (owned 1) 3000000, foreign], isTombstone blob.data = false := by
      decide +kernel
    rintro ⟨blob, hblob, h, -⟩
    rw [htomb blob (by simpa using hblob)] at h
    exact Bool.false_ne_true h
  all_goals decide +kernel

end Sample

end Engine
