import Chromatin.Properties.Acceptance
import Chromatin.Properties.SyncCursor

/-!
# What a full resync brings to both nodes

A session hands every blob one node lacks to its `ingest`, in the order of the hashes. `ingest`
only takes a blob when it finds the key the blob is signed with: a blob that comes before the PUBK
of its namespace, or before the delegation of its signer, is dropped for good
(`sync_drops_early_blob`).

* `Receptive` is the condition on a step: the node is ready for the blob that arrives.
* `Gathered` is the invariant: what a node had or was handed it stores, unless a tombstone or a
  BOMB of one of the nodes names it.
* `sync_complete` : after a session of receptive steps both nodes have every blob of either node.
-/

namespace Peer

open Infra Util Wire Storage Engine Sync

/-- Tables of a run of the engine, whatever the cursors. -/
def Reached (P : Primitives) (t : Tables) : Prop :=
  ∃ events : List Engine.Event, t = { (run (Node.step P) {} events).tables with cursor := t.cursor }

theorem Reached.wellFormed {P : Primitives} {t : Tables} {ns hash : Hash32} {blob : BlobData}
    (h : Reached P t) (hblob : t.getBlob ns hash = some blob) : WellFormed blob := by
  obtain ⟨events, hrun⟩ := h
  rw [hrun] at hblob
  exact wellFormed_stored events hblob

theorem Reached.backed {P : Primitives} {t : Tables} (h : Reached P t) : MarksBacked t := by
  obtain ⟨events, hrun⟩ := h
  rw [hrun]
  exact marksBacked_run events

namespace Setting

variable {P : Primitives} (S : Setting P)

/-- A tombstone or a BOMB one of the nodes stored before the session names the hash. -/
def Targeted (ns hash : Hash32) : Prop :=
  ∃ key blob, S.Known ns key blob ∧ hash ∈ targetsOf blob

/-- Neither a limit nor the clock of a node is in the way of a blob of either node. -/
structure Unhindered : Prop where
  unlimited : ∀ side, ∀ env ∈ S.envs side, ∀ ns, Unlimited env.engine ns
  deliverable : ∀ side, ∀ env ∈ S.envs side, ∀ ns hash blob, S.Known ns hash blob →
    Deliverable env.engine blob
  cap : ∀ side, ∀ env ∈ S.envs side, ∀ ns hash blob, S.Known ns hash blob →
    shouldSkipForPeerCap blob.data.length env.advertisedBlobCap = false

/-- Nothing holds the session back, and a node that gets a blob it lacks is ready for it, unless a
tombstone or a BOMB names the blob. -/
def Receptive (link : Link) (e : LinkEvent) : Prop :=
  S.Smooth link e ∧ ∀ side env, e = .deliver side env → ∀ nb ∈ handed P link e side,
    ¬ S.Targeted nb.targetNamespace (contentHash P nb.blob) →
    (link.session side).tables.getBlob nb.targetNamespace (contentHash P nb.blob) = none →
      Ready P env.engine (link.session side).tables nb.targetNamespace nb.blob

variable {S} {link : Link} {e : LinkEvent} {side : Side} {t : Tables} {ns hash : Hash32}
  {blob : BlobData}

/-- A blob that has not expired is handed to `ingest`. -/
theorem ingestOne_live {env : Env} {state : Tables × SyncStats} {nb : NamespacedBlob}
    (h : isBlobExpired nb.blob env.now = false) :
    (ingestOne P env state nb).1 = (ingest P env state.1 nb.targetNamespace nb.blob).1 := by
  unfold ingestOne
  rw [if_neg (by simp [h])]
  split <;> simp_all

/-- A step leaves the blobs of a side alone or commits a known blob. -/
theorem StoreStep.tables_cases (h : S.StoreStep link e side t) :
    (∃ cursor, t = { (link.session side).tables with cursor }) ∨
      ∃ env ns hash blob result, S.Known ns hash blob ∧
        Committed P env (link.session side).tables ns blob t result := by
  cases h with
  | same cursor hhanded => exact .inl ⟨cursor, rfl⟩
  | ingested hevent hknown hhanded =>
    rename_i env ns hash blob
    rcases ingestOne_tables (P := P) env.engine
      ((link.session side).tables, (link.session side).stats) ⟨ns, blob⟩
        with hsame | ⟨result, hcommit⟩
    · exact .inl ⟨(link.session side).tables.cursor, hsame⟩
    · exact .inr ⟨env.engine, ns, hash, blob, result, hknown, hcommit⟩

/-- A step keeps the blobs nothing names. -/
theorem StoreStep.getBlob (h : S.StoreStep link e side t)
    (hstored : (link.session side).tables.getBlob ns hash = some blob)
    (hspared : ¬ S.Targeted ns hash) : t.getBlob ns hash = some blob := by
  rcases h.tables_cases with ⟨cursor, rfl⟩ | ⟨env, ns', key, arrived, result, hknown, hcommit⟩
  · exact hstored
  · refine getBlob_committed_of_stored hcommit hstored fun hns hmem => hspared ?_
    subst hns
    exact ⟨key, arrived, hknown, (mem_deletedBy.mp hmem).1⟩

theorem StoreStep.origin (h : S.StoreStep link e side t)
    (horigin : S.Origin (link.session side).tables) :
    S.Origin t := by
  cases h with
  | same cursor hhanded => exact horigin
  | ingested hevent hknown hhanded => exact horigin.ingestOne hknown _

theorem StoreStep.backed (h : S.StoreStep link e side t)
    (hbacked : MarksBacked (link.session side).tables) :
    MarksBacked t := by
  rcases h.tables_cases with ⟨cursor, rfl⟩ | ⟨env, ns, key, blob, result, -, hcommit⟩
  · exact hbacked
  · exact marksBacked_committed hbacked hcommit

/-- A blob that nothing names has no mark. -/
theorem unmarked (horigin : S.Origin t) (hbacked : MarksBacked t) (hspared : ¬ S.Targeted ns hash) :
    t.hasTombstoneFor ns hash = false := by
  by_contra hmark
  obtain ⟨key, tomb, hstored, hfor⟩ := hbacked ns hash (Bool.eq_true_of_not_eq_false hmark)
  obtain ⟨htomb, htarget⟩ := isTombstoneFor_iff.mp hfor
  refine hspared ⟨key, tomb, horigin ns key tomb hstored, ?_⟩
  simp [targetsOf, htomb, htarget]

section Run

variable (hreached : ∀ side, Reached P (S.tables side))
  (hinj : Set.InjOn (contentHash P) {blob | ∃ ns hash, S.Known ns hash blob})
  (hunhindered : S.Unhindered)

include hreached hinj hunhindered

/-- A blob that arrives in a receptive step is stored after it. -/
theorem StoreStep.arrived {nb : NamespacedBlob} (h : S.StoreStep link e side t)
    (hreceptive : S.Receptive link e) (horigin : S.Origin (link.session side).tables)
    (hbacked : MarksBacked (link.session side).tables) (hmem : nb ∈ handed P link e side)
    (hspared : ¬ S.Targeted nb.targetNamespace (contentHash P nb.blob)) :
    t.getBlob nb.targetNamespace (contentHash P nb.blob) = some nb.blob := by
  have hkeep := h
  cases h with
  | same cursor hhanded =>
    rw [hhanded] at hmem
    exact absurd hmem List.not_mem_nil
  | ingested hevent hknown hhanded =>
    rename_i env ns hash blob
    rw [hhanded] at hmem
    obtain rfl := List.mem_singleton.mp hmem
    cases hstored : (link.session side).tables.getBlob ns (contentHash P blob) with
    | some other =>
      -- the node has a blob with this hash already, and it is this one
      obtain rfl : other = blob := by
        refine hinj ⟨_, _, horigin _ _ _ hstored⟩ ⟨_, _, hknown⟩ ?_
        exact (horigin _ _ _ hstored).hashed
      exact hkeep.getBlob hstored hspared
    | none =>
      have henv : env ∈ S.envs side := by
        have hsmooth := hreceptive.1
        rw [hevent] at hsmooth
        exact hsmooth
      have hready := hreceptive.2 side env hevent ⟨ns, blob⟩ (by rw [hhanded]; simp) hspared hstored
      have hformed : WellFormed blob := by
        obtain ⟨owner, howner⟩ := hknown
        exact (hreached owner).wellFormed howner
      have hdeliver := hunhindered.deliverable side env henv ns hash blob hknown
      rw [Session.ingested, ingestOne_live hdeliver.live]
      exact (getBlob_ingest_iff (hunhindered.unlimited side env henv ns) hdeliver hformed
        (unmarked horigin hbacked hspared) hstored).mpr hready

/-- What both nodes had and were handed they have, unless a tombstone or a BOMB names it. -/
structure Gathered (S : Setting P) (start : Link) (events : List LinkEvent) (link : Link) :
    Prop where
  phase : S.Phase (history P start events) link
  origin : ∀ side, S.Origin (link.session side).tables
  backed : ∀ side, MarksBacked (link.session side).tables
  kept : ∀ side ns hash blob, (S.tables side).getBlob ns hash = some blob → ¬ S.Targeted ns hash →
    (link.session side).tables.getBlob ns hash = some blob
  gained : ∀ side, ∀ nb ∈ history P start events side,
    ¬ S.Targeted nb.targetNamespace (contentHash P nb.blob) →
    (link.session side).tables.getBlob nb.targetNamespace (contentHash P nb.blob) = some nb.blob
  known : ∀ side, ∀ nb ∈ history P start events side, ∃ hash,
    S.Known nb.targetNamespace hash nb.blob

theorem Gathered.step {start : Link} {events : List LinkEvent}
    (h : S.Gathered start events (run (Link.step P) start events))
    (hreceptive : S.Receptive (run (Link.step P) start events) e) :
    S.Gathered start (events ++ [e]) (run (Link.step P) start (events ++ [e])) := by
  have hrun : run (Link.step P) start (events ++ [e]) =
      (run (Link.step P) start events).step P e := by
    rw [run_append, run_cons, run_nil]
  obtain ⟨hphase, hstore⟩ := h.phase.step hreceptive.1
  rw [hrun]
  refine ⟨?_, fun side => (hstore side).origin (h.origin side), fun side =>
    (hstore side).backed (h.backed side),
    fun side ns hash blob hblob hspared => ?_, fun side nb hnb hspared => ?_, fun side nb hnb => ?_⟩
  · rw [history_append]
    exact hphase
  · exact (hstore side).getBlob (h.kept side ns hash blob hblob hspared) hspared
  · rcases mem_history_append hnb with hold | hnew
    · exact (hstore side).getBlob (h.gained side nb hold hspared) hspared
    · exact (hstore side).arrived hreached hinj hunhindered hreceptive (h.origin side)
        (h.backed side) hnew hspared
  · rcases mem_history_append hnb with hold | hnew
    · exact h.known side nb hold
    · exact (hstore side).handed_known hnew

theorem gathered_run {env : SyncEnv} (henv : env ∈ S.envs .responder) {events : List LinkEvent}
    (hall : AllSteps (Link.step P) S.Receptive (S.start env) events) :
    S.Gathered (S.start env) events (run (Link.step P) (S.start env) events) := by
  have htables (side : Side) : ((S.start env).session side).tables = S.tables side := by
    cases side <;> rfl
  refine run_induction (motive := fun events => S.Gathered (S.start env) events
    (run (Link.step P) (S.start env) events)) ?_
    (fun before e h hreceptive => h.step hreached hinj hunhindered hreceptive) hall
  refine ⟨.reconciling (reconciling_start henv), fun side => ?_, fun side => ?_,
    fun side ns hash blob hblob _ => ?_, fun side nb hnb => ?_, fun side nb hnb => ?_⟩
  · rw [run_nil, htables]
    exact fun ns hash blob hblob => ⟨side, hblob⟩
  · rw [run_nil, htables]
    exact (hreached side).backed
  · rw [run_nil, htables]
    exact hblob
  · simp [history, Happened] at hnb
  · simp [history, Happened] at hnb

end Run

end Setting

open Setting in
/-- **Sync completeness.** In a session that nothing holds back, in which no cursor lets a namespace
be skipped and every node is ready for the blobs that arrive, both nodes end up with every blob one
of them had, unless a tombstone or a BOMB one of them had names it. -/
theorem sync_complete {P : Primitives} (S : Setting P) (env : SyncEnv) (events : List LinkEvent)
    (hreached : ∀ side, Reached P (S.tables side))
    (hinj : Set.InjOn (contentHash P) {blob | ∃ ns hash, S.Known ns hash blob})
    (hunhindered : S.Unhindered) (hshared : ∀ ns, S.shared ns = true)
    (hfull : ∀ side ns, ¬ S.Skipped side ns) (henv : env ∈ S.envs .responder)
    (hall : AllSteps (Link.step P) S.Receptive (S.start env) events)
    (hfinished : ∀ side,
      ((run (Link.step P) (S.start env) events).session side).stage = .finished) :
    ∀ side ns hash blob, S.Known ns hash blob → ¬ S.Targeted ns hash →
      ((run (Link.step P) (S.start env) events).session side).tables.getBlob ns hash =
          some blob := by
  intro side ns hash blob hknown hspared
  have hgathered := gathered_run hreached hinj hunhindered henv hall
  obtain ⟨owner, hblob⟩ := hknown
  by_cases hown : owner = side
  · subst hown
    exact hgathered.kept owner ns hash blob hblob hspared
  · obtain rfl : owner = side.other := by
      cases owner <;> cases side <;> simp_all [Side.other]
    have htransferring : S.Transferring (history P (S.start env) events)
        (run (Link.step P) (S.start env) events) := by
      cases hgathered.phase with
      | transferring h => exact h
      | reconciling h => exact absurd (hfinished side) (h.not_finished side)
    cases hstored : (S.tables side).getBlob ns hash with
    | some other =>
      -- both nodes had it
      have hsame : other = blob := by
        refine hinj ⟨ns, hash, side, hstored⟩ ⟨ns, hash, side.other, hblob⟩ ?_
        rw [(S.sound side).hashed _ _ _ hstored, (S.sound side.other).hashed _ _ _ hblob]
      rw [hsame] at hstored
      exact hgathered.kept side ns hash blob hstored hspared
    | none =>
      have hwanted : S.Wanted side ns hash := by
        refine ⟨hshared ns, ⟨blob, hblob, fun env' henv' => ⟨?_, ?_⟩⟩, hstored, hfull side ns⟩
        · exact (hunhindered.deliverable _ env' henv' ns hash blob ⟨_, hblob⟩).live
        · exact hunhindered.cap _ env' henv' ns hash blob ⟨_, hblob⟩
      obtain ⟨blob', hmem, hhash⟩ := htransferring.received (.inr (hfinished side)) hwanted
      obtain ⟨hash', hknown'⟩ := hgathered.known side _ hmem
      obtain rfl : hash = hash' := hhash.symm.trans hknown'.hashed
      obtain rfl : blob' = blob := hknown'.unique hblob hstored
      have hgained := hgathered.gained side _ hmem (by rw [hhash]; exact hspared)
      rwa [hhash] at hgained

/-! ## Sessions about the blobs of one owner -/

section Sample

open Wire.Sample

-- the list of the PUBK's bytes is as deep as it is long
set_option maxRecDepth 20000

theorem reached_ownerEvents {blobs : List BlobData} {t : Tables}
    (hrun : (run (Node.step primitives) {} (ownerEvents blobs)).tables = t) :
    Reached primitives t :=
  ⟨ownerEvents blobs, by rw [hrun]⟩

/-- The nodes have nothing but what the owner handed in. -/
def OnlyOf (S : Setting primitives) (blobs : List BlobData) : Prop :=
  ∀ ns hash blob, S.Known ns hash blob → blob ∈ blobsOf (ownerEvents blobs)

section OnlyOf

variable {S : Setting primitives} {blobs : List BlobData} (h : OnlyOf S blobs)

include h

theorem OnlyOf.injOn
    (hdistinct : ∀ a ∈ blobsOf (ownerEvents blobs), ∀ b ∈ blobsOf (ownerEvents blobs),
      contentHash primitives a = contentHash primitives b → a = b) :
    Set.InjOn (contentHash primitives) {blob | ∃ ns hash, S.Known ns hash blob} := by
  rintro a ⟨ns, hash, ha⟩ b ⟨ns', hash', hb⟩
  exact hdistinct a (h ns hash a ha) b (h ns' hash' b hb)

theorem OnlyOf.unhindered (henvs : ∀ side, S.envs side = {syncEnv})
    (hchecks : ∀ blob ∈ blobsOf (ownerEvents blobs), checkSize sampleEnv blob = none ∧
      checkTimestamp sampleEnv blob = none ∧
      isBlobExpired blob sampleEnv.now = false) : S.Unhindered := by
  have hsingle {side : Side} {env : SyncEnv} (henv : env ∈ S.envs side) : env = syncEnv := by
    rw [henvs] at henv
    exact henv
  refine ⟨fun side env henv ns => ?_, fun side env henv ns hash blob hknown => ?_,
    fun side env henv ns hash blob _ => ?_⟩
  · rw [hsingle henv]
    exact unlimited_default rfl ⟨rfl, rfl, rfl⟩
  · obtain ⟨hsize, htimestamp, hlive⟩ := hchecks blob (h ns hash blob hknown)
    rw [hsingle henv]
    exact ⟨hsize, htimestamp, hlive⟩
  · rw [hsingle henv]
    rfl

theorem OnlyOf.not_targeted (htargets : ∀ blob ∈ blobsOf (ownerEvents blobs), targetsOf blob = [])
    (ns hash : Hash32) : ¬ S.Targeted ns hash := by
  rintro ⟨key, blob, hknown, hmem⟩
  rw [htargets blob (h ns key blob hknown)] at hmem
  exact absurd hmem List.not_mem_nil

end OnlyOf

theorem onlyOf_note : OnlyOf noteSetting [pubk 1 (owned 1) 3000000, note] := by
  rintro ns hash blob ⟨_ | _, hblob⟩
  · exact List.mem_cons.mpr (.inl (List.mem_singleton.mp (mem_of_ownerEvents run_published hblob)))
  · exact mem_of_ownerEvents run_noted hblob

theorem receptive_noteSession : AllSteps (Link.step primitives) noteSetting.Receptive
    (noteSetting.start syncEnv) noteSession := by
  refine steps_noteSession.1.imp fun link e he hstep =>
    ⟨smooth_of_settles (fun _ => rfl) (reads_noteSession e he) hstep.1, ?_⟩
  rintro side env rfl nb hnb - -
  obtain rfl := reads_noteSession _ he side env (.inl rfl)
  obtain ⟨rfl, hkey, -⟩ := noteArrives_handed hstep.2 hnb
  have hsigner : signerOf primitives (link.session side).tables (owned 1) note =
      some (.owner (key 1)) := by
    simp [signerOf, registeredOwner, note, signed, hkey, Option.filter, hash_key]
  refine ⟨.inl ?_, ⟨_, hsigner, verify_signed _ _ _ _ _ _⟩, fun hpubk =>
    absurd hpubk (by decide), by decide⟩
  simp [Tables.hasOwnerPubkey, hkey]

/-- The note reaches the node that lacks it. -/
theorem sync_complete_note :
    published.getBlob (owned 1) noteHash = none ∧
    ((run (Link.step primitives) (noteSetting.start syncEnv) noteSession).session
      .initiator).tables.getBlob (owned 1) noteHash = some note := by
  have hreached : ∀ side, Reached primitives (noteSetting.tables side) := by
    rintro (_ | _)
    · exact reached_ownerEvents run_published
    · exact reached_ownerEvents run_noted
  refine ⟨by decide +kernel, ?_⟩
  exact sync_complete noteSetting syncEnv noteSession hreached
    (onlyOf_note.injOn (by decide +kernel))
    (onlyOf_note.unhindered (fun _ => rfl) (by decide +kernel)) (fun _ => rfl) not_skipped_note
    (Set.mem_singleton _) receptive_noteSession finished_noteSession .initiator
      (owned 1) noteHash note
    ⟨.responder, getBlob_insertBlob.trans (if_pos ⟨rfl, rfl⟩)⟩
      (onlyOf_note.not_targeted (by decide +kernel) _ _)

/-! ## A blob that comes before its PUBK -/

/-- A blob of the owner whose hash is smaller than that of its PUBK. -/
def early : BlobData := signed (key 1) (owned 1) (owned 1) [1, 2, 3] 0 2999999

theorem run_nothing : (run (Node.step primitives) {} (ownerEvents [])).tables = {} :=
  rfl

theorem run_early :
    (run (Node.step primitives) {} (ownerEvents [pubk 1 (owned 1) 3000000, early])).tables =
      published.insertBlob primitives (owned 1) early := by
  decide +kernel

theorem sound_early : ∀ side : Side, SyncSound primitives (match side with
    | .initiator => {}
    | .responder => published.insertBlob primitives (owned 1) early) := by
  rintro (_ | _)
  · exact sound_ownerEvents run_nothing (by decide)
  · exact sound_ownerEvents run_early (by decide +kernel)

/-- An empty node and one with the PUBK and the early blob. -/
def earlySetting : Setting primitives where
  tables
    | .initiator => {}
    | .responder => published.insertBlob primitives (owned 1) early
  peerHash
    | .initiator => owned 8
    | .responder => owned 7
  envs _ := {syncEnv}
  shared _ := true
  codec := getBlob_finishBlob
  sound := sound_early
  isOpen := open_syncEnv
  noCollision ns envI henvI envR henvR := by
    have hnone : snapshotHashes envI {} ns = [] := by
      simp [snapshotHashes, collectNamespaceHashes, Tables.getHashesByNamespace, Tables.seqEntries]
    show NoCollision (snapshotHashes envI {} ns) _
    rw [hnone]
    exact fun p _ => distinguished_nil _ p.1 p.2

theorem onlyOf_early : OnlyOf earlySetting [pubk 1 (owned 1) 3000000, early] := by
  rintro ns hash blob ⟨_ | _, hblob⟩
  · exact absurd (mem_of_ownerEvents run_nothing hblob) List.not_mem_nil
  · exact mem_of_ownerEvents run_early hblob

/-- Both blobs are transferred, the early one first. -/
def earlySession : List LinkEvent :=
  firstTurns ++
    [.deliver .initiator syncEnv, .timeout .initiator syncEnv, .deliver .responder syncEnv]

theorem reads_earlySession : ∀ e ∈ earlySession, e.ReadsSample := by
  simp +contextual [earlySession, firstTurns, LinkEvent.ReadsSample, eq_comm]

theorem steps_earlySession :
    AllSteps (Link.step primitives) (fun link e =>
      settles link e = true) (earlySetting.start syncEnv)
      earlySession ∧
    ((run (Link.step primitives) (earlySetting.start syncEnv) earlySession).session
      .initiator).stage = .finished ∧
    ((run (Link.step primitives) (earlySetting.start syncEnv) earlySession).session
      .responder).stage = .finished ∧
    ((run (Link.step primitives) (earlySetting.start syncEnv) earlySession).session
      .initiator).tables.getBlob (owned 1) (contentHash primitives early) = none := by
  decide +kernel

/-- **A full resync can leave a blob behind**: it is transferred before the PUBK, `ingest` refuses
it, and the session ends without it. -/
theorem sync_drops_early_blob :
    (∀ side, Reached primitives (earlySetting.tables side)) ∧ earlySetting.Unhindered ∧
    (∀ ns, earlySetting.shared ns = true) ∧ (∀ side ns, ¬ earlySetting.Skipped side ns) ∧
    AllSteps (Link.step primitives) earlySetting.Smooth (earlySetting.start syncEnv) earlySession ∧
    (∀ side, ((run (Link.step primitives) (earlySetting.start syncEnv) earlySession).session
      side).stage = .finished) ∧
    (earlySetting.tables .responder).getBlob (owned 1) (contentHash primitives early) = some early ∧
    ¬ earlySetting.Targeted (owned 1) (contentHash primitives early) ∧
    ((run (Link.step primitives) (earlySetting.start syncEnv) earlySession).session
      .initiator).tables.getBlob (owned 1) (contentHash primitives early) = none := by
  obtain ⟨hsteps, hinitiator, hresponder, hmissing⟩ := steps_earlySession
  refine ⟨?_, onlyOf_early.unhindered (fun _ => rfl) (by decide +kernel), fun _ => rfl,
    not_skipped (fun _ => rfl) fun side => by cases side <;> decide,
    hsteps.imp fun link e he => smooth_of_settles (fun _ => rfl) (reads_earlySession e he), ?_, ?_,
    onlyOf_early.not_targeted (by decide +kernel) _ _, hmissing⟩
  · rintro (_ | _)
    · exact reached_ownerEvents run_nothing
    · exact reached_ownerEvents run_early
  · rintro (_ | _)
    · exact hinitiator
    · exact hresponder
  · exact getBlob_insertBlob.trans (if_pos ⟨rfl, rfl⟩)

end Sample

end Peer
