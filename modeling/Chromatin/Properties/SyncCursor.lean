import Chromatin.Properties.Deletion
import Chromatin.Properties.SyncTransfer

/-!
# What a sync cursor stands for

A session sets a cursor for every namespace the peer has announced once it reaches its end. It
reaches its end as well when the budget ran out, when the answer to a request did not come, and when
`ingest` refused what came, so the cursor can stand for blobs the node has not got
(`cursor_after_exhausted_budget`). `cursor_sound` says what it stands for in a session in which none
of that happens. -/

namespace Peer

open Infra Util Wire Storage Engine Sync

variable {nb : NamespacedBlob}

/-- A side hands the blob to `ingest` at this event, and `ingest` accepts it. -/
def Accepts (P : Primitives) (side : Side) (nb : NamespacedBlob) (link : Link) (e : LinkEvent) :
    Prop :=
  ∃ env, e = .deliver side env ∧ nb ∈ Setting.handed P link e side ∧
    isBlobExpired nb.blob env.engine.now = false ∧
    ∃ ack, (ingest P env.engine (link.session side).tables nb.targetNamespace nb.blob).2 =
      .done (.success ack)

/-- What each side has read of its surroundings in a run. -/
def readings (env : SyncEnv) (events : List LinkEvent) (side : Side) : Set SyncEnv :=
  {env' | .deliver side env' ∈ events ∨ .timeout side env' ∈ events ∨
    (side = .responder ∧ env' = env)}

namespace Setting

variable {P : Primitives} (S : Setting P)

/-- The same nodes with fewer surroundings. -/
def restrict (envs : Side → Set SyncEnv) (hsub : ∀ side, envs side ⊆ S.envs side) : Setting P where
  tables := S.tables
  peerHash := S.peerHash
  envs := envs
  shared := S.shared
  codec := S.codec
  sound := S.sound
  isOpen side env henv := S.isOpen side env (hsub side henv)
  noCollision ns envI henvI envR henvR :=
    S.noCollision ns envI (hsub _ henvI) envR (hsub _ henvR)

/-- A blob that arrives is accepted, or a tombstone blocks it, or it has expired, and it does not
delete a tombstone. -/
structure Welcome (env : Env) (t : Tables) (nb : NamespacedBlob) : Prop where
  outcome : isBlobExpired nb.blob env.now = true ∨
    (∃ ack, (ingest P env t nb.targetNamespace nb.blob).2 = .done (.success ack)) ∨
    t.hasTombstoneFor nb.targetNamespace (contentHash P nb.blob) = true
  keeps : ∀ target ∈ targetsOf nb.blob, ∀ blob, t.getBlob nb.targetNamespace target = some blob →
    isTombstone blob.data = false

/-- Nothing holds the session back, and every blob that arrives is welcome. -/
def Faithful (link : Link) (e : LinkEvent) : Prop :=
  S.Smooth link e ∧ ∀ side env, e = .deliver side env →
    ∀ nb ∈ handed P link e side, Welcome (P := P) env.engine (link.session side).tables nb

variable {S} {link : Link} {e : LinkEvent} {side : Side} {t : Tables} {ns hash : Hash32}
  {events : List LinkEvent}

/-- A faithful event clears no mark. -/
theorem StoreStep.mark (h : S.StoreStep link e side t) (hfaithful : S.Faithful link e)
    (hmark : (link.session side).tables.hasTombstoneFor ns hash = true) :
    t.hasTombstoneFor ns hash = true := by
  cases h with
  | same cursor _ => exact hmark
  | ingested hevent hknown hhanded =>
    rename_i env ns' hash' blob
    have hwelcome := hfaithful.2 side env hevent ⟨ns', blob⟩ (by rw [hhanded]; simp)
    rcases ingestOne_tables (P := P) env.engine
      ((link.session side).tables, (link.session side).stats) ⟨ns', blob⟩
        with hsame | ⟨result, hcommit⟩
    · rw [Session.ingested, hsame]
      exact hmark
    · refine (mark_committed hcommit fun hns target htarget blob' hblob' => ?_).mpr (.inl hmark)
      subst hns
      simp [isTombstoneFor, hwelcome.keeps target (mem_deletedBy.mp htarget).1 blob' hblob']

/-- What becomes of a blob a side has been handed. -/
def Accounted (S : Setting P) (start : Link) (events : List LinkEvent) (side : Side) (t : Tables)
    (nb : NamespacedBlob) : Prop :=
  Happened (Link.step P) (Accepts P side nb) start events ∨
    t.hasTombstoneFor nb.targetNamespace (contentHash P nb.blob) = true ∨
    ∃ env ∈ S.envs side, isBlobExpired nb.blob env.engine.now = true

/-- The history of a faithful session: the marks stay, and every blob that arrived is known and
accounted for. -/
structure Kept (S : Setting P) (start : Link) (events : List LinkEvent) (link : Link) : Prop where
  phase : S.Phase (history P start events) link
  marks : ∀ side ns hash, (S.tables side).hasTombstoneFor ns hash = true →
    (link.session side).tables.hasTombstoneFor ns hash = true
  known : ∀ side, ∀ nb ∈ history P start events side, ∃ hash,
    S.Known nb.targetNamespace hash nb.blob
  accounted : ∀ side, ∀ nb ∈ history P start events side,
    S.Accounted start events side (link.session side).tables nb

/-- A blob that has just arrived. -/
theorem StoreStep.handed_known (h : S.StoreStep link e side t)
    (hmem : nb ∈ handed P link e side) : ∃ hash, S.Known nb.targetNamespace hash nb.blob := by
  cases h with
  | same cursor hhanded =>
    rw [hhanded] at hmem
    exact absurd hmem List.not_mem_nil
  | ingested hevent hknown hhanded =>
    rw [hhanded] at hmem
    rw [List.mem_singleton.mp hmem]
    exact ⟨_, hknown⟩

/-- A known blob that one side lacks is the one the other side has. -/
theorem Known.unique {blob blob' : BlobData} (h : S.Known ns hash blob')
    (hblob : (S.tables side.other).getBlob ns hash = some blob)
    (hmissing : (S.tables side).getBlob ns hash = none) : blob' = blob := by
  obtain ⟨side', hside'⟩ := h
  have hother : side' = side.other := by
    by_contra hne
    have hsame : side' = side := by
      cases side' <;> cases side <;> simp_all [Side.other]
    rw [hsame, hmissing] at hside'
    exact absurd hside' (by simp)
  rw [hother, hblob] at hside'
  exact (Option.some.inj hside').symm

theorem mem_history_append {start : Link}
    (h : nb ∈ history P start (events ++ [e]) side) : nb ∈ history P start events side ∨
      nb ∈ handed P (run (Link.step P) start events) e side := by
  rw [history_append] at h
  exact h

theorem Kept.step {start : Link}
    (h : S.Kept start events (run (Link.step P) start events))
    (hfaithful : S.Faithful (run (Link.step P) start events) e) :
    S.Kept start (events ++ [e]) (run (Link.step P) start (events ++ [e])) := by
  set link := run (Link.step P) start events with hlink
  obtain ⟨hphase, hstore⟩ := h.phase.step hfaithful.1
  have hrun : run (Link.step P) start (events ++ [e]) = link.step P e := by
    rw [run_append, run_cons, run_nil]
  rw [hrun]
  refine ⟨?_, fun side ns hash hmark => ?_, fun side nb hnb => ?_, fun side nb hnb => ?_⟩
  · rw [history_append]
    exact hphase
  · exact (hstore side).mark hfaithful (h.marks side ns hash hmark)
  · rcases mem_history_append hnb with hold | hnew
    · exact h.known side nb hold
    · exact (hstore side).handed_known hnew
  · rcases mem_history_append hnb with hold | hnew
    · rcases h.accounted side nb hold with haccepted | hmark | hexpired
      · exact .inl (haccepted.append [e])
      · exact .inr (.inl ((hstore side).mark hfaithful hmark))
      · exact .inr (.inr hexpired)
    · cases e with
      | lost receiver => exact absurd hnew List.not_mem_nil
      | timeout receiver env => exact absurd hnew List.not_mem_nil
      | deliver receiver env =>
        obtain rfl : receiver = side := by
          by_contra hne
          simp [handed, hne] at hnew
        have henv : env ∈ S.envs receiver := hfaithful.1
        by_cases hexpired : isBlobExpired nb.blob env.engine.now = true
        · exact .inr (.inr ⟨env, henv, hexpired⟩)
        · rcases (hfaithful.2 receiver env rfl nb hnew).outcome with hout | haccepted | hmark
          · exact absurd hout hexpired
          · refine .inl (Happened.last ⟨env, rfl, hnew, ?_, haccepted⟩)
            exact Bool.eq_false_of_not_eq_true hexpired
          · exact .inr (.inl ((hstore receiver).mark hfaithful hmark))

theorem kept_run {env : SyncEnv} (henv : env ∈ S.envs .responder)
    (hall : AllSteps (Link.step P) S.Faithful (S.start env) events) :
    S.Kept (S.start env) events (run (Link.step P) (S.start env) events) := by
  have hnone (side : Side) : history P (S.start env) [] side = ∅ := by
    ext nb
    simp [history, Happened]
  refine run_induction (motive := fun events => S.Kept (S.start env) events
    (run (Link.step P) (S.start env) events)) ⟨.reconciling (reconciling_start henv), ?_, ?_, ?_⟩
    (fun before e h hfaithful => h.step hfaithful) hall
  · rintro (_ | _) ns hash hmark
    · exact hmark
    · exact hmark
  · intro side nb hnb
    simp [hnone] at hnb
  · intro side nb hnb
    simp [hnone] at hnb

/-- A faithful session with only the surroundings that were read. -/
theorem faithful_restrict {env : SyncEnv}
    (hsub : ∀ side, readings env events side ⊆ S.envs side)
    (hall : AllSteps (Link.step P) S.Faithful (S.start env) events) :
    AllSteps (Link.step P) (S.restrict (readings env events) hsub).Faithful
    (S.start env) events := by
  refine hall.imp fun link e he hfaithful => ⟨?_, hfaithful.2⟩
  cases e with
  | lost side => exact hfaithful.1
  | deliver side env' => exact .inl he
  | timeout side env' => exact ⟨.inr (.inl he), hfaithful.1.2⟩

end Setting

open Setting in
/-- **A cursor stands for what the peer had** when it announced its sequence number: in a session
nothing holds back, in which everything that arrives is accepted, blocked by a tombstone or expired,
a side that has set its cursors had every blob of the announced namespaces, or its `ingest` has
accepted it, or a tombstone blocks it, or it has expired by one of the clocks. -/
theorem cursor_sound {P : Primitives} (S : Setting P) (env : SyncEnv) (events : List LinkEvent)
    (hreadings : ∀ side, readings env events side ⊆ S.envs side)
    (hcap : ∀ side, ∀ env ∈ S.envs side, ∀ ns hash blob,
      (S.tables side).getBlob ns hash = some blob →
      shouldSkipForPeerCap blob.data.length env.advertisedBlobCap = false)
    (hskipped : ∀ side ns, S.Skipped side ns → ∀ hash blob,
      (S.tables side.other).getBlob ns hash = some blob →
      (∀ env' ∈ readings env events side.other, isBlobExpired blob env'.engine.now = false) →
        (S.tables side).hasBlob ns hash = true ∨ (S.tables side).hasTombstoneFor ns hash = true)
    (hall : AllSteps (Link.step P) S.Faithful (S.start env) events) (side : Side)
    (hfinished : ((run (Link.step P) (S.start env) events).session side).stage = .finished) :
    ∀ info ∈ S.announced side.other,
      (∃ cursor, ((run (Link.step P) (S.start env) events).session side).tables.getSyncCursor
          (S.peerHash side) info.namespaceId = some cursor ∧
        cursor.seqNum.toNat = info.latestSeqNum) ∧
      ∀ hash blob, (S.tables side.other).getBlob info.namespaceId hash = some blob →
        (S.tables side).hasBlob info.namespaceId hash = true ∨
        Happened (Link.step P) (Accepts P side ⟨info.namespaceId, blob⟩) (S.start env) events ∨
        ((run (Link.step P) (S.start env) events).session side).tables.hasTombstoneFor
          info.namespaceId hash = true ∨
        ∃ side' env', env' ∈ readings env events side' ∧
          isBlobExpired blob env'.engine.now = true := by
  intro info hinfo
  -- only what was read counts, so that an expired blob has expired by one of the clocks
  set R := S.restrict (readings env events) hreadings with hR
  have henv : env ∈ R.envs .responder := .inr (.inr ⟨rfl, rfl⟩)
  have hkept := kept_run henv (faithful_restrict hreadings hall)
  have hstart : R.start env = S.start env := rfl
  rw [hstart] at hkept
  set link := run (Link.step P) (S.start env) events with hlink
  have htransferring : R.Transferring (history P (S.start env) events) link := by
    cases hkept.phase with
    | transferring h => exact h
    | reconciling h => exact absurd hfinished (h.not_finished side)
  refine ⟨htransferring.cursors side hfinished info hinfo, fun hash blob hblob => ?_⟩
  by_cases hstored : (S.tables side).hasBlob info.namespaceId hash = true
  · exact .inl hstored
  by_cases hlive : ∀ env' ∈ readings env events side.other,
    isBlobExpired blob env'.engine.now = false
  · by_cases hskip : R.Skipped side info.namespaceId
    · obtain ⟨env', henv', hns⟩ := hskip
      have hmark := (hskipped side _ ⟨env', hreadings side henv', hns⟩ hash blob hblob
        hlive).resolve_left hstored
      exact .inr (.inr (.inl (hkept.marks side _ _ hmark)))
    · have hmissing : (S.tables side).getBlob info.namespaceId hash = none := by
        simpa [Tables.hasBlob] using hstored
      -- a blob that was wanted has arrived
      have hwanted : R.Wanted side info.namespaceId hash := by
        refine ⟨(List.mem_filter.mp hinfo).2,
          ⟨blob, hblob, fun env' henv' => ⟨hlive env' henv', ?_⟩⟩, hmissing, hskip⟩
        exact hcap side.other env' (hreadings _ henv') _ _ _ hblob
      obtain ⟨blob', hmem, hhash⟩ := htransferring.received (.inr hfinished) hwanted
      obtain rfl : blob' = blob := by
        obtain ⟨hash', hknown⟩ := hkept.known side _ hmem
        obtain rfl : hash = hash' := hhash.symm.trans hknown.hashed
        exact hknown.unique hblob hwanted.missing
      rcases hkept.accounted side _ hmem with haccepted | hmark | ⟨env', henv', hexpired⟩
      · exact .inr (.inl haccepted)
      · rw [hhash] at hmark
        exact .inr (.inr (.inl hmark))
      · exact .inr (.inr (.inr ⟨side, env', henv', hexpired⟩))
  · simp only [not_forall, Bool.not_eq_false] at hlive
    obtain ⟨env', henv', hexpired⟩ := hlive
    exact .inr (.inr (.inr ⟨side.other, env', henv', hexpired⟩))

/-! ## A session of two nodes of one owner -/

section Sample

open Wire.Sample

-- the list of the PUBK's bytes is as deep as it is long
set_option maxRecDepth 20000

def syncEnv : SyncEnv := { engine := sampleEnv }

theorem open_syncEnv : ∀ _ : Side, ∀ env ∈ ({syncEnv} : Set SyncEnv), Open (fun _ => true) env := by
  rintro _ env rfl
  exact ⟨fun ns => rfl, rfl, rfl⟩

/-- The tables after these calls, by evaluation. -/
theorem sound_ownerEvents {blobs : List BlobData} {t : Tables}
    (hrun : (run (Node.step primitives) {} (ownerEvents blobs)).tables = t)
    (h : (∀ event ∈ ownerEvents blobs, event.isCall = true) ∧
      (∀ blob ∈ blobsOf (ownerEvents blobs), contentHash primitives blob ≠ zeroHash ∧
        contentHash primitives blob ≠ maxHash ∧ (encodeBlob primitives blob).length < 2 ^ 32) ∧
      (∀ row ∈ t.seq.toList, row.2.toList.length < 2 ^ 32) ∧ t.listNamespaces.length < 2 ^ 32 ∧
      ∀ info ∈ t.listNamespaces, info.latestSeqNum < 2 ^ 64) : SyncSound primitives t := by
  obtain ⟨hscan, hblobs, hrows, hnamespaces, hseq⟩ := h
  exact syncSound_run hrun hscan (fun blob ⟨_, _, hcall⟩ => hblobs blob (mem_blobsOf hcall)) hrows
    hnamespaces hseq

theorem mem_of_ownerEvents {blobs : List BlobData} {t : Tables} {ns hash : Hash32} {blob : BlobData}
    (hrun : (run (Node.step primitives) {} (ownerEvents blobs)).tables = t)
    (h : t.getBlob ns hash = some blob) : blob ∈ blobsOf (ownerEvents blobs) := by
  subst hrun
  obtain ⟨⟨_, _, hcall⟩, -⟩ := (catalogued_run _).listed ns hash blob h
  exact mem_blobsOf hcall

theorem run_published :
    (run (Node.step primitives) {} (ownerEvents [pubk 1 (owned 1) 3000000])).tables =
        published := by
  decide +kernel

theorem run_noted :
    (run (Node.step primitives) {} (ownerEvents [pubk 1 (owned 1) 3000000, note])).tables =
        noted := by
  decide +kernel

theorem noCollision_noted (ns : Hash32) :
    NoCollision (snapshotHashes syncEnv published ns) (snapshotHashes syncEnv noted ns) := by
  by_cases hns : ns = owned 1
  · subst hns
    have hall : (comparedRanges (snapshotHashes syncEnv noted (owned 1))
        (snapshotHashes syncEnv published (owned 1)) MAX_RECONCILE_ROUNDS
        [initRange (snapshotHashes syncEnv published (owned 1))]).all (fun p =>
        decide (Distinguished
          (snapshotHashes syncEnv published (owned 1))
          (snapshotHashes syncEnv noted (owned 1)) p.1 p.2)) =
        true := by
      decide +kernel
    exact fun p hp => of_decide_eq_true (List.all_eq_true.mp hall p hp)
  · have hI : snapshotHashes syncEnv published ns = [] := by
      simp [snapshotHashes, collectNamespaceHashes, Tables.getHashesByNamespace,
        Tables.seqEntries, published, Tables.insertBlob, insert₂, Ne.symm hns]
    rw [hI]
    exact fun p _ => distinguished_nil _ p.1 p.2

/-- The initiator lacks the owner's note. -/
def noteSetting : Setting primitives where
  tables
    | .initiator => published
    | .responder => noted
  peerHash
    | .initiator => owned 8
    | .responder => owned 7
  envs _ := {syncEnv}
  shared _ := true
  codec := getBlob_finishBlob
  sound
    | .initiator => sound_ownerEvents run_published (by decide +kernel)
    | .responder => sound_ownerEvents run_noted (by decide +kernel)
  isOpen := open_syncEnv
  noCollision ns envI henvI envR henvR := by
    obtain rfl := Set.mem_singleton_iff.mp henvI
    obtain rfl := Set.mem_singleton_iff.mp henvR
    exact noCollision_noted ns

/-- The turns up to the first blob that arrives. -/
def firstTurns : List LinkEvent :=
  [Side.initiator, .initiator, .responder, .responder, .initiator, .responder, .responder,
    .responder, .initiator].map (.deliver · syncEnv)

/-- A session in which the note is transferred. -/
def noteSession : List LinkEvent :=
  firstTurns ++ [.timeout .initiator syncEnv, .deliver .responder syncEnv]

/-- No connection is lost, and a wait times out when both sides only serve. -/
def settles (link : Link) : LinkEvent → Bool
  | .deliver _ _ => true
  | .timeout side _ =>
    (link.session side).stage = .remaining && (link.session side.other).stage = .remaining
  | .lost _ => false

/-- All that is read at the event is the sample's surroundings. -/
def LinkEvent.ReadsSample (e : LinkEvent) : Prop :=
  ∀ side env, e = .deliver side env ∨ e = .timeout side env → env = syncEnv

theorem smooth_of_settles {S : Setting primitives}
    (henvs : ∀ side, S.envs side = {syncEnv}) {link : Link}
    {e : LinkEvent} (hreads : e.ReadsSample) (h : settles link e = true) : S.Smooth link e := by
  have henv {side : Side} {env : SyncEnv} (he : e = .deliver side env ∨ e = .timeout side env) :
      env ∈ S.envs side := by
    rw [henvs]
    exact hreads side env he
  cases e with
  | deliver side env => exact henv (.inl rfl)
  | timeout side env =>
    simp only [settles, Bool.and_eq_true, decide_eq_true_eq] at h
    exact ⟨henv (.inr rfl), h.1, .inl h.2⟩
  | lost side => exact absurd h (by simp [settles])

/-- Nothing arrives at this event, or the note does where its owner's key is registered. -/
def noteArrives (link : Link) : LinkEvent → Bool
  | .deliver side _ =>
    Setting.handed primitives link (.deliver side syncEnv) side = [] ||
      Setting.handed primitives link (.deliver side syncEnv) side = [⟨owned 1, note⟩] &&
        (link.session side).tables.getOwnerPubkey (owned 1) = some (key 1) &&
        (ingest primitives sampleEnv (link.session side).tables (owned 1) note).2 =
          .done (.success { blobHash := noteHash, seqNum := 2 })
  | _ => true

theorem steps_noteSession :
    AllSteps (Link.step primitives) (fun link e => settles link e = true ∧
      noteArrives link e = true)
      (noteSetting.start syncEnv) noteSession ∧
    ((run (Link.step primitives) (noteSetting.start syncEnv) noteSession).session
      .initiator).stage = .finished ∧
    ((run (Link.step primitives) (noteSetting.start syncEnv) noteSession).session
      .responder).stage = .finished := by
  decide +kernel

theorem finished_noteSession (side : Side) :
    ((run (Link.step primitives) (noteSetting.start syncEnv) noteSession).session side).stage =
        .finished := by
  cases side with
  | initiator => exact steps_noteSession.2.1
  | responder => exact steps_noteSession.2.2

theorem reads_noteSession : ∀ e ∈ noteSession, e.ReadsSample := by
  simp +contextual [noteSession, firstTurns, LinkEvent.ReadsSample, eq_comm]

theorem noteArrives_handed {link : Link} {side : Side}
    (h : noteArrives link (.deliver side syncEnv) = true)
    (hnb : nb ∈ Setting.handed primitives link (.deliver side syncEnv) side) :
    nb = ⟨owned 1, note⟩ ∧ (link.session side).tables.getOwnerPubkey (owned 1) = some (key 1) ∧
      (ingest primitives sampleEnv (link.session side).tables (owned 1) note).2 =
        .done (.success { blobHash := noteHash, seqNum := 2 }) := by
  simp only [noteArrives, Bool.or_eq_true, Bool.and_eq_true, decide_eq_true_eq] at h
  rcases h with hnone | ⟨⟨hnote, hkey⟩, hingest⟩
  · rw [hnone] at hnb
    exact absurd hnb List.not_mem_nil
  · rw [hnote] at hnb
    exact ⟨List.mem_singleton.mp hnb, hkey, hingest⟩

theorem faithful_noteSession : AllSteps (Link.step primitives) noteSetting.Faithful
    (noteSetting.start syncEnv) noteSession := by
  refine steps_noteSession.1.imp fun link e he hstep =>
    ⟨smooth_of_settles (fun _ => rfl) (reads_noteSession e he) hstep.1, ?_⟩
  rintro side env rfl nb hnb
  obtain rfl := reads_noteSession _ he side env (.inl rfl)
  obtain ⟨rfl, -, hingest⟩ := noteArrives_handed hstep.2 hnb
  refine ⟨.inr (.inl ⟨_, hingest⟩), fun target htarget => ?_⟩
  have hnone : targetsOf note = [] := by decide
  rw [hnone] at htarget
  exact absurd htarget List.not_mem_nil

/-- No cursor is where the other side is. -/
theorem not_skipped {S : Setting primitives} (henvs : ∀ side, S.envs side = {syncEnv})
    (h : ∀ side, (cursorDecisions syncEnv (S.tables side) (S.peerHash side)
      (S.announced side.other)).2 = []) (side : Side) (ns : Hash32) : ¬ S.Skipped side ns := by
  rintro ⟨env, henv, hns⟩
  rw [henvs] at henv
  obtain rfl := Set.mem_singleton_iff.mp henv
  rw [h] at hns
  exact absurd hns List.not_mem_nil

theorem not_skipped_note : ∀ side ns, ¬ noteSetting.Skipped side ns :=
  not_skipped (fun _ => rfl) fun side => by cases side <;> decide

theorem cap_note (side : Side) : ∀ env ∈ noteSetting.envs side, ∀ ns hash blob,
    (noteSetting.tables side).getBlob ns hash = some blob →
      shouldSkipForPeerCap blob.data.length env.advertisedBlobCap = false := by
  intro env henv ns hash blob _
  obtain rfl := Set.mem_singleton_iff.mp henv
  rfl

theorem readings_note (side : Side) :
    readings syncEnv noteSession side ⊆ noteSetting.envs side := by
  rintro env (hmem | hmem | ⟨-, rfl⟩)
  · exact reads_noteSession _ hmem side env (.inl rfl)
  · exact reads_noteSession _ hmem side env (.inr rfl)
  · rfl

/-- The note reaches the initiator, which then has a cursor where the responder was. -/
theorem cursor_sound_note :
    ((run (Link.step primitives) (noteSetting.start syncEnv) noteSession).session
      .initiator).stage =
      .finished ∧
    noted.getBlob (owned 1) noteHash = some note ∧
    (published.hasBlob (owned 1) noteHash = true ∨
      Happened (Link.step primitives) (Accepts primitives .initiator ⟨owned 1, note⟩)
        (noteSetting.start syncEnv) noteSession ∨
      ((run (Link.step primitives) (noteSetting.start syncEnv) noteSession).session
        .initiator).tables.hasTombstoneFor (owned 1) noteHash = true ∨
      ∃ side env, env ∈ readings syncEnv noteSession side ∧
        isBlobExpired note env.engine.now = true) := by
  have hinfo : ⟨owned 1, 2⟩ ∈ noteSetting.announced .responder := by decide
  have hnote : noted.getBlob (owned 1) noteHash = some note :=
    getBlob_insertBlob.trans (if_pos ⟨rfl, rfl⟩)
  exact ⟨finished_noteSession .initiator, hnote,
    (cursor_sound noteSetting syncEnv noteSession readings_note cap_note
    (fun side ns h => absurd h (not_skipped_note side ns)) faithful_noteSession .initiator
    (finished_noteSession .initiator) ⟨owned 1, 2⟩ hinfo).2 noteHash note hnote⟩

/-! ## An exhausted budget -/

/-- The bucket of the peer is empty when its namespace list arrives. -/
def exhaustedSession : List LinkEvent :=
  [.deliver .initiator syncEnv, .deliver .initiator { syncEnv with budgetExhausted := true },
    .timeout .initiator syncEnv]

def exhaustedStart : Link := Link.start syncEnv {} published (owned 7) (owned 8)

/-- **The cursor is set for a blob that was never requested**: an empty node whose budget is used
up asks the peer for nothing, and still records that it is where the peer is. -/
theorem cursor_after_exhausted_budget :
    (∃ hash, published.getBlob (owned 1) hash = some (pubk 1 (owned 1) 3000000) ∧
      isBlobExpired (pubk 1 (owned 1) 3000000) 3000000 = false ∧
      ((run (Link.step primitives) exhaustedStart exhaustedSession).session
        .initiator).tables.hasBlob (owned 1) hash = false ∧
      ((run (Link.step primitives) exhaustedStart exhaustedSession).session
        .initiator).tables.hasTombstoneFor (owned 1) hash = false) ∧
    published.listNamespaces = [⟨owned 1, 1⟩] ∧
    (((run (Link.step primitives) exhaustedStart exhaustedSession).session
      .initiator).tables.getSyncCursor (owned 8) (owned 1)).map SyncCursor.seqNum = some 1 ∧
    ∀ nb, ¬ Happened (Link.step primitives) (Accepts primitives .initiator nb) exhaustedStart
      exhaustedSession := by
  refine ⟨⟨contentHash primitives (pubk 1 (owned 1) 3000000), ?_, ?_, ?_, ?_⟩, ?_, ?_, ?_⟩
  case refine_7 =>
    intro nb
    have hquiet {link : Link} {e : LinkEvent}
        (h : Setting.handed primitives link e .initiator = []) :
        ¬ Accepts primitives .initiator nb link e := by
      rintro ⟨env, -, hmem, -⟩
      rw [h] at hmem
      exact absurd hmem List.not_mem_nil
    simp only [exhaustedSession, happened_cons, not_happened_nil, or_false, not_or]
    refine ⟨hquiet ?_, hquiet ?_, hquiet ?_⟩
    all_goals decide
  all_goals decide +kernel

end Sample

end Peer
