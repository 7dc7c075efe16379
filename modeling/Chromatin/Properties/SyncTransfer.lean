import Chromatin.Properties.Authorization
import Chromatin.Properties.SyncSession

/-!
# A session that nothing holds back: phase C

Both sides request what they miss, batch by batch, while they serve what the other side misses.

* `Pull` relates the stage of a side to the requests and transfers that are on their way.
* `Transferring` is the invariant of phase C, `Transferring.step` the step: a side that has finished
  has been handed every blob it wanted (`Transferring.received`).
-/

namespace Peer

open Infra Util Wire Storage Engine Sync

variable {type : TransportMsgType}

/-! ## Batches -/

section Batches

variable {missing batch : List Hash32} {ns hash : Hash32}
  {missingPerNs : Table Hash32 (List Hash32)}

theorem mem_batchesOf (h : hash ∈ missing) : ∃ batch ∈ Session.batchesOf missing, hash ∈ batch := by
  obtain ⟨i, hi, rfl⟩ := List.mem_iff_getElem.mp h
  refine ⟨_, List.mem_map_of_mem (List.mem_range.mpr (?_ : i / 64 < _)), ?_⟩
  · simp only [Session.MAX_HASHES_PER_REQUEST]
    omega
  · refine List.mem_of_getElem? (i := i % 64) ?_
    have hindex : i / 64 * 64 + i % 64 = i := by omega
    simp only [Session.MAX_HASHES_PER_REQUEST]
    rw [List.getElem?_take_of_lt (Nat.mod_lt i (by decide)), List.getElem?_drop, hindex,
      List.getElem?_eq_getElem hi]

theorem batch_bounds (h : batch ∈ Session.batchesOf missing) : batch ≠ [] ∧ batch.length ≤ 64 := by
  obtain ⟨i, hi, rfl⟩ := List.mem_map.mp h
  simp only [Session.MAX_HASHES_PER_REQUEST, List.mem_range] at hi ⊢
  have hlength : ((missing.drop (i * 64)).take 64).length = min 64 (missing.length - i * 64) := by
    simp
  refine ⟨fun hempty => ?_, by omega⟩
  rw [hempty, List.length_nil] at hlength
  omega

theorem mem_requests (hentry : missingPerNs[ns]? = some missing) (hhash : hash ∈ missing) :
    ∃ batch, (ns, batch) ∈ Session.requests missingPerNs ∧ hash ∈ batch := by
  obtain ⟨batch, hbatch, hmem⟩ := mem_batchesOf hhash
  refine ⟨batch, List.mem_flatMap.mpr ⟨(ns, missing), ?_, List.mem_map_of_mem hbatch⟩, hmem⟩
  exact Std.ExtTreeMap.mem_toList_iff_getElem?_eq_some.mpr hentry

theorem requests_bounds (h : (ns, batch) ∈ Session.requests missingPerNs) :
    batch ≠ [] ∧ batch.length ≤ 64 := by
  obtain ⟨entry, -, hmem⟩ := List.mem_flatMap.mp h
  obtain ⟨batch', hbatch, heq⟩ := List.mem_map.mp hmem
  obtain ⟨-, rfl⟩ := Prod.mk.inj heq
  exact batch_bounds hbatch

end Batches

/-! ## Messages of phase C -/

def requestMessage (ns : Hash32) (batch : List Hash32) : SyncMessage :=
  ⟨.blobRequest, encodeBlobRequest ns batch⟩

def transferMessage (P : Primitives) (ns : Hash32) (blob : BlobData) : SyncMessage :=
  ⟨.blobTransfer, encodeSingleBlobTransfer P ns blob⟩

/-- The messages of a type that are on their way. -/
def ofType (type : TransportMsgType) (inbox : List SyncMessage) : List SyncMessage :=
  inbox.filter fun msg => msg.type = type

@[simp] theorem ofType_append (type : TransportMsgType) (a b : List SyncMessage) :
    ofType type (a ++ b) = ofType type a ++ ofType type b :=
  List.filter_append a b

theorem ofType_cons_pos {msg : SyncMessage} {inbox : List SyncMessage}
    (h : msg.type = type) : ofType type (msg :: inbox) = msg :: ofType type inbox :=
  List.filter_cons_of_pos (by simp [h])

theorem ofType_cons_neg {msg : SyncMessage} {inbox : List SyncMessage}
    (h : msg.type ≠ type) : ofType type (msg :: inbox) = ofType type inbox :=
  List.filter_cons_of_neg (by simp [h])

theorem ofType_eq_nil {inbox : List SyncMessage}
    (h : ∀ msg ∈ inbox, msg.type ≠ type) : ofType type inbox = [] :=
  List.filter_eq_nil_iff.mpr fun msg hmsg => by simp [h msg hmsg]

theorem ofType_eq_self {inbox : List SyncMessage}
    (h : ∀ msg ∈ inbox, msg.type = type) : ofType type inbox = inbox :=
  List.filter_eq_self.mpr fun msg hmsg => by simp [h msg hmsg]

theorem Side.forall_iff {p : Side → Prop} (side : Side) :
    (∀ side, p side) ↔ p side ∧ p side.other := by
  constructor
  · exact fun h => ⟨h side, h side.other⟩
  · rintro ⟨hself, hother⟩ (_ | _)
    all_goals
      cases side
      · first | exact hself | exact hother
      · first | exact hself | exact hother

/-- A session after a blob has been handed to `ingest`. -/
def Session.ingested (P : Primitives) (env : SyncEnv) (s : Session) (nb : NamespacedBlob) :
    Session :=
  { s with
    tables := (ingestOne P env.engine (s.tables, s.stats) nb).1
    stats := (ingestOne P env.engine (s.tables, s.stats) nb).2 }

theorem recv_transferMessage {P : Primitives} {s : Session} {expected received : Nat}
    {rest : List (Hash32 × List Hash32)} (hstage : s.stage = .transfer expected received rest)
    (hcodec : ∀ fb, P.getBlob (P.finishBlob fb) = some fb) (env : SyncEnv) (ns : Hash32)
    {blob : BlobData} (hlen : (encodeBlob P blob).length < 2 ^ 32) :
    s.recv P env (some (transferMessage P ns blob)) =
      if received + 1 < expected then
        ({ s.ingested P env ⟨ns, blob⟩ with stage := .transfer expected (received + 1) rest }, [])
      else (s.ingested P env ⟨ns, blob⟩).nextBatch rest := by
  simp only [Session.recv, hstage, Session.transferring, transferMessage]
  simp only [decodeBlobTransfer_encodeSingle hcodec ns hlen, ingestBlobs, List.foldl_cons,
    List.foldl_nil]
  rfl

namespace Setting

variable {P : Primitives} (S : Setting P)

/-! ## Where blobs come from -/

/-- One of the nodes had the blob before the session. -/
def Known (ns hash : Hash32) (blob : BlobData) : Prop :=
  ∃ side, (S.tables side).getBlob ns hash = some blob

/-- The tables hold nothing but known blobs. -/
def Origin (t : Tables) : Prop :=
  ∀ ns hash blob, t.getBlob ns hash = some blob → S.Known ns hash blob

variable {S} {t : Tables} {ns hash : Hash32} {blob : BlobData} {env : SyncEnv} {side : Side}

theorem Known.hashed (h : S.Known ns hash blob) : contentHash P blob = hash := by
  obtain ⟨side, hblob⟩ := h
  exact (S.sound side).hashed ns hash blob hblob

theorem Known.size (h : S.Known ns hash blob) : (encodeBlob P blob).length < 2 ^ 32 := by
  obtain ⟨side, hblob⟩ := h
  exact (S.sound side).size ns hash blob hblob

theorem ingestOne_tables (env : Env) (state : Tables × SyncStats) (nb : NamespacedBlob) :
    (ingestOne P env state nb).1 = state.1 ∨
      ∃ result, Committed P env state.1 nb.targetNamespace nb.blob
        (ingestOne P env state nb).1 result := by
  have htables : (ingestOne P env state nb).1 = state.1 ∨
      (ingestOne P env state nb).1 = (ingest P env state.1 nb.targetNamespace nb.blob).1 := by
    unfold ingestOne
    split_ifs
    · exact .inl rfl
    · split <;> simp_all
  rcases htables with h | h
  · exact .inl h
  · rw [h]
    exact ingest_tables P env state.1 nb.targetNamespace nb.blob

/-- Ingesting a known blob leaves only known blobs. -/
theorem Origin.ingestOne (h : S.Origin t) {stats : SyncStats} (hknown : S.Known ns hash blob)
    (env : Env) : S.Origin (Sync.ingestOne P env (t, stats) ⟨ns, blob⟩).1 := by
  intro ns' hash' blob' hblob
  rcases ingestOne_tables (P := P) env (t, stats) ⟨ns, blob⟩ with hsame | ⟨result, hcommit⟩
  · rw [hsame] at hblob
    exact h ns' hash' blob' hblob
  · rcases getBlob_committed hcommit hblob with hold | ⟨rfl, rfl, hhash, -, -⟩
    · exact h ns' hash' blob' hold
    · rw [← hhash, hknown.hashed]
      exact hknown

/-- **Serving a batch**: the blobs of the batch that are stored and alive, in its order. -/
theorem serve_request (horigin : S.Origin t) (env : SyncEnv) (ns : Hash32) {batch : List Hash32}
    (hlen : batch.length ≤ 64) :
    ∃ blobs : List BlobData,
      Session.serve P env t (encodeBlobRequest ns batch) = blobs.map (transferMessage P ns) ∧
      (blobs.map (contentHash P)).Sublist batch ∧
      ∀ blob ∈ blobs, S.Known ns (contentHash P blob) blob := by
  simp only [Session.serve, decodeBlobRequest_encode ns (show batch.length < 2 ^ 32 by omega)]
  clear hlen
  induction batch with
  | nil => exact ⟨[], rfl, .slnil, by simp⟩
  | cons hash rest ih =>
    obtain ⟨blobs, hserve, hsublist, hknown⟩ := ih
    rw [List.filterMap_cons]
    cases hblob : t.getBlob ns hash with
    | none => exact ⟨blobs, hserve, hsublist.cons hash, hknown⟩
    | some blob =>
      have hfirst := horigin ns hash blob hblob
      dsimp only
      split_ifs
      · exact ⟨blobs, hserve, hsublist.cons hash, hknown⟩
      · refine ⟨blob :: blobs, by rw [hserve]; rfl, ?_, ?_⟩
        · rw [List.map_cons, hfirst.hashed]
          exact hsublist.cons_cons hash
        · intro blob' hmem
          rcases List.mem_cons.mp hmem with rfl | hmem
          · rw [hfirst.hashed]
            exact hfirst
          · exact hknown blob' hmem

/-! ## What is on its way to a side -/

/-- A blob with the hash has been handed to `ingest`. -/
def Received (P : Primitives) (got : Set NamespacedBlob) (ns hash : Hash32) : Prop :=
  ∃ blob, ⟨ns, blob⟩ ∈ got ∧ contentHash P blob = hash

/-- Every wanted blob has been received or is in one of the batches to come. -/
def Owed (S : Setting P) (side : Side) (got : Set NamespacedBlob)
    (batches : List (Hash32 × List Hash32)) : Prop :=
  ∀ ns hash, S.Wanted side ns hash →
    Received P got ns hash ∨ ∃ batch, (ns, batch) ∈ batches ∧ hash ∈ batch

def Bounded (batches : List (Hash32 × List Hash32)) : Prop :=
  ∀ ns batch, (ns, batch) ∈ batches → batch ≠ [] ∧ batch.length ≤ 64

/-- The other side has answered the request for a batch: the blobs that have been handed to `ingest`
and those that are on their way. -/
structure Serving (S : Setting P) (side : Side) (got : Set NamespacedBlob) (ns : Hash32)
    (batch : List Hash32) (rest : List (Hash32 × List Hash32)) (handled coming : List BlobData) :
    Prop where
  bounds : Bounded rest
  owed : S.Owed side got ((ns, batch) :: rest)
  sublist : ((handled ++ coming).map (contentHash P)).Sublist batch
  received : ∀ blob ∈ handled, ⟨ns, blob⟩ ∈ got
  known : ∀ blob ∈ coming, S.Known ns (contentHash P blob) blob

/-- The stage of a side in phase C, its requests that have not been read, and the transfers it has
not read: the batch is requested, it is being answered, or there is nothing left to request. -/
inductive Pull (S : Setting P) (side : Side) (got : Set NamespacedBlob) :
    Stage → List SyncMessage → List SyncMessage → Prop
  | requested {ns : Hash32} {batch : List Hash32} {rest : List (Hash32 × List Hash32)}
    (hbounds : Bounded ((ns, batch) :: rest)) (howed : S.Owed side got ((ns, batch) :: rest)) :
    Pull S side got (.transfer batch.length 0 rest) [requestMessage ns batch] []
  | served {ns : Hash32} {batch : List Hash32} {rest : List (Hash32 × List Hash32)}
    {handled coming : List BlobData} (h : S.Serving side got ns batch rest handled coming) :
    Pull S side got (.transfer batch.length handled.length rest) []
      (coming.map (transferMessage P ns))
  | ended {stage : Stage} (hsettled : stage.Settled) (howed : S.Owed side got []) :
    Pull S side got stage [] []

variable {got : Set NamespacedBlob} {stage : Stage} {requests transfers : List SyncMessage}
  {got' : Set NamespacedBlob} {e : LinkEvent}

theorem Owed.mono {batches : List (Hash32 × List Hash32)}
    (h : S.Owed side got batches) (hsub : got ⊆ got') : S.Owed side got' batches := by
  intro ns hash hwanted
  rcases h ns hash hwanted with ⟨blob, hgot, hhash⟩ | hbatch
  · exact .inl ⟨blob, hsub hgot, hhash⟩
  · exact .inr hbatch

theorem Serving.mono {batch : List Hash32}
    {rest : List (Hash32 × List Hash32)} {handled coming : List BlobData}
    (h : S.Serving side got ns batch rest handled coming) (hsub : got ⊆ got') :
    S.Serving side got' ns batch rest handled coming :=
  ⟨h.bounds, h.owed.mono hsub, h.sublist, fun blob hmem => hsub (h.received blob hmem), h.known⟩

theorem Pull.mono (h : S.Pull side got stage requests transfers)
    (hsub : got ⊆ got') : S.Pull side got' stage requests transfers := by
  cases h with
  | requested hbounds howed => exact .requested hbounds (howed.mono hsub)
  | served h => exact .served (h.mono hsub)
  | ended hsettled howed => exact .ended hsettled (howed.mono hsub)

/-- A side that has nothing left to request has no request on its way. -/
theorem Pull.settled (h : S.Pull side got stage requests transfers) (hsettled : stage.Settled) :
    requests = [] ∧ S.Owed side got [] := by
  cases h with
  | requested _ _ => simp [Stage.Settled] at hsettled
  | served _ => simp [Stage.Settled] at hsettled
  | ended _ howed => exact ⟨rfl, howed⟩

theorem pull_nextBatch {batches : List (Hash32 × List Hash32)} (s : Session)
    (hbounds : Bounded batches) (howed : S.Owed side got batches) :
    S.Pull side got (s.nextBatch batches).1.stage (s.nextBatch batches).2 [] := by
  cases batches with
  | nil => exact .ended (.inl rfl) howed
  | cons batch rest => exact .requested hbounds howed

section Serving

variable {batch : List Hash32} {rest : List (Hash32 × List Hash32)} {handled coming : List BlobData}

/-- The next blob of the batch is handed to `ingest`. -/
theorem Serving.next (h : S.Serving side got ns batch rest handled (blob :: coming))
    (hgot : ⟨ns, blob⟩ ∈ got) : S.Serving side got ns batch rest (handled ++ [blob]) coming where
  bounds := h.bounds
  owed := h.owed
  sublist := by simpa using h.sublist
  received blob' hmem := by
    rcases List.mem_append.mp hmem with hmem | hmem
    · exact h.received blob' hmem
    · rw [List.mem_singleton.mp hmem]
      exact hgot
  known blob' hmem := h.known blob' (List.mem_cons_of_mem _ hmem)

/-- **The batch is complete** once as many blobs have been handed over as were expected. -/
theorem Serving.complete (h : S.Serving side got ns batch rest handled coming)
    (hlen : batch.length ≤ handled.length) : coming = [] ∧ S.Owed side got rest := by
  have heq := h.sublist.eq_of_length_le (by simp; omega)
  have hcoming : coming = [] := by
    have hlength := congrArg List.length heq
    rw [List.length_map, List.length_append] at hlength
    exact List.length_eq_zero_iff.mp (by omega)
  refine ⟨hcoming, fun ns' hash hwanted => ?_⟩
  rcases h.owed ns' hash hwanted with hreceived | ⟨batch', hbatch, hhash⟩
  · exact .inl hreceived
  · rcases List.mem_cons.mp hbatch with hfirst | hrest
    · -- a hash of the batch is that of one of the blobs that were handed over
      obtain ⟨rfl, rfl⟩ := Prod.mk.inj hfirst
      rw [← heq, hcoming, List.append_nil] at hhash
      obtain ⟨blob, hblob, rfl⟩ := List.mem_map.mp hhash
      exact .inl ⟨blob, h.received blob hblob, rfl⟩
    · exact .inr ⟨batch', hrest, hhash⟩

end Serving

/-! ## The invariant of phase C -/

/-- What phase C does not change of a session, and where its blobs come from. -/
structure Member (S : Setting P) (side : Side) (s : Session) : Prop where
  role : s.side = side
  peerHash : s.peerHash = S.peerHash side
  peers : s.peerNamespaces = S.announced side.other
  origin : S.Origin s.tables

/-- A cursor is set for every namespace the other side has announced, where that side was. -/
def CursorsSet (S : Setting P) (side : Side) (t : Tables) : Prop :=
  ∀ info ∈ S.announced side.other, ∃ cursor,
    t.getSyncCursor (S.peerHash side) info.namespaceId = some cursor ∧
      cursor.seqNum.toNat = info.latestSeqNum

/-- **Phase C.** -/
structure Transferring (S : Setting P) (got : Side → Set NamespacedBlob) (link : Link) : Prop where
  member : ∀ side, S.Member side (link.session side)
  pull : ∀ side, S.Pull side (got side) (link.session side).stage
    (ofType .blobRequest (link.inbox side.other)) (ofType .blobTransfer (link.inbox side))
  types : ∀ side, ∀ msg ∈ link.inbox side,
    msg.type = .blobRequest ∨ msg.type = .blobTransfer ∨ msg.type = .peerListRequest
  closing : ∀ side, ∀ msg ∈ link.inbox side, msg.type = .peerListRequest →
    (link.session side.other).stage = .finished
  finished : ∀ side, (link.session side).stage = .finished →
    (link.session side.other).stage.Settled
  cursors : ∀ side, (link.session side).stage = .finished →
    S.CursorsSet side (link.session side).tables

/-- A side that has nothing left to request has been handed every blob it wanted. -/
theorem Transferring.received {got : Side → Set NamespacedBlob} {link : Link}
    (h : S.Transferring got link) (hsettled : (link.session side).stage.Settled)
    (hwanted : S.Wanted side ns hash) : Received P (got side) ns hash := by
  rcases ((h.pull side).settled hsettled).2 ns hash hwanted with hreceived | ⟨batch, hbatch, -⟩
  · exact hreceived
  · exact absurd hbatch List.not_mem_nil

/-! ## The step of phase C -/

theorem Pull.request_head {msg : SyncMessage}
    (h : S.Pull side got stage (msg :: requests) transfers) :
    ∃ ns batch rest, stage = .transfer batch.length 0 rest ∧ msg = requestMessage ns batch ∧
      requests = [] ∧ transfers = [] ∧ Bounded ((ns, batch) :: rest) ∧
      S.Owed side got ((ns, batch) :: rest) := by
  cases h with
  | requested hbounds howed => exact ⟨_, _, _, rfl, rfl, rfl, rfl, hbounds, howed⟩

theorem Pull.transfer_head {msg : SyncMessage}
    (h : S.Pull side got stage requests (msg :: transfers)) :
    ∃ ns batch rest handled blob coming, stage = .transfer batch.length handled.length rest ∧
      requests = [] ∧ msg = transferMessage P ns blob ∧
      transfers = coming.map (transferMessage P ns) ∧
      S.Serving side got ns batch rest handled (blob :: coming) := by
  generalize hlist : msg :: transfers = list at h
  cases h with
  | requested _ _ => simp at hlist
  | ended _ _ => simp at hlist
  | served h =>
    obtain ⟨blob, coming, rfl, hmsg, htransfers⟩ := List.map_eq_cons_iff.mp hlist.symm
    exact ⟨_, _, _, _, blob, coming, rfl, rfl, hmsg.symm, htransfers.symm, h⟩

theorem Pull.stage_cases (h : S.Pull side got stage requests transfers) :
    (∃ expected received rest, stage = .transfer expected received rest) ∨ stage.Settled := by
  cases h with
  | requested _ _ => exact .inl ⟨_, _, _, rfl⟩
  | served _ => exact .inl ⟨_, _, _, rfl⟩
  | ended hsettled _ => exact .inr hsettled

section Step

variable {got : Side → Set NamespacedBlob} {link : Link} {s : Session} {msg : SyncMessage}
  {inbox out : List SyncMessage}

/-- The blobs a side hands to `ingest` when it receives the next message. -/
def arriving (P : Primitives) (link : Link) (side : Side) : List NamespacedBlob :=
  match (link.session side).stage, link.inbox side with
  | .transfer .., msg :: _ =>
    if msg.type = .blobTransfer then (decodeBlobTransfer P msg.payload).getD [] else []
  | _, _ => []

/-- The blobs a side hands to `ingest` at an event. -/
def handed (P : Primitives) (link : Link) : LinkEvent → Side → List NamespacedBlob
  | .deliver receiver _, side => if receiver = side then arriving P link side else []
  | _, _ => []

/-- Phase C goes on when a side has moved on. -/
theorem Transferring.update {got' : Side → Set NamespacedBlob} (h : S.Transferring got link)
    (hmember : S.Member side s)
    (hself : S.Pull side (got' side) s.stage
      (ofType .blobRequest (link.inbox side.other ++ out.filter fun msg =>
        routedToSession msg.type)) (ofType .blobTransfer inbox))
    (hother : S.Pull side.other (got' side.other) (link.session side.other).stage
      (ofType .blobRequest inbox) (ofType .blobTransfer
        (link.inbox side.other ++ out.filter fun msg => routedToSession msg.type)))
    (hinbox : ∀ msg ∈ inbox, msg ∈ link.inbox side)
    (hout : ∀ msg ∈ out, routedToSession msg.type = true → msg.type = .blobRequest ∨
      msg.type = .blobTransfer ∨ (msg.type = .peerListRequest ∧ s.stage = .finished))
    (hfinished : s.stage = .finished →
      (link.session side.other).stage.Settled ∧ S.CursorsSet side s.tables)
    (hstays : (link.session side).stage = .finished → s.stage = .finished)
    (hsettled : (link.session side).stage.Settled → s.stage.Settled) :
    S.Transferring got' (link.update side s inbox out) where
  member := (Side.forall_iff side).mpr ⟨by simpa using hmember, by simpa using h.member side.other⟩
  pull := (Side.forall_iff side).mpr ⟨by simpa using hself, by simpa using hother⟩
  types := by
    refine (Side.forall_iff side).mpr ⟨?_, ?_⟩
    · intro msg hmsg
      rw [Link.inbox_update_self] at hmsg
      exact h.types side msg (hinbox msg hmsg)
    · intro msg hmsg
      rw [Link.inbox_update_other] at hmsg
      rcases List.mem_append.mp hmsg with hmem | hmem
      · exact h.types side.other msg hmem
      · obtain ⟨hmem, hrouted⟩ := List.mem_filter.mp hmem
        rcases hout msg hmem hrouted with htype | htype | ⟨htype, -⟩
        · exact .inl htype
        · exact .inr (.inl htype)
        · exact .inr (.inr htype)
  closing := by
    refine (Side.forall_iff side).mpr ⟨?_, ?_⟩
    · intro msg hmsg htype
      rw [Link.inbox_update_self] at hmsg
      rw [Link.session_update_other]
      exact h.closing side msg (hinbox msg hmsg) htype
    · intro msg hmsg htype
      rw [Link.inbox_update_other] at hmsg
      rw [Side.other_other, Link.session_update_self]
      rcases List.mem_append.mp hmsg with hmem | hmem
      · have hbefore := h.closing side.other msg hmem htype
        rw [Side.other_other] at hbefore
        exact hstays hbefore
      · obtain ⟨hmem, hrouted⟩ := List.mem_filter.mp hmem
        rcases hout msg hmem hrouted with hne | hne | ⟨-, hstage⟩
        · simp [htype] at hne
        · simp [htype] at hne
        · exact hstage
  finished := by
    refine (Side.forall_iff side).mpr ⟨?_, ?_⟩
    · intro hstage
      rw [Link.session_update_self] at hstage
      rw [Link.session_update_other]
      exact (hfinished hstage).1
    · intro hstage
      rw [Link.session_update_other] at hstage
      rw [Side.other_other, Link.session_update_self]
      have hbefore := h.finished side.other hstage
      rw [Side.other_other] at hbefore
      exact hsettled hbefore
  cursors := by
    refine (Side.forall_iff side).mpr ⟨?_, ?_⟩
    · rw [Link.session_update_self]
      exact fun hstage => (hfinished hstage).2
    · rw [Link.session_update_other]
      exact h.cursors side.other

/-- A side reads a request. -/
theorem Transferring.request (h : S.Transferring got link) (henv : env ∈ S.envs side)
    (hinbox : link.inbox side = msg :: inbox) (htype : msg.type = .blobRequest) :
    S.Transferring got (link.step P (.deliver side env)) ∧
      ((link.step P (.deliver side env)).session side).tables = (link.session side).tables := by
  have hother := h.pull side.other
  rw [Side.other_other, hinbox, ofType_cons_pos htype] at hother
  obtain ⟨ns, batch, rest, hstageO, rfl, hrequests, htransfers, hbounds, howed⟩ :=
    hother.request_head
  have hself := h.pull side
  rw [hinbox, ofType_cons_neg (by simp [requestMessage])] at hself
  -- the other side waits for the answer, so this side has not finished
  have hopen : (link.session side).stage ≠ .finished := by
    intro hstage
    have hsettled := h.finished side hstage
    rw [hstageO] at hsettled
    simp [Stage.Settled] at hsettled
  obtain ⟨blobs, hserve, hsublist, hknown⟩ := serve_request (h.member side).origin env ns
    (hbounds ns batch List.mem_cons_self).2
  have hmember := h.member side
  obtain ⟨s, hrecv, hstage, htables, hmember⟩ : ∃ s, (link.session side).recv P env
      (some (requestMessage ns batch)) = (s, blobs.map (transferMessage P ns)) ∧
      s.stage = (link.session side).stage ∧ s.tables = (link.session side).tables ∧
      S.Member side s := by
    have hanswer : (link.session side).recv P env (some (requestMessage ns batch)) =
        (link.session side).answer P env (encodeBlobRequest ns batch) := by
      rcases hself.stage_cases with ⟨expected, received, rest, hstage⟩ | hsettled
      · simp only [Session.recv, hstage]
        rfl
      · simp only [Session.recv, hsettled.resolve_right hopen]
        rfl
    simp only [hanswer, Session.answer, (S.isOpen side env henv).notFull, Bool.false_eq_true,
      if_false, hserve]
    refine ⟨_, rfl, rfl, rfl, hmember.role, hmember.peerHash, hmember.peers, hmember.origin⟩
  have hrouted : ((blobs.map (transferMessage P ns)).filter fun msg => routedToSession msg.type) =
      blobs.map (transferMessage P ns) := by
    rw [List.filter_eq_self]
    intro msg hmsg
    obtain ⟨blob, -, rfl⟩ := List.mem_map.mp hmsg
    rfl
  have htransferType : ∀ msg ∈ blobs.map (transferMessage P ns), msg.type = .blobTransfer := by
    intro msg hmsg
    obtain ⟨blob, -, rfl⟩ := List.mem_map.mp hmsg
    rfl
  have hnone : ofType .blobRequest (blobs.map (transferMessage P ns)) = [] :=
    ofType_eq_nil fun msg hmsg => by simp [htransferType msg hmsg]
  rw [Link.step_deliver hinbox hrecv]
  refine ⟨?_, by rw [Link.session_update_self, htables]⟩
  refine h.update hmember ?_ ?_ (fun msg hmsg => hinbox ▸ List.mem_cons_of_mem _ hmsg)
    (fun msg hmsg _ => .inr (.inl (htransferType msg hmsg)))
    (fun hfin => (hopen (hstage ▸ hfin)).elim) (fun h => hstage.trans h) (fun h => hstage ▸ h)
  · rw [hrouted, ofType_append, hnone, List.append_nil, hstage]
    exact hself
  · rw [hrouted, ofType_append, ofType_eq_self htransferType, htransfers, hrequests, hstageO]
    have hrest : Bounded rest := fun ns batch hmem => hbounds ns batch (List.mem_cons_of_mem _ hmem)
    have hserved : S.Pull side.other (got side.other)
        (.transfer batch.length ([] : List BlobData).length rest) []
          (blobs.map (transferMessage P ns)) :=
      .served ⟨hrest, howed, hsublist, by simp, hknown⟩
    exact hserved

theorem nextBatch_eq (s : Session) (batches : List (Hash32 × List Hash32)) :
    (s.nextBatch batches).1 = { s with stage := (s.nextBatch batches).1.stage } := by
  cases batches <;> rfl

theorem nextBatch_not_finished (s : Session) (batches : List (Hash32 × List Hash32)) :
    (s.nextBatch batches).1.stage ≠ .finished := by
  cases batches <;> simp [Session.nextBatch]

theorem type_nextBatch (s : Session) (batches : List (Hash32 × List Hash32)) :
    ∀ msg ∈ (s.nextBatch batches).2, msg.type = .blobRequest := by
  cases batches <;> simp [Session.nextBatch]

theorem routed_ofType_nextBatch (s : Session) (batches : List (Hash32 × List Hash32)) :
    ofType .blobRequest ((s.nextBatch batches).2.filter fun msg => routedToSession msg.type) =
      (s.nextBatch batches).2 ∧
    ofType .blobTransfer ((s.nextBatch batches).2.filter fun msg =>
        routedToSession msg.type) = [] := by
  cases batches with
  | nil => exact ⟨rfl, rfl⟩
  | cons batch rest => exact ⟨rfl, rfl⟩

/-- A side reads a transfer. -/
theorem Transferring.transfer (h : S.Transferring got link)
    (hinbox : link.inbox side = msg :: inbox) (htype : msg.type = .blobTransfer) (env : SyncEnv) :
    ∃ ns hash blob, S.Known ns hash blob ∧ arriving P link side = [⟨ns, blob⟩] ∧
      ((link.step P (.deliver side env)).session side).tables =
        ((link.session side).ingested P env ⟨ns, blob⟩).tables ∧
      S.Transferring (fun other => got other ∪ {nb | nb ∈ handed P link (.deliver side env) other})
        (link.step P (.deliver side env)) := by
  have hself := h.pull side
  rw [hinbox, ofType_cons_pos htype] at hself
  obtain ⟨ns, batch, rest, handled, blob, coming, hstage, hrequests, rfl, htransfers, hserving⟩ :=
    hself.transfer_head
  have hknown := hserving.known blob List.mem_cons_self
  have hother := h.pull side.other
  rw [Side.other_other, hinbox, ofType_cons_neg (by simp [transferMessage])] at hother
  have harriving : arriving P link side = [⟨ns, blob⟩] := by
    simp [arriving, hstage, hinbox, transferMessage,
      decodeBlobTransfer_encodeSingle S.codec ns hknown.size]
  set got' : Side → Set NamespacedBlob :=
    fun other => got other ∪ {nb | nb ∈ handed P link (.deliver side env) other} with hgot'
  have hsub (other : Side) : got other ⊆ got' other := Set.subset_union_left
  have hnew : ⟨ns, blob⟩ ∈ got' side := .inr (by simp [handed, harriving])
  have hserving' := (hserving.mono (hsub side)).next hnew
  have hmember : S.Member side ((link.session side).ingested P env ⟨ns, blob⟩) :=
    ⟨(h.member side).role, (h.member side).peerHash, (h.member side).peers,
      (h.member side).origin.ingestOne hknown env.engine⟩
  have hread : ∀ msg ∈ inbox, msg ∈ link.inbox side :=
    fun msg hmsg => hinbox ▸ List.mem_cons_of_mem _ hmsg
  have hbusy : ¬ (link.session side).stage.Settled := by simp [hstage, Stage.Settled]
  have hrecv := recv_transferMessage hstage S.codec env ns hknown.size
  refine ⟨ns, _, blob, hknown, harriving, ?_⟩
  split_ifs at hrecv with hmore
  · -- more blobs of the batch are expected
    rw [Link.step_deliver hinbox hrecv]
    refine ⟨by simp, h.update ⟨hmember.role, hmember.peerHash, hmember.peers, hmember.origin⟩ ?_ ?_
      hread (by simp) (by simp) (fun hfin => (hbusy (.inr hfin)).elim) (fun h => (hbusy h).elim)⟩
    · have hpull : S.Pull side (got' side)
          (.transfer batch.length (handled ++ [blob]).length rest) [] _ := .served hserving'
      rw [htransfers]
      simpa [hrequests] using hpull
    · simpa using hother.mono (hsub side.other)
  · -- the batch is complete
    obtain ⟨rfl, howed⟩ := hserving'.complete (by simp; omega)
    have hnext :=
      pull_nextBatch ((link.session side).ingested P env ⟨ns, blob⟩) hserving.bounds howed
    obtain ⟨hroutedR, hroutedT⟩ :=
      routed_ofType_nextBatch ((link.session side).ingested P env ⟨ns, blob⟩) rest
    have hstore := nextBatch_eq ((link.session side).ingested P env ⟨ns, blob⟩) rest
    have hopen := nextBatch_not_finished ((link.session side).ingested P env ⟨ns, blob⟩) rest
    have hout := type_nextBatch ((link.session side).ingested P env ⟨ns, blob⟩) rest
    generalize ((link.session side).ingested P env ⟨ns, blob⟩).nextBatch rest = next at *
    obtain ⟨s, out⟩ := next
    dsimp only at hnext hroutedR hroutedT hstore hopen hout
    rw [Link.step_deliver hinbox hrecv]
    refine ⟨by rw [Link.session_update_self, hstore], h.update ?_ ?_ ?_ hread
      (fun msg hmsg _ => .inl (hout msg hmsg)) (fun hfin => (hopen hfin).elim)
      (fun hfin => (hbusy (.inr hfin)).elim) (fun h => (hbusy h).elim)⟩
    · rw [hstore]
      exact ⟨hmember.role, hmember.peerHash, hmember.peers, hmember.origin⟩
    · rw [ofType_append, hrequests, List.nil_append, hroutedR, htransfers]
      exact hnext
    · rw [ofType_append, hroutedT, List.append_nil]
      exact hother.mono (hsub side.other)

/-! ### The end -/

theorem getSyncCursor_setSyncCursor (t : Tables) (peerHash ns ns' : Hash32) (cursor : SyncCursor) :
    (t.setSyncCursor peerHash ns cursor).getSyncCursor peerHash ns' =
      if ns = ns' then some cursor else t.getSyncCursor peerHash ns' := by
  simp [Tables.getSyncCursor, Tables.setSyncCursor, getElem?_insert_eq]

/-- The last step of a session sets a cursor for each of the namespaces. -/
theorem getSyncCursor_updateCursors (peerHash : Hash32) (nowTs : UInt64) :
    ∀ (peers : List NamespaceInfo) (t : Tables), (peers.map NamespaceInfo.namespaceId).Nodup →
    let t' := peers.foldl (fun t pns => t.setSyncCursor peerHash pns.namespaceId
      { seqNum := UInt64.ofNat pns.latestSeqNum
        roundCount := ((t.getSyncCursor peerHash pns.namespaceId).elim 0 (·.roundCount)) + 1
        lastSyncTimestamp := nowTs }) t
    (∀ info ∈ peers, ∃ cursor, t'.getSyncCursor peerHash info.namespaceId = some cursor ∧
      cursor.seqNum = UInt64.ofNat info.latestSeqNum) ∧
    ∀ ns, ns ∉ peers.map NamespaceInfo.namespaceId →
      t'.getSyncCursor peerHash ns = t.getSyncCursor peerHash ns
  | [], _, _ => ⟨by simp, fun _ _ => rfl⟩
  | pns :: rest, t, hnodup => by
    rw [List.map_cons, List.nodup_cons] at hnodup
    obtain ⟨hset, hkeep⟩ := getSyncCursor_updateCursors peerHash nowTs rest
      (t.setSyncCursor peerHash pns.namespaceId
        { seqNum := UInt64.ofNat pns.latestSeqNum
          roundCount := ((t.getSyncCursor peerHash pns.namespaceId).elim 0 (·.roundCount)) + 1
          lastSyncTimestamp := nowTs }) hnodup.2
    constructor
    · intro info hinfo
      rcases List.mem_cons.mp hinfo with rfl | hrest
      · exact ⟨_, (hkeep _ hnodup.1).trans
          ((getSyncCursor_setSyncCursor _ _ _ _ _).trans (if_pos rfl)), rfl⟩
      · exact hset info hrest
    · intro ns hns
      rw [List.map_cons, List.mem_cons, not_or] at hns
      exact (hkeep ns hns.2).trans
        ((getSyncCursor_setSyncCursor _ _ _ _ _).trans (if_neg (Ne.symm hns.1)))

theorem nodup_announced (shared : Hash32 → Bool) (t : Tables) :
    ((Peer.announced shared t).map NamespaceInfo.namespaceId).Nodup := by
  have hkeys : (t.listNamespaces.map NamespaceInfo.namespaceId).Nodup := by
    have hdistinct := t.seq.distinct_keys_toList
    rw [Tables.listNamespaces, List.map_map]
    refine List.pairwise_map.mpr (hdistinct.imp fun hne heq => hne ?_)
    exact compare_eq_iff_eq.mpr heq
  exact hkeys.sublist (List.Sublist.map _ List.filter_sublist)

/-- The cursors of a session that ends. -/
theorem Member.cursorsSet (h : S.Member side s) : S.CursorsSet side s.updateCursors := by
  intro info hinfo
  have hset := (getSyncCursor_updateCursors s.peerHash s.nowTs s.peerNamespaces s.tables
    (h.peers ▸ nodup_announced _ _)).1
  obtain ⟨cursor, hcursor, hseq⟩ := hset info (h.peers ▸ hinfo)
  refine ⟨cursor, h.peerHash ▸ hcursor, ?_⟩
  rw [hseq]
  exact UInt64.toNat_ofNat_of_lt ((S.sound side.other).seqNums info (List.mem_of_mem_filter hinfo))

/-- Setting the cursors changes nothing else. -/
theorem updateCursors_store (s : Session) :
    s.updateCursors = { s.tables with cursor := s.updateCursors.cursor } := by
  unfold Session.updateCursors
  refine List.foldlRecOn (motive := fun t : Tables => t = { s.tables with cursor := t.cursor })
    s.peerNamespaces _ rfl fun t ht pns _ => ?_
  rw [ht]
  rfl

/-- The only message of the end that reaches the other session. -/
theorem type_finish (env : SyncEnv) (s : Session) : ∀ msg ∈ (s.finish env).2,
    routedToSession msg.type = true → msg.type = .peerListRequest := by
  intro msg hmsg hrouted
  simp only [Session.finish, List.mem_append] at hmsg
  rcases hmsg with (hmsg | hmsg) | hmsg
  · split_ifs at hmsg
    · rw [List.mem_singleton.mp hmsg] at hrouted
      simp [routedToSession] at hrouted
    · simp at hmsg
  · split_ifs at hmsg
    · rw [List.mem_singleton.mp hmsg] at hrouted
      simp [routedToSession] at hrouted
    · simp at hmsg
  · split_ifs at hmsg
    · rw [List.mem_singleton.mp hmsg]
    · simp at hmsg

/-- A side ends its session. -/
theorem Transferring.finish (h : S.Transferring got link)
    (hstage : (link.session side).stage = .remaining)
    (hother : (link.session side.other).stage.Settled)
    (hinbox : ∀ msg ∈ inbox, msg ∈ link.inbox side)
    (htransfers : ofType .blobTransfer inbox = ofType .blobTransfer (link.inbox side))
    (env : SyncEnv) :
    S.Transferring got (link.update side ((link.session side).finish env).1 inbox
      ((link.session side).finish env).2) := by
  have hmember := h.member side
  have hself := h.pull side
  obtain ⟨hrequests, howed⟩ := hself.settled (.inl hstage)
  have hpullO := h.pull side.other
  obtain ⟨hrequestsO, -⟩ := hpullO.settled hother
  have hout := type_finish env (link.session side)
  have hrouted (type : TransportMsgType) (hne : type ≠ .peerListRequest) :
      ofType type (((link.session side).finish env).2.filter fun msg => routedToSession msg.type) =
        [] := by
    refine ofType_eq_nil fun msg hmsg htype => hne ?_
    obtain ⟨hmem, hmsg⟩ := List.mem_filter.mp hmsg
    exact htype.symm.trans (hout msg hmem hmsg)
  refine h.update ⟨hmember.role, hmember.peerHash, hmember.peers, ?_⟩ ?_ ?_ hinbox
    (fun msg hmsg hr => .inr (.inr ⟨hout msg hmsg hr, rfl⟩))
    (fun _ => ⟨hother, hmember.cursorsSet⟩) (fun _ => rfl) (fun _ => .inr rfl)
  · intro ns hash blob hblob
    rw [Session.finish, updateCursors_store] at hblob
    exact hmember.origin ns hash blob hblob
  · -- nothing is on its way to a side that only serves
    have hnone : ofType .blobTransfer (link.inbox side) = [] := by
      generalize ofType .blobTransfer (link.inbox side) = transfers at hself
      generalize ofType .blobRequest (link.inbox side.other) = requests at hself
      rw [hstage] at hself
      cases hself with
      | ended _ _ => rfl
    rw [ofType_append, hrequests, hrouted _ (by decide), htransfers, hnone]
    exact .ended (.inr rfl) howed
  · have hnone : ofType .blobRequest inbox = [] := by
      refine ofType_eq_nil fun msg hmsg htype => ?_
      have hmem : msg ∈ ofType .blobRequest (link.inbox side) :=
        List.mem_filter.mpr ⟨hinbox msg hmsg, by simp [htype]⟩
      rw [Side.other_other] at hrequestsO
      rw [hrequestsO] at hmem
      exact absurd hmem List.not_mem_nil
    rw [ofType_append, hrouted _ (by decide), List.append_nil, hnone]
    rw [Side.other_other] at hrequestsO
    rw [Side.other_other, hrequestsO] at hpullO
    exact hpullO

/-- What an event does to the blobs of a side: nothing, or one call of `ingest` for a known blob
that has just arrived. -/
inductive StoreStep (S : Setting P) (link : Link) (e : LinkEvent) (side : Side) : Tables → Prop
  | same (cursor : Table (FixedBytes 64) SyncCursor) (hhanded : handed P link e side = []) :
    StoreStep S link e side { (link.session side).tables with cursor }
  | ingested {env : SyncEnv} {ns hash : Hash32} {blob : BlobData} (hevent : e = .deliver side env)
    (hknown : S.Known ns hash blob) (hhanded : handed P link e side = [⟨ns, blob⟩]) :
    StoreStep S link e side ((link.session side).ingested P env ⟨ns, blob⟩).tables

/-- What the sides have been handed after an event. -/
def after (P : Primitives) (got : Side → Set NamespacedBlob) (link : Link) (e : LinkEvent)
    (side : Side) : Set NamespacedBlob :=
  got side ∪ {nb | nb ∈ handed P link e side}

theorem Transferring.mono {got' : Side → Set NamespacedBlob} (h : S.Transferring got link)
    (hsub : ∀ side, got side ⊆ got' side) : S.Transferring got' link :=
  ⟨h.member, fun side => (h.pull side).mono (hsub side), h.types, h.closing, h.finished, h.cursors⟩

theorem arriving_empty (hinbox : link.inbox side = []) : arriving P link side = [] := by
  unfold arriving
  split
  · rename_i heq
    exact absurd (hinbox.symm.trans heq) (by simp)
  · rfl

theorem arriving_nil (hinbox : link.inbox side = msg :: inbox) (htype : msg.type ≠ .blobTransfer) :
    arriving P link side = [] := by
  unfold arriving
  split
  · rename_i hstage heq
    rw [hinbox] at heq
    obtain ⟨rfl, -⟩ := List.cons.inj heq
    exact if_neg htype
  · rfl

theorem Link.session_step_other (env : SyncEnv) :
    (link.step P (.deliver side env)).session side.other = link.session side.other := by
  cases hinbox : link.inbox side with
  | nil => rw [Link.step_deliver_nil hinbox]
  | cons msg inbox =>
    have hstep : link.step P (.deliver side env) = link.update side _ inbox _ :=
      Link.step_deliver hinbox (Prod.eta _).symm
    rw [hstep, Link.session_update_other]

/-- An event at which nothing arrives and the blobs of a side stay. -/
theorem storeStep_same (hhanded : handed P link e side = [])
    {t : Tables} (htables : t = { (link.session side).tables with cursor := t.cursor }) :
    S.StoreStep link e side t := by
  rw [htables]
  exact .same _ hhanded

/-- A delivery leaves the other side alone. -/
theorem storeStep_other (env : SyncEnv) : S.StoreStep link (.deliver side env) side.other
    ((link.step P (.deliver side env)).session side.other).tables := by
  refine storeStep_same (by simp [handed, side.other_ne.symm]) ?_
  rw [Link.session_step_other]

/-- A side reads the request for a peer list, which the initiator sends at its end. -/
theorem Transferring.closing_read (h : S.Transferring got link)
    (hinbox : link.inbox side = msg :: inbox) (htype : msg.type = .peerListRequest)
    (env : SyncEnv) :
    S.Transferring got (link.step P (.deliver side env)) ∧
      S.StoreStep link (.deliver side env) side
        ((link.step P (.deliver side env)).session side).tables := by
  have hhanded : handed P link (.deliver side env) side = [] := by
    simp [handed, arriving_nil hinbox (show msg.type ≠ .blobTransfer by simp [htype])]
  have hread : ∀ msg ∈ inbox, msg ∈ link.inbox side :=
    fun msg hmsg => hinbox ▸ List.mem_cons_of_mem _ hmsg
  have hrequest : ofType .blobRequest inbox = ofType .blobRequest (link.inbox side) := by
    rw [hinbox, ofType_cons_neg (by simp [htype])]
  have htransfer : ofType .blobTransfer inbox = ofType .blobTransfer (link.inbox side) := by
    rw [hinbox, ofType_cons_neg (by simp [htype])]
  have hclosed := h.closing side msg (hinbox ▸ List.mem_cons_self) htype
  -- unless the side only serves, the message is dropped
  have hdropped (hrecv : (link.session side).recv P env (some msg) = (link.session side, [])) :
      S.Transferring got (link.step P (.deliver side env)) ∧
        S.StoreStep link (.deliver side env) side
          ((link.step P (.deliver side env)).session side).tables := by
    rw [Link.step_deliver hinbox hrecv]
    refine ⟨h.update (h.member side) ?_ ?_ hread (by simp)
      (fun hfin => ⟨h.finished side hfin, h.cursors side hfin⟩) id id,
      storeStep_same hhanded (by rw [Link.session_update_self])⟩
    · simpa [htransfer] using h.pull side
    · simpa [hrequest] using h.pull side.other
  rcases (h.pull side).stage_cases with ⟨expected, received, rest, hstage⟩ | hstage | hstage
  · refine hdropped ?_
    simp only [Session.recv, hstage, Session.transferring, htype]
  · have hrecv : (link.session side).recv P env (some msg) =
        (((link.session side).finish env).1, ((link.session side).finish env).2) := by
      simp [Session.recv, hstage, htype]
    rw [Link.step_deliver hinbox hrecv]
    refine ⟨h.finish hstage (.inr hclosed) hread htransfer env, storeStep_same hhanded ?_⟩
    rw [Link.session_update_self, Session.finish]
    exact updateCursors_store _
  · exact hdropped (by simp only [Session.recv, hstage])

/-- **Every turn of phase C** keeps the invariant, and hands at most one blob to `ingest`. -/
theorem Transferring.step (h : S.Transferring got link) (hsmooth : S.Smooth link e) :
    S.Transferring (after P got link e) (link.step P e) ∧
      ∀ side, S.StoreStep link e side ((link.step P e).session side).tables := by
  have hsub : ∀ side, got side ⊆ after P got link e side := fun _ => Set.subset_union_left
  cases e with
  | lost side => exact hsmooth.elim
  | timeout side env =>
    obtain ⟨-, hstage, hother⟩ := hsmooth
    have hstep : link.step P (.timeout side env) = link.update side
        ((link.session side).finish env).1 (link.inbox side)
            ((link.session side).finish env).2 := by
      simp only [Link.step, Session.recv, hstage]
    refine ⟨?_, (Side.forall_iff side).mpr ⟨?_, ?_⟩⟩
    · rw [hstep]
      exact (h.finish hstage hother (fun _ hmsg => hmsg) rfl env).mono hsub
    · refine storeStep_same rfl ?_
      rw [hstep, Link.session_update_self, Session.finish]
      exact updateCursors_store _
    · refine storeStep_same rfl ?_
      rw [hstep, Link.session_update_other]
  | deliver side env =>
    cases hinbox : link.inbox side with
    | nil =>
      have hhanded (other : Side) : handed P link (.deliver side env) other = [] := by
        by_cases hsame : side = other
        · subst hsame
          simp [handed, arriving_empty hinbox]
        · simp [handed, hsame]
      rw [Link.step_deliver_nil hinbox]
      exact ⟨h.mono hsub, fun other => storeStep_same (hhanded other) rfl⟩
    | cons msg inbox =>
      rcases h.types side msg (hinbox ▸ List.mem_cons_self) with htype | htype | htype
      · obtain ⟨hnext, htables⟩ := h.request hsmooth hinbox htype
        refine ⟨hnext.mono hsub,
          (Side.forall_iff side).mpr ⟨storeStep_same ?_ ?_, storeStep_other env⟩⟩
        · simp [handed, arriving_nil hinbox (show msg.type ≠ .blobTransfer by simp [htype])]
        · rw [htables]
      · obtain ⟨ns, hash, blob, hknown, harriving, htables, hnext⟩ := h.transfer hinbox htype env
        refine ⟨hnext, (Side.forall_iff side).mpr ⟨?_, storeStep_other env⟩⟩
        rw [htables]
        exact .ingested rfl hknown (by simp [handed, harriving])
      · obtain ⟨hnext, hstore⟩ := h.closing_read hinbox htype env
        exact ⟨hnext.mono hsub, (Side.forall_iff side).mpr ⟨hstore, storeStep_other env⟩⟩

end Step

/-! ## A whole session -/

section Session

variable {got : Side → Set NamespacedBlob} {link : Link} {s : Session} {done : List Hash32}

/-- The blobs of a session are those its side started from. -/
def Untouched (S : Setting P) (side : Side) (s : Session) : Prop :=
  s.tables = { S.tables side with cursor := s.tables.cursor }

theorem Unlisted.untouched (h : S.Unlisted side s) : S.Untouched side s := by
  rw [Untouched, h.store]

theorem Lag.untouched {lag : List SyncMessage} (h : S.Lag s lag done) :
    S.Untouched .responder s := by
  cases h with
  | idle hbegun _ _ _ => exact hbegun.store
  | list hunlisted _ _ => exact hunlisted.untouched
  | items hbegun _ _ _ _ _ _ _ _ _ => exact hbegun.store

theorem Answering.untouched {own : List Hash32} {loop : Option ReconcileLoop}
    (h : S.Answering done ns own s loop) : S.Untouched .responder s := by
  cases h with
  | looping hbegun _ _ _ _ _ => exact hbegun.store
  | closed _ hidle => exact hidle.untouched

theorem nextBatch_tables (s : Session) (batches : List (Hash32 × List Hash32)) :
    (s.nextBatch batches).1.tables = s.tables := by
  cases batches <;> rfl

theorem Advanced.untouched {out : List SyncMessage} (h : S.Advanced done s out) :
    S.Untouched .initiator s := by
  cases h with
  | opening hbegun _ _ _ _ _ => exact hbegun.store
  | complete hbegun _ _ =>
    rw [Untouched, nextBatch_tables]
    exact hbegun.store

/-- Phases A and B do not touch the blobs. -/
theorem Reconciling.untouched (h : S.Reconciling link) :
    ∀ side, S.Untouched side (link.session side) := by
  have hboth (hI : S.Untouched .initiator (link.session .initiator))
      (hR : S.Untouched .responder (link.session .responder)) :
      ∀ side, S.Untouched side (link.session side)
    | .initiator => hI
    | .responder => hR
  cases h with
  | greeting _ hunlisted hlag _ _ => exact hboth hunlisted.untouched hlag.untouched
  | listing _ hunlisted _ _ hlag => exact hboth hunlisted.untouched hlag.untouched
  | advanced hinitiator _ _ hlag => exact hboth hinitiator.untouched hlag.untouched
  | exchanging h =>
    exact hboth h.begun.store h.answering.untouched

/-- Nothing is handed to `ingest` before phase C. -/
theorem arriving_of_stage (h : ∀ expected received rest,
    (link.session side).stage ≠ .transfer expected received rest) : arriving P link side = [] := by
  unfold arriving
  split
  · rename_i hstage _
    exact absurd hstage (h _ _ _)
  · rfl

theorem Lag.arriving {lag : List SyncMessage} (h : S.Lag (link.session .responder) lag done) :
    arriving P link .responder = [] := by
  refine arriving_of_stage fun expected received rest => ?_
  cases h with
  | idle _ hstage _ _ => simp [hstage]
  | list _ hstage _ => simp [hstage]
  | items _ hstage _ _ _ _ _ _ _ _ => simp [hstage]

theorem Answering.arriving {own : List Hash32} {loop : Option ReconcileLoop}
    (h : S.Answering done ns own (link.session .responder) loop) :
    arriving P link .responder = [] := by
  cases h with
  | looping _ hstage _ _ _ _ => exact arriving_of_stage fun _ _ _ => by simp [hstage]
  | closed _ hidle => exact hidle.arriving

theorem Reconciling.arriving (h : S.Reconciling link) : ∀ side, arriving P link side = [] := by
  have hboth (hI : Setting.arriving P link .initiator = [])
      (hR : Setting.arriving P link .responder = []) : ∀ side, Setting.arriving P link side = []
    | .initiator => hI
    | .responder => hR
  cases h with
  | greeting hstage _ hlag _ _ =>
    exact hboth (arriving_of_stage fun _ _ _ => by simp [hstage]) hlag.arriving
  | listing hstage _ _ _ hlag =>
    exact hboth (arriving_of_stage fun _ _ _ => by simp [hstage]) hlag.arriving
  | advanced _ hempty _ hlag => exact hboth (arriving_empty hempty) hlag.arriving
  | exchanging h =>
    exact hboth (arriving_of_stage fun _ _ _ => by simp [h.stage]) h.answering.arriving

theorem handed_of_arriving (h : ∀ side, arriving P link side = []) (e : LinkEvent) (side : Side) :
    handed P link e side = [] := by
  cases e with
  | deliver receiver env => simp [handed, h side]
  | timeout receiver env => rfl
  | lost receiver => rfl

theorem origin_of_untouched (h : S.Untouched side s) : S.Origin s.tables := by
  intro ns hash blob hblob
  rw [h] at hblob
  exact ⟨side, hblob⟩

theorem owed_requests {batches : Set NamespacedBlob}
    (h : S.Records side S.namespaces s.missingPerNs) :
    S.Owed side batches (Session.requests s.missingPerNs) := by
  intro ns hash hwanted
  obtain ⟨missing, hentry, hmem⟩ := h ns (mem_namespaces hwanted) hash hwanted
  exact .inr (mem_requests hentry hmem)

/-- Phase C begins. -/
theorem Reconciled.transferring (h : S.Reconciled link) (got : Side → Set NamespacedBlob) :
    S.Transferring got link := by
  obtain ⟨start, hbegun, hrecords, hsession, hinbox⟩ := h
  have hinbox' (side : Side) : link.inbox side = ((start side.other).nextBatch
      (Session.requests (start side.other).missingPerNs)).2 := by
    rw [← hinbox side.other, Side.other_other]
  have htype (side : Side) : ∀ msg ∈ link.inbox side, msg.type = .blobRequest := by
    rw [hinbox']
    exact type_nextBatch _ _
  have hopen (side : Side) : (link.session side).stage ≠ .finished := by
    rw [hsession]
    exact nextBatch_not_finished _ _
  refine ⟨fun side => ?_, fun side => ?_, fun side msg hmsg => .inl (htype side msg hmsg),
    fun side msg hmsg h => ?_, fun side h => (hopen side h).elim, fun side h => (hopen side h).elim⟩
  · rw [hsession, nextBatch_eq]
    exact ⟨(hbegun side).role, (hbegun side).peerHash, (hbegun side).peers,
      origin_of_untouched (hbegun side).store⟩
  · rw [hsession, ofType_eq_self (htype side.other),
      ofType_eq_nil fun msg hmsg => by simp [htype side msg hmsg], hinbox]
    exact pull_nextBatch _ (fun ns batch hmem =>
      requests_bounds hmem) (owed_requests (hrecords side))
  · rw [htype side msg hmsg] at h
    exact absurd h (by decide)

/-- **The invariant of a session.** -/
inductive Phase (S : Setting P) (got : Side → Set NamespacedBlob) (link : Link) : Prop
  | reconciling (h : S.Reconciling link)
  | transferring (h : S.Transferring got link)

theorem Phase.step (h : S.Phase got link) (hsmooth : S.Smooth link e) :
    S.Phase (after P got link e) (link.step P e) ∧
      ∀ side, S.StoreStep link e side ((link.step P e).session side).tables := by
  cases h with
  | transferring h =>
    obtain ⟨hnext, hstore⟩ := h.step hsmooth
    exact ⟨.transferring hnext, hstore⟩
  | reconciling h =>
    have hstore (huntouched : ∀ side, S.Untouched side ((link.step P e).session side))
      (side : Side) :
        S.StoreStep link e side ((link.step P e).session side).tables := by
      refine storeStep_same (handed_of_arriving h.arriving e side) ?_
      rw [h.untouched side]
      exact huntouched side
    rcases h.step hsmooth with hnext | hnext
    · exact ⟨.reconciling hnext, hstore hnext.untouched⟩
    · refine ⟨.transferring (hnext.transferring _), hstore fun side => ?_⟩
      obtain ⟨start, hbegun, -, hsession, -⟩ := hnext
      rw [Untouched, hsession, nextBatch_tables]
      exact (hbegun side).store

/-- What a side has been handed in a run. -/
def history (P : Primitives) (start : Link) (events : List LinkEvent) (side : Side) :
    Set NamespacedBlob :=
  {nb | Happened (Link.step P) (fun link e => nb ∈ handed P link e side) start events}

theorem history_append (start : Link) (events : List LinkEvent) (e : LinkEvent) :
    history P start (events ++ [e]) =
        after P (history P start events) (run (Link.step P) start events) e := by
  funext side
  ext nb
  simp only [history, after, Set.mem_union, Set.mem_ofPred_eq]
  exact happened_append_singleton

end Session

end Setting

end Peer
