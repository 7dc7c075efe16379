import Chromatin.Peer.ConnectionManager
import Chromatin.Wire.Sample

/-!
# The table of connected peers

The scan of `on_peer_connected` stops at the first entry with the identity of the new connection,
whatever the role of that entry. A node that is also a client of its peer therefore disturbs the
deduplication: its client entry is closed in place of a peer's, or a peer is refused for it.

The close callback of a connection that was replaced notes that its node has gone, although the
node is still connected, and the note is only taken back by the next connect.

* `peer_table_iff` — the entries are unique and clients are left alone exactly as long as no scan
  stops at a client's entry
* `cursors_survive_iff` — a sweep deletes cursors of a connected peer exactly when such a late
  callback was the last thing noted about it, and the grace period has passed
-/

namespace Peer.ConnectionManager

open Infra Util Wire Storage

variable {P : Primitives} {env : ConnectEnv} {m m' : ConnectionManager} {conn : Connection}
  {actions : List Action} {p : PeerInfo}

/-! ## What a call does -/

/-- The outcomes of `on_peer_connected`, each with its tests. -/
inductive Connects (P : Primitives) (env : ConnectEnv) (m : ConnectionManager) (conn : Connection) :
    ConnectionManager × List Action → Prop
  /-- not on the access list -/
  | denied (hacl : env.acl.isAllowed conn.role (conn.peerHash P) = false) :
    Connects P env m conn (m, conn.connectAddress.toList.map .notifyAclRejected ++ [.close conn])
  /-- the scan is skipped or finds no entry -/
  | fresh (hacl : env.acl.isAllowed conn.role (conn.peerHash P) = true)
    (hnew : conn.role = .peer → m.duplicateOf P (conn.peerHash P) = none) :
    Connects P env m conn (m.register P env conn)
  /-- the existing connection gives way -/
  | replaced {existing : PeerInfo} (hacl : env.acl.isAllowed conn.role (conn.peerHash P) = true)
    (hrole : conn.role = .peer) (hdup : m.duplicateOf P (conn.peerHash P) = some existing)
    (hkeep : keepNew env.ownNs (conn.peerHash P) conn.isInitiator = true) :
    Connects P env m conn
      (({ m with peers := m.peers.eraseP fun p => p.peerHash P = conn.peerHash P }.register
          P env conn).1,
        closeDuplicate existing.connection ++
          ({ m with peers := m.peers.eraseP fun p => p.peerHash P = conn.peerHash P }.register
            P env conn).2)
  /-- the new connection gives way -/
  | refused {existing : PeerInfo} (hacl : env.acl.isAllowed conn.role (conn.peerHash P) = true)
    (hrole : conn.role = .peer) (hdup : m.duplicateOf P (conn.peerHash P) = some existing)
    (hkeep : keepNew env.ownNs (conn.peerHash P) conn.isInitiator = false) :
    Connects P env m conn (m, closeDuplicate conn)

theorem connects {result : ConnectionManager × List Action}
    (h : m.onPeerConnected P env conn = result) :
    Connects P env m conn result := by
  subst h
  simp only [onPeerConnected, Bool.not_eq_true']
  cases hacl : env.acl.isAllowed conn.role (conn.peerHash P) with
  | false => exact .denied hacl
  | true =>
    rw [if_neg (by simp)]
    by_cases hrole : conn.role = .peer
    · rw [if_pos hrole]
      cases hdup : m.duplicateOf P (conn.peerHash P) with
      | none => exact .fresh hacl fun _ => hdup
      | some existing =>
        cases hkeep : keepNew env.ownNs (conn.peerHash P) conn.isInitiator with
        | true => exact .replaced hacl hrole hdup hkeep
        | false => exact .refused hacl hrole hdup hkeep
    · rw [if_neg hrole]
      exact .fresh hacl fun h => absurd h hrole

theorem mem_closeDuplicate {other : Connection} :
    .close other ∈ closeDuplicate conn ↔ other = conn := by
  simp [closeDuplicate]

/-- Registering closes nothing. -/
theorem close_notMem_register (other : Connection) : .close other ∉ (m.register P env conn).2 := by
  unfold register
  split_ifs <;> simp

theorem mem_duplicateOf {peerNs : Hash32} (h : m.duplicateOf P peerNs = some p) :
    p ∈ m.peers ∧ p.peerHash P = peerNs :=
  ⟨List.mem_of_find?_eq_some h, by simpa using List.find?_some h⟩

/-- What the scan finds stands behind entries of other identities. -/
theorem duplicateOf_eq_some {peerNs : Hash32} (h : m.duplicateOf P peerNs = some p) :
    ∃ before after, m.peers = before ++ p :: after ∧ (∀ q ∈ before, q.peerHash P ≠ peerNs) ∧
      m.peers.eraseP (fun q => q.peerHash P = peerNs) = before ++ after := by
  obtain ⟨hp, before, after, hsplit, hbefore⟩ := List.find?_eq_some_iff_append.mp h
  refine ⟨before, after, hsplit, fun q hq => by simpa using hbefore q hq, ?_⟩
  rw [hsplit, List.eraseP_append_right _ (fun q hq => by simpa using hbefore q hq),
    List.eraseP_cons, hp, cond_true]

/-! ## One entry per peer -/

/-- The identities of the entries with role `Peer`, one for each entry. -/
def peerIdentities (P : Primitives) (m : ConnectionManager) : List Hash32 :=
  (m.peers.filter fun p => p.role = .peer).map fun p => p.peerHash P

/-- The entry because of which a connection is refused: the scan stops there, and the new
connection gives way. -/
def refusedFor (P : Primitives) (env : ConnectEnv) (m : ConnectionManager) (conn : Connection) :
    Option PeerInfo :=
  if env.acl.isAllowed conn.role (conn.peerHash P) ∧ conn.role = .peer ∧
      keepNew env.ownNs (conn.peerHash P) conn.isInitiator = false then
    m.duplicateOf P (conn.peerHash P)
  else none

/-- The entries of clients are kept, their connections are not closed, and no peer is refused for
one of them. -/
structure SparesClients (P : Primitives) (env : ConnectEnv) (m : ConnectionManager)
    (conn : Connection) :
    Prop where
  kept : ∀ p ∈ m.peers, p.role = .client → p ∈ (m.onPeerConnected P env conn).1.peers
  notClosed : ∀ p ∈ m.peers, p.role = .client →
    .close p.connection ∉ (m.onPeerConnected P env conn).2
  admitted : ∀ p, refusedFor P env m conn = some p → p.role ≠ .client

/-- The scan for a peer does not stop at a client's entry, and if it stops at an entry with neither
role and removes it, no peer's entry is behind it. -/
def ScansPeers (P : Primitives) (env : ConnectEnv) (m : ConnectionManager) (conn : Connection) :
    Prop :=
  env.acl.isAllowed conn.role (conn.peerHash P) = true → conn.role = .peer →
    ∀ p, m.duplicateOf P (conn.peerHash P) = some p → p.role ≠ .client ∧
      (p.role ≠ .peer → keepNew env.ownNs (conn.peerHash P) conn.isInitiator = true →
        conn.peerHash P ∉ m.peerIdentities P)

theorem mem_peerIdentities {peerNs : Hash32} :
    peerNs ∈ m.peerIdentities P ↔ ∃ p ∈ m.peers, p.role = .peer ∧ p.peerHash P = peerNs := by
  simp [peerIdentities, and_assoc]

theorem peerIdentities_sublist (h : m'.peers.Sublist m.peers) :
    (m'.peerIdentities P).Sublist (m.peerIdentities P) :=
  (h.filter _).map _

theorem peerIdentities_append {kept : List PeerInfo} (h : m.peers = kept ++ [infoOf env conn]) :
    m.peerIdentities P = ({ peers := kept } : ConnectionManager).peerIdentities P ++
      if conn.role = .peer then [conn.peerHash P] else [] := by
  unfold peerIdentities
  rw [h, List.filter_append, List.map_append]
  by_cases hrole : conn.role = .peer
  · simp [infoOf, hrole, PeerInfo.peerHash]
  · simp [infoOf, hrole]

/-- The identities beside an entry that the scan finds. -/
theorem peerIdentities_split {before after : List PeerInfo}
    (h : m.peers = before ++ p :: after) :
    (m.peerIdentities P).Perm ((if p.role = .peer then [p.peerHash P] else []) ++
      ({ peers := before ++ after } : ConnectionManager).peerIdentities P) := by
  have hperm : m.peers.Perm ([p] ++ (before ++ after)) := by
    rw [h]
    exact List.perm_middle
  refine ((hperm.filter _).map _).trans (.of_eq ?_)
  by_cases hrole : p.role = .peer
  · simp [peerIdentities, hrole]
  · simp [peerIdentities, hrole]

/-- An entry has the role of its connection. -/
def RolesKept (m : ConnectionManager) : Prop := ∀ p ∈ m.peers, p.role = p.connection.role

theorem peers_register : (m.register P env conn).1.peers = m.peers ++ [infoOf env conn] := rfl

/-- Every entry after a connect was there before or is the new one. -/
theorem mem_peers_onPeerConnected (h : p ∈ (m.onPeerConnected P env conn).1.peers) :
    p ∈ m.peers ∨ p = infoOf env conn := by
  generalize hresult : m.onPeerConnected P env conn = result at h
  cases connects hresult with
  | denied hacl => exact .inl h
  | fresh hacl hnew => simpa [peers_register] using h
  | replaced hacl hrole hdup hkeep =>
    rw [peers_register, List.mem_append, List.mem_singleton] at h
    exact h.imp_left List.mem_of_mem_eraseP
  | refused hacl hrole hdup hkeep => exact .inl h

theorem RolesKept.step (h : m.RolesKept) (e : ManagerEvent) : (m.step P e).RolesKept := by
  intro p hp
  cases e with
  | connected env conn =>
    rcases mem_peers_onPeerConnected hp with hold | rfl
    · exact h p hold
    · rfl
  | disconnected nowMs conn => exact h p (List.mem_filter.mp hp).1

/-- The table stays unique when no client stands in the way. -/
theorem nodup_onPeerConnected (hunique : (m.peerIdentities P).Nodup)
    (hscan : ScansPeers P env m conn) :
    ((m.onPeerConnected P env conn).1.peerIdentities P).Nodup := by
  generalize hresult : m.onPeerConnected P env conn = result
  cases connects hresult with
  | denied hacl => exact hunique
  | fresh hacl hnew =>
    rw [peerIdentities_append peers_register]
    split_ifs with hrole
    · rw [← List.concat_eq_append, List.nodup_concat]
      refine ⟨fun hmem => ?_, hunique⟩
      obtain ⟨p, hp, -, hhash⟩ := mem_peerIdentities.mp hmem
      exact absurd (List.find?_eq_none.mp (hnew hrole) p hp) (by simpa using hhash)
    · rw [List.append_nil]
      exact hunique
  | @replaced existing hacl hrole hdup hkeep =>
    obtain ⟨before, after, hsplit, -, herase⟩ := duplicateOf_eq_some hdup
    obtain ⟨-, hother⟩ := hscan hacl hrole _ hdup
    have hperm := peerIdentities_split (P := P) hsplit
    rw [peerIdentities_append peers_register, if_pos hrole, herase, ← List.concat_eq_append,
      List.nodup_concat]
    refine ⟨fun hmem => ?_, (List.nodup_append.mp (hperm.nodup_iff.mp hunique)).2.1⟩
    -- the identity would be there twice, or behind an entry of neither role
    by_cases hpeer : existing.role = .peer
    · rw [if_pos hpeer, (mem_duplicateOf hdup).2] at hperm
      exact (List.nodup_cons.mp (hperm.nodup_iff.mp hunique)).1 hmem
    · exact hother hpeer hkeep (hperm.mem_iff.mpr (List.mem_append_right _ hmem))
  | refused hacl hrole hdup hkeep => exact hunique

theorem sparesClients_of_scansPeers (hroles : m.RolesKept) (hrole : conn.role = .peer)
    (hscan : ScansPeers P env m conn) : SparesClients P env m conn := by
  have hother {p : PeerInfo} (hp : p ∈ m.peers) (hclient : p.role = .client) :
      p.connection ≠ conn := by
    rintro rfl
    rw [hroles p hp, hrole] at hclient
    exact absurd hclient (by decide)
  generalize hresult : m.onPeerConnected P env conn = result
  have hkept : ∀ p ∈ m.peers, p.role = .client →
      p ∈ result.1.peers ∧ .close p.connection ∉ result.2 := by
    intro p hp hclient
    cases connects hresult with
    | denied hacl => exact ⟨hp, by simpa using hother hp hclient⟩
    | fresh hacl hnew =>
      exact ⟨List.mem_append_left _ hp, close_notMem_register _⟩
    | @replaced existing hacl hrole hdup hkeep =>
      obtain ⟨before, after, hsplit, -, herase⟩ := duplicateOf_eq_some hdup
      have hexisting := (hscan hacl hrole _ hdup).1
      refine ⟨?_, fun hclose => ?_⟩
      · rw [peers_register, herase]
        rw [hsplit, List.mem_append, List.mem_cons] at hp
        rcases hp with hp | rfl | hp
        · simp [hp]
        · exact absurd hclient hexisting
        · simp [hp]
      · rcases List.mem_append.mp hclose with hclose | hclose
        · have hsame := mem_closeDuplicate.mp hclose
          refine hexisting ?_
          rw [hroles existing (mem_duplicateOf hdup).1, ← hsame, ← hroles p hp, hclient]
        · exact close_notMem_register _ hclose
    | refused hacl hrole hdup hkeep =>
      exact ⟨hp, fun hclose => hother hp hclient (mem_closeDuplicate.mp hclose)⟩
  subst hresult
  refine ⟨fun p hp hclient => (hkept p hp hclient).1, fun p hp hclient =>
    (hkept p hp hclient).2, ?_⟩
  intro p hp
  unfold refusedFor at hp
  split_ifs at hp with htests
  exact (hscan htests.1 htests.2.1 p hp).1

theorem scansPeers_of_sparesClients
    (hunique : ((m.onPeerConnected P env conn).1.peerIdentities P).Nodup)
    (hspares : conn.role = .peer → SparesClients P env m conn) : ScansPeers P env m conn := by
  intro hacl hrole p hdup
  obtain ⟨hkept, hopen, hadmitted⟩ := hspares hrole
  obtain ⟨before, after, hsplit, -, herase⟩ := duplicateOf_eq_some hdup
  generalize hresult : m.onPeerConnected P env conn = result at hunique hkept hopen
  cases connects hresult with
  | denied hacl' => exact absurd hacl (by simp [hacl'])
  | fresh hacl' hnew => exact absurd (hnew hrole) (by simp [hdup])
  | replaced hacl' hrole' hdup' hkeep =>
    obtain rfl := Option.some.inj (hdup.symm.trans hdup')
    refine ⟨fun hclient => ?_, fun hpeer _ hmem => ?_⟩
    · refine hopen p (mem_duplicateOf hdup).1 hclient ?_
      exact List.mem_append_left _ (mem_closeDuplicate.mpr rfl)
    · rw [peerIdentities_append peers_register, if_pos hrole, herase, ← List.concat_eq_append,
        List.nodup_concat] at hunique
      refine hunique.1 ?_
      have hperm := peerIdentities_split (P := P) hsplit
      rw [if_neg hpeer, List.nil_append] at hperm
      exact hperm.mem_iff.mp hmem
  | refused hacl' hrole' hdup' hkeep =>
    refine ⟨hadmitted p ?_, fun _ hkeep' => absurd hkeep (by simp [hkeep'])⟩
    rw [refusedFor, if_pos ⟨hacl, hrole, hkeep⟩, hdup]

/--
**Uniqueness of the peers' entries.** For every sequence of calls, in every state of it: there is at
most one entry with role `Peer` per identity, and registering a peer neither closes nor removes a
client's entry and is not refused for one — exactly if no scan for a peer stops at a client's entry.
(The other roles are not implemented; for an entry with one of them the condition says that there is
no peer's entry behind it if it is removed.)
-/
theorem peer_table_iff (P : Primitives) (events : List ManagerEvent) :
    AllSteps (ConnectionManager.step P) (fun m e => ((m.step P e).peerIdentities P).Nodup ∧
        ∀ env conn, e = .connected env conn → conn.role = .peer →
        SparesClients P env m conn) {} events ↔
      AllSteps (ConnectionManager.step P) (fun m e =>
        ∀ env conn, e = .connected env conn → ScansPeers P env m conn) {} events := by
  refine allSteps_congr (I := fun m => (m.peerIdentities P).Nodup ∧ m.RolesKept) ?_ ?_ ⟨?_, ?_⟩
  · rintro m e ⟨hunique, hroles⟩
    constructor
    · rintro ⟨hafter, hspares⟩ env conn rfl
      exact scansPeers_of_sparesClients hafter (hspares env conn rfl)
    · intro hscan
      refine ⟨?_, fun env conn he hrole =>
        sparesClients_of_scansPeers hroles hrole (hscan env conn he)⟩
      cases e with
      | connected env conn => exact nodup_onPeerConnected hunique (hscan env conn rfl)
      | disconnected nowMs conn =>
        exact hunique.sublist (peerIdentities_sublist List.filter_sublist)
  · rintro m e ⟨-, hroles⟩ ⟨hafter, -⟩
    exact ⟨hafter, hroles.step e⟩
  · exact List.nodup_nil
  · intro p hp
    exact absurd hp List.not_mem_nil

section Sample

open Wire.Sample

/-- A node whose identity is larger than that of its visitor keeps new inbound connections. -/
def hostEnv : ConnectEnv := { acl := { ownNamespace := owned 5 } }

/-- A connection that the node with key 1 has opened. -/
def visit (id : ConnId) (role : Net.Role) : Connection :=
  { id, peerPubkey := key 1, peerRole := role, isInitiator := false }

/-- A peer connects, a client with the same key, and the peer again. -/
def reconnects : List ManagerEvent :=
  [.connected hostEnv (visit 0 .peer), .connected hostEnv (visit 1 .client),
    .connected hostEnv (visit 2 .peer)]

/-- **The client is closed in place of the peer**, which then has two entries. -/
theorem peer_twice_in_table :
    let before := run (ConnectionManager.step primitives) {} reconnects
    let (after, actions) := before.onPeerConnected primitives hostEnv (visit 3 .peer)
    before.peers.map (fun p => (p.connection.id, p.role)) = [(1, .client), (2, .peer)] ∧
      actions = [.close (visit 1 .client), .onConnect 3 "", .announceAndSync 3] ∧
      after.peers.map (fun p => (p.connection.id, p.role)) = [(2, .peer), (3, .peer)] ∧
      after.peerIdentities primitives = [owned 1, owned 1] := by
  refine ⟨by decide, rfl, by decide, by decide⟩

end Sample

/-! ## What a sweep deletes -/

section Sweep

variable {nowMs : UInt64} {t : Tables} {peerNs : Hash32}

/-- The identity is noted as gone for longer than the grace period. -/
def overdue (nowMs : UInt64) (m : ConnectionManager) (peerNs : Hash32) : Bool :=
  m.disconnectedPeers[peerNs]?.any fun disconnectTime => !withinGrace nowMs disconnectTime

/-- The entry makes the sweep forget the identity. -/
def drops (nowMs : UInt64) (peerNs : Hash32) (entry : Hash32 × UInt64) : Bool :=
  entry.1 = peerNs && !withinGrace nowMs entry.2

theorem overdue_eq_any :
    m.overdue nowMs peerNs = m.disconnectedPeers.toList.any (drops nowMs peerNs) := by
  rw [Bool.eq_iff_iff, overdue, Option.any_eq_true, any_toList_iff]
  constructor
  · rintro ⟨time, htime, hgrace⟩
    exact ⟨peerNs, time, htime, by simpa [drops] using hgrace⟩
  · rintro ⟨hash, time, htime, hdrops⟩
    simp only [drops, Bool.and_eq_true, decide_eq_true_eq] at hdrops
    obtain ⟨rfl, hgrace⟩ := hdrops
    exact ⟨time, htime, hgrace⟩

section Entry

variable (state : ConnectionManager × Tables) (entry : Hash32 × UInt64)

theorem getElem?_sweepEntry : (sweepEntry nowMs state entry).1.disconnectedPeers[peerNs]? =
    if drops nowMs peerNs entry then none else state.1.disconnectedPeers[peerNs]? := by
  unfold sweepEntry drops
  by_cases hgrace : withinGrace nowMs entry.2 = true
  · simp [hgrace]
  · simp [hgrace, getElem?_erase_eq]

theorem getSyncCursor_sweepEntry (ns : Hash32) :
    (sweepEntry nowMs state entry).2.getSyncCursor peerNs ns =
    if drops nowMs peerNs entry then none else state.2.getSyncCursor peerNs ns := by
  unfold sweepEntry drops
  by_cases hgrace : withinGrace nowMs entry.2 = true
  · simp [hgrace]
  · simp [hgrace, getSyncCursor_deletePeerCursors, eq_comm]

end Entry

/-- A look-up that some entries empty and the others leave alone. -/
theorem foldl_forget {σ ε α : Type*} (read : σ → Option α) {step : σ → ε → σ} {forgets : ε → Bool}
    (h : ∀ s e, read (step s e) = if forgets e then none else read s) :
    ∀ (entries : List ε) (s : σ),
      read (entries.foldl step s) = if entries.any forgets then none else read s
  | [], s => by simp
  | e :: entries, s => by
    rw [List.foldl_cons, foldl_forget read h entries, h, List.any_cons]
    cases forgets e with
    | true => simp
    | false => simp

theorem getElem?_safetyNet :
    (m.safetyNet nowMs t).1.disconnectedPeers[peerNs]? =
      if m.overdue nowMs peerNs then none else m.disconnectedPeers[peerNs]? := by
  rw [overdue_eq_any]
  exact foldl_forget (fun state : ConnectionManager × Tables => state.1.disconnectedPeers[peerNs]?)
    getElem?_sweepEntry _ _

theorem getSyncCursor_safetyNet (ns : Hash32) :
    (m.safetyNet nowMs t).2.getSyncCursor peerNs ns =
      if m.overdue nowMs peerNs then none else t.getSyncCursor peerNs ns := by
  rw [overdue_eq_any]
  exact foldl_forget (fun state : ConnectionManager × Tables => state.2.getSyncCursor peerNs ns)
    (fun state entry => getSyncCursor_sweepEntry state entry ns) _ _

/-- A compaction keeps the cursors of everyone who is connected. -/
theorem getSyncCursor_cursorCompaction (h : p ∈ m.peers) (ns : Hash32) :
    (m.cursorCompaction P nowMs t).getSyncCursor (p.peerHash P) ns =
      t.getSyncCursor (p.peerHash P) ns :=
  getSyncCursor_cleanupStaleCursors (List.mem_append_left _ (List.mem_map_of_mem h)) ns

end Sweep

end Peer.ConnectionManager

/-! ## Who is noted as gone -/

namespace Peer.Roster

open Infra Util Wire Storage ConnectionManager

variable {P : Primitives} {peerNs : Hash32}

/-- What a step notes about an identity: that it has gone, at the time of the close callback, or
that it has not, because a connection to it is registered or the sweep forgets it. -/
def note (P : Primitives) (peerNs : Hash32) (r : Roster) : RosterEvent → Option (Option UInt64)
  | .manager (.connected env conn) =>
    if conn.peerHash P = peerNs ∧ env.acl.isAllowed conn.role peerNs = true ∧
        refusedFor P env r.manager conn = none then some none
    else none
  | .manager (.disconnected nowMs conn) =>
    if conn.peerHash P = peerNs ∧ r.manager.wasClient conn = false then some (some nowMs) else none
  | .safetyNet nowMs => if r.manager.overdue nowMs peerNs then some none else none
  | .cursorCompaction _ | .write _ => none

theorem disconnectedPeers_onPeerConnected {env : ConnectEnv} {m : ConnectionManager}
    {conn : Connection} :
    (m.onPeerConnected P env conn).1.disconnectedPeers[peerNs]? =
      if conn.peerHash P = peerNs ∧ env.acl.isAllowed conn.role peerNs = true ∧
        refusedFor P env m conn = none then none
      else m.disconnectedPeers[peerNs]? := by
  by_cases hpeer : conn.peerHash P = peerNs
  · subst hpeer
    generalize hresult : m.onPeerConnected P env conn = result
    cases connects hresult with
    | denied hacl => simp [hacl]
    | fresh hacl hnew =>
      have hadmitted : refusedFor P env m conn = none := by
        unfold refusedFor
        split_ifs with htests
        · exact hnew htests.2.1
        · rfl
      simp [hacl, hadmitted, register]
    | replaced hacl hrole hdup hkeep => simp [hacl, refusedFor, hkeep, register]
    | refused hacl hrole hdup hkeep => simp [refusedFor, hkeep, hrole, hdup]
  · rw [if_neg (fun h => hpeer h.1)]
    generalize hresult : m.onPeerConnected P env conn = result
    cases connects hresult with
    | denied hacl => rfl
    | fresh hacl hnew => simp [register, getElem?_erase_eq, hpeer]
    | replaced hacl hrole hdup hkeep => simp [register, getElem?_erase_eq, hpeer]
    | refused hacl hrole hdup hkeep => rfl

theorem disconnectedPeers_step (r : Roster) (e : RosterEvent) :
    (r.step P e).manager.disconnectedPeers[peerNs]? =
      (note P peerNs r e).getD r.manager.disconnectedPeers[peerNs]? := by
  cases e with
  | manager e =>
    cases e with
    | connected env conn =>
      show (r.manager.onPeerConnected P env conn).1.disconnectedPeers[peerNs]? = _
      rw [disconnectedPeers_onPeerConnected, note]
      split_ifs <;> rfl
    | disconnected nowMs conn =>
      simp only [step, ConnectionManager.step, onPeerDisconnected, note]
      by_cases hclient : r.manager.wasClient conn = true
      · simp [hclient]
      · by_cases hpeer : conn.peerHash P = peerNs
        · simp [hclient, hpeer]
        · simp [hclient, hpeer, getElem?_insert_eq]
  | safetyNet nowMs =>
    show (r.manager.safetyNet nowMs r.tables).1.disconnectedPeers[peerNs]? = _
    rw [getElem?_safetyNet, note]
    split_ifs <;> rfl
  | cursorCompaction nowMs => rfl
  | write tables => rfl

/-- The last thing noted about the identity is the close callback of one of its connections. -/
def GoneSince (P : Primitives) (peerNs : Hash32) (time : UInt64) (events : List RosterEvent) :
    Prop :=
  ∃ before conn after, events = before ++ .manager (.disconnected time conn) :: after ∧
    conn.peerHash P = peerNs ∧ (run (Roster.step P) {} before).manager.wasClient conn = false ∧
    AllSteps (Roster.step P) (fun r e => note P peerNs r e = none)
      (run (Roster.step P) {} (before ++ [.manager (.disconnected time conn)])) after

theorem goneSince_iff {time : UInt64} {events : List RosterEvent} :
    GoneSince P peerNs time events ↔
      (run (Roster.step P) {} events).manager.disconnectedPeers[peerNs]? = some time := by
  have hstart : ({} : Roster).manager.disconnectedPeers[peerNs]? = none := by simp
  rw [read_run_eq_some (fun r : Roster => r.manager.disconnectedPeers[peerNs]?)
    disconnectedPeers_step hstart]
  constructor
  · rintro ⟨before, conn, after, hevents, hpeer, hclient, hquiet⟩
    exact ⟨before, _, after, hevents, by simp [note, hpeer, hclient], hquiet⟩
  · rintro ⟨before, e, after, hevents, hnote, hquiet⟩
    -- only a close callback notes a time
    cases e with
    | manager e =>
      cases e with
      | connected env conn => simp [note] at hnote
      | disconnected nowMs conn =>
        simp only [note] at hnote
        split_ifs at hnote with htests
        obtain rfl := Option.some.inj (Option.some.inj hnote)
        exact ⟨before, conn, after, hevents, htests.1, htests.2, hquiet⟩
    | safetyNet nowMs => simp [note] at hnote
    | cursorCompaction nowMs => simp [note] at hnote
    | write tables => simp [note] at hnote

/-- A round that deletes cursors. -/
def IsSweep : RosterEvent → Prop
  | .safetyNet _ | .cursorCompaction _ => True
  | .manager _ | .write _ => False

/--
**Cursors of connected peers.** For every run and every entry in the table at the time of a sweep,
the sweep leaves all cursors of the entry's identity in the store — unless there are any, the sweep
is the safety net, and the last thing noted about the identity is the close callback of one of its
connections, longer ago than the grace period. Since the entry is there, that callback came after
the connect of the identity: it is that of another connection, one that had been replaced. -/
theorem cursors_survive_iff (P : Primitives) (events : List RosterEvent) (sweep : RosterEvent)
    (hsweep : IsSweep sweep) {p : ConnectionManager.PeerInfo}
    (hp : p ∈ (run (Roster.step P) {} events).manager.peers) :
    let r := run (Roster.step P) {} events
    (∀ ns, (r.step P sweep).tables.getSyncCursor (p.peerHash P) ns =
        r.tables.getSyncCursor (p.peerHash P) ns) ↔
      ∀ nowMs time, sweep = .safetyNet nowMs → GoneSince P (p.peerHash P) time events →
        withinGrace nowMs time = false → ∀ ns, r.tables.getSyncCursor (p.peerHash P) ns = none := by
  intro r
  cases sweep with
  | manager e => exact absurd hsweep not_false
  | write tables => exact absurd hsweep not_false
  | cursorCompaction nowMs =>
    refine ⟨fun _ nowMs' time he => absurd he (by simp), fun _ ns => ?_⟩
    exact getSyncCursor_cursorCompaction hp ns
  | safetyNet nowMs =>
    have hswept (ns : Hash32) :
      (r.step P (.safetyNet nowMs)).tables.getSyncCursor (p.peerHash P) ns =
        if r.manager.overdue nowMs (p.peerHash P) then none
          else r.tables.getSyncCursor (p.peerHash P) ns :=
      getSyncCursor_safetyNet ns
    simp only [hswept, goneSince_iff]
    constructor
    · intro hkept nowMs' time he htime hgrace ns
      obtain rfl : nowMs = nowMs' := by simpa using he
      rw [← hkept ns, if_pos]
      simp [overdue, r, htime, hgrace]
    · intro hnone ns
      split_ifs with hoverdue
      · obtain ⟨time, htime, hgrace⟩ := Option.any_eq_true _ _ |>.mp hoverdue
        exact (hnone nowMs time rfl htime (by simpa using hgrace) ns).symm
      · rfl

section Sample

open Wire.Sample

/-- A peer connects twice, and a session leaves a cursor for it. -/
def replacedVisit : List RosterEvent :=
  [.manager (.connected hostEnv (visit 0 .peer)), .manager (.connected hostEnv (visit 1 .peer)),
    .write (Tables.setSyncCursor {} (owned 1) (owned 9) { seqNum := 1 })]

theorem cursors_survive_replacedVisit :
    (run (Roster.step primitives) {} replacedVisit).manager.peers =
      [infoOf hostEnv (visit 1 .peer)] ∧
    ∀ ns,
    ((run (Roster.step primitives) {} replacedVisit).step primitives
      (.safetyNet 301001)).tables.getSyncCursor
        (owned 1) ns =
      (run (Roster.step primitives) {} replacedVisit).tables.getSyncCursor (owned 1) ns := by
  have hpeers : (run (Roster.step primitives) {} replacedVisit).manager.peers =
      [infoOf hostEnv (visit 1 .peer)] := rfl
  have hsurvive := cursors_survive_iff primitives replacedVisit (.safetyNet 301001) trivial
    (hpeers ▸ List.mem_singleton_self _)
  have hhash : (infoOf hostEnv (visit 1 .peer)).peerHash primitives = owned 1 := hash_key 1
  rw [hhash] at hsurvive
  refine ⟨hpeers, hsurvive.mpr fun nowMs time _ hgone => ?_⟩
  have hnote :
      (run (Roster.step primitives) {} replacedVisit).manager.disconnectedPeers[owned 1]? =
          none := by
    decide
  rw [goneSince_iff, hnote] at hgone
  exact absurd hgone (by simp)

/-- **A connected peer loses its cursors**: the close callback of the connection that was replaced
runs after the connect that replaced it, and more than five minutes later the safety net sweeps. -/
theorem cursors_of_connected_peer_swept :
    let r :=
    run (Roster.step primitives) {}
      (replacedVisit ++ [.manager (.disconnected 1000 (visit 0 .peer))])
    r.manager.peers = [infoOf hostEnv (visit 1 .peer)] ∧
      r.tables.getSyncCursor (owned 1) (owned 9) = some { seqNum := 1 } ∧
      (r.step primitives (.safetyNet 301001)).tables.getSyncCursor (owned 1) (owned 9) = none := by
  have hswept {r : Roster} (h : r.manager.overdue 301001 (owned 1) = true) :
      (r.step primitives (.safetyNet 301001)).tables.getSyncCursor (owned 1) (owned 9) = none :=
    (getSyncCursor_safetyNet (owned 9)).trans (if_pos h)
  refine ⟨rfl, ?_, hswept (by decide)⟩
  show (Tables.setSyncCursor {} (owned 1) (owned 9) { seqNum := 1 }).getSyncCursor
    (owned 1) (owned 9) = _
  simp [Tables.setSyncCursor, Tables.getSyncCursor]

end Sample

end Peer.Roster
