import Chromatin.Properties.PeerTable

/-!
# Two nodes and the connections between them

Two nodes may open connections to each other at the same time, and each decides alone which one it
keeps: of an existing and a new connection the new one, if the node with the smaller identity has
opened it. A node that has seen all connections is left with the last one that the smaller identity
has opened, and with the first one if it has opened none (`survivor`).

Nothing makes the two nodes see the connections in the same order. If they would be left with
different connections, each closes what the other one keeps.

* `dedup_agreement_iff` — for every pair of orders: one connection, the same on both sides, is left
  in every interleaving exactly if both orders have the same survivor
-/

namespace Peer

open Infra Util Wire

/-! ## The pair -/

/-- The two nodes, by the order of their identities. -/
inductive End
  | lower
  | higher
deriving DecidableEq

def End.other : End → End
  | .lower => .higher
  | .higher => .lower

/-- The keys of two nodes with different identities. -/
structure Pairing (P : Primitives) where
  key : End → PubKey
  ordered : P.sha3_256 (key .lower).toList < P.sha3_256 (key .higher).toList

def Pairing.identity {P : Primitives} (A : Pairing P) (node : End) : Hash32 :=
  P.sha3_256 (A.key node).toList

/-- A connection between the two nodes. -/
structure SharedConnection where
  id : ConnId
  opener : End
  /-- where the opener has connected to -/
  connectAddress : String := ""
  remoteAddress : End → String := fun _ => ""

section

variable {P : Primitives} (A : Pairing P)

/-- The connection as one of the nodes has it. -/
def SharedConnection.seenFrom (c : SharedConnection) (node : End) : Connection where
  id := c.id
  peerPubkey := A.key node.other
  peerRole := .peer
  isInitiator := c.opener = node
  remoteAddress := c.remoteAddress node
  connectAddress := if c.opener = node then some c.connectAddress else none

/-- Both nodes, and the connections that one of them has closed. -/
structure Pair where
  manager : End → ConnectionManager
  closed : List ConnId := []

inductive PairEvent
  | connected (node : End) (env : ConnectEnv) (c : SharedConnection)
  | disconnected (node : End) (nowMs : UInt64) (c : SharedConnection)

/-- The connections that a call closes. -/
def closedBy (actions : List Action) : List ConnId :=
  actions.filterMap fun action =>
    match action with
    | .close conn => some conn.id
    | _ => none

def Pair.step (s : Pair) : PairEvent → Pair
  | .connected node env c =>
    let (m, actions) := (s.manager node).onPeerConnected P env (c.seenFrom A node)
    { manager := Function.update s.manager node m, closed := s.closed ++ closedBy actions }
  | .disconnected node nowMs c =>
    let (m, _) := (s.manager node).onPeerDisconnected P nowMs (c.seenFrom A node)
    { s with manager := Function.update s.manager node m }

/-- The settings are those of the node, and it lets the other one in. -/
def Suits (node : End) (env : ConnectEnv) : Prop :=
  env.ownNs = A.identity node ∧ env.acl.isPeerAllowed (A.identity node.other) = true

/-- Only connections that were closed are lost. -/
def Regular (s : Pair) : PairEvent → Prop
  | .connected node env _ => Suits A node env
  | .disconnected _ _ c => c.id ∈ s.closed

/-- The connection a node is told of. -/
def connectedAt (node : End) : PairEvent → Option SharedConnection
  | .connected node' _ c => if node' = node then some c else none
  | .disconnected .. => none

/-- A run in which each node is told of the connections in its own order. -/
structure Schedule (orders : End → List SharedConnection) (start : Pair) (events : List PairEvent) :
    Prop where
  order : ∀ node, events.filterMap (connectedAt node) = orders node
  steps : AllSteps (Pair.step A) (Regular A) start events

/-- The same connections on both sides, none of them known before. -/
structure NewConnections (orders : End → List SharedConnection) (start : Pair) : Prop where
  nonempty : orders .lower ≠ []
  same : (orders .lower).Perm (orders .higher)
  distinct : ((orders .lower).map SharedConnection.id).Nodup
  unknown : ∀ node, ∀ p ∈ (start.manager node).peers, p.peerHash P ≠ A.identity node.other
  isOpen : ∀ c ∈ orders .lower, c.id ∉ start.closed

/-- One of the connections is left open, and both nodes have it in their tables. -/
def Agreed (conns : List SharedConnection) (s : Pair) : Prop :=
  ∃ c ∈ conns, (∀ c' ∈ conns, c'.id ∉ s.closed ↔ c'.id = c.id) ∧
    ∀ node, ∃ p ∈ (s.manager node).peers, p.connection = c.seenFrom A node

end

/-- The last connection that the node with the smaller identity has opened, else the first one. -/
def survivor (order : List SharedConnection) : Option SharedConnection :=
  ((order.filter fun c => c.opener = .lower).getLast?).or order.head?

/-! ## One node -/

section Held

open ConnectionManager

variable {P : Primitives} {A : Pairing P} {node : End} {env : ConnectEnv} {m : ConnectionManager}
  {c d : SharedConnection} {s : Pair}

theorem keepNew_seenFrom (h : Suits A node env) :
    keepNew env.ownNs (A.identity node.other) (c.seenFrom A node).isInitiator =
        decide (c.opener = .lower) := by
  have hlt : A.identity .lower < A.identity .higher := A.ordered
  rw [keepNew, h.1]
  cases node with
  | lower => simp [End.other, hlt, SharedConnection.seenFrom]
  | higher =>
    rw [End.other, if_neg (lt_asymm hlt)]
    cases hopener : c.opener <;> simp [SharedConnection.seenFrom, hopener]

theorem isAllowed_seenFrom (h : Suits A node env) :
    env.acl.isAllowed (c.seenFrom A node).role ((c.seenFrom A node).peerHash P) = true := h.2

/-- The connections to the other node in the table. -/
def heldBy (A : Pairing P) (node : End) (m : ConnectionManager) : List Connection :=
  (m.peers.filter fun p => p.peerHash P = A.identity node.other).map PeerInfo.connection

theorem heldBy_register {conn : Connection} (h : conn.peerHash P = A.identity node.other) :
    heldBy A node (m.register P env conn).1 = heldBy A node m ++ [conn] := by
  have hnew : (infoOf env conn).peerHash P = A.identity node.other := h
  rw [heldBy, register, List.filter_append, List.map_append,
    List.filter_cons_of_pos (by simpa using hnew)]
  rfl

/-- The scan finds the first of them, and erasing what it finds leaves the others. -/
theorem heldBy_of_duplicateOf {existing : ConnectionManager.PeerInfo}
    (h : m.duplicateOf P (A.identity node.other) = some existing) :
    ∃ rest, heldBy A node m = existing.connection :: rest ∧
      heldBy A node { m with
        peers := m.peers.eraseP fun p => p.peerHash P = A.identity node.other } = rest := by
  obtain ⟨before, after, hsplit, hbefore, herase⟩ := duplicateOf_eq_some h
  have hnone : before.filter (fun p => p.peerHash P = A.identity node.other) = [] :=
    List.filter_eq_nil_iff.mpr fun q hq => by simpa using hbefore q hq
  have hfound : existing.peerHash P = A.identity node.other := (mem_duplicateOf h).2
  refine ⟨(after.filter fun p =>
    p.peerHash P = A.identity node.other).map ConnectionManager.PeerInfo.connection, ?_, ?_⟩
  · simp [heldBy, hsplit, hnone, hfound]
  · simp [heldBy, herase, hnone]

theorem heldBy_eq_nil (h : m.duplicateOf P (A.identity node.other) = none) :
    heldBy A node m = [] := by
  have hnone := List.find?_eq_none.mp h
  rw [heldBy, List.filter_eq_nil_iff.mpr hnone, List.map_nil]

theorem closedBy_closeDuplicate (conn : Connection) (actions : List Action) :
    closedBy (closeDuplicate conn ++ actions) = conn.id :: closedBy actions := by
  cases h : conn.connectAddress <;> simp [closedBy, closeDuplicate, h]

theorem closedBy_register (m : ConnectionManager) (conn : Connection) :
    closedBy (m.register P env conn).2 = [] := by
  unfold register
  split_ifs <;> rfl

/-- **What a node does with a new connection to the other one.** The only one is kept; a further one
takes the place of the first or is closed, by who has opened it. -/
theorem heldBy_onPeerConnected (h : Suits A node env) {result : ConnectionManager × List Action}
    (hresult : m.onPeerConnected P env (c.seenFrom A node) = result) :
    (heldBy A node m = [] ∧ heldBy A node result.1 = [c.seenFrom A node] ∧ closedBy result.2 = []) ∨
    (∃ existing rest, heldBy A node m = existing :: rest ∧ c.opener = .lower ∧
      heldBy A node result.1 = rest ++ [c.seenFrom A node] ∧ closedBy result.2 = [existing.id]) ∨
    (∃ existing rest, heldBy A node m = existing :: rest ∧ c.opener ≠ .lower ∧
      heldBy A node result.1 = existing :: rest ∧ closedBy result.2 = [c.id]) := by
  have hidentity : (c.seenFrom A node).peerHash P = A.identity node.other := rfl
  have hopener := keepNew_seenFrom (c := c) h
  cases connects hresult with
  | denied hacl =>
    rw [isAllowed_seenFrom h] at hacl
    exact absurd hacl (by simp)
  | fresh hacl hnew =>
    have hnone := heldBy_eq_nil (hnew rfl)
    refine .inl ⟨hnone, ?_, closedBy_register m _⟩
    rw [heldBy_register hidentity, hnone, List.nil_append]
  | @replaced existing hacl hrole hfound hkeep =>
    obtain ⟨rest, hheld, herased⟩ := heldBy_of_duplicateOf (A := A) hfound
    refine .inr (.inl ⟨existing.connection, rest, hheld, ?_, ?_, ?_⟩)
    · exact of_decide_eq_true (hopener.symm.trans hkeep)
    · rw [heldBy_register hidentity, hidentity, herased]
    · rw [closedBy_closeDuplicate, closedBy_register]
  | @refused existing hacl hrole hfound hkeep =>
    obtain ⟨rest, hheld, -⟩ := heldBy_of_duplicateOf (A := A) hfound
    refine .inr (.inr ⟨existing.connection, rest, hheld, ?_, hheld, ?_⟩)
    · exact of_decide_eq_false (hopener.symm.trans hkeep)
    · rw [← List.append_nil (closeDuplicate _)]
      exact closedBy_closeDuplicate (c.seenFrom A node) []

theorem heldBy_onPeerDisconnected (nowMs : UInt64) :
    heldBy A node (m.onPeerDisconnected P nowMs (c.seenFrom A node)).1 =
      (heldBy A node m).filter fun conn => conn.id ≠ c.id := by
  simp only [heldBy, onPeerDisconnected, List.filter_map, List.filter_filter]
  congr 1
  exact List.filter_congr fun p _ => Bool.and_comm _ _

end Held

/-! ## Both nodes -/

section Agreement

variable {P : Primitives} {A : Pairing P} {orders : End → List SharedConnection} {start s : Pair}
  {events : List PairEvent}

def Pair.held (A : Pairing P) (s : Pair) (node : End) : List Connection :=
  heldBy A node (s.manager node)

/-- A step of a run changes what one node holds. -/
theorem Pair.held_step_connected (node : End) (env : ConnectEnv) (c : SharedConnection)
    (node' : End) :
    (s.step A (.connected node env c)).held A node' =
      if node' = node then heldBy A node
        ((s.manager node).onPeerConnected P env (c.seenFrom A node)).1
      else s.held A node' := by
  by_cases h : node' = node
  · subst h; simp [Pair.held, Pair.step]
  · simp [Pair.held, Pair.step, h]

theorem Pair.held_step_disconnected (node : End) (nowMs : UInt64) (c : SharedConnection)
    (node' : End) :
    (s.step A (.disconnected node nowMs c)).held A node' =
      if node' = node then (s.held A node).filter fun conn =>
          conn.id ≠ c.id else s.held A node' := by
  by_cases h : node' = node
  · subst h
    simp only [Pair.held, Pair.step, Function.update_self, if_true]
    exact heldBy_onPeerDisconnected nowMs
  · simp [Pair.held, Pair.step, h]

/-- The connections a node has been told of. -/
def told (events : List PairEvent) (node : End) : List SharedConnection :=
  events.filterMap (connectedAt node)

theorem told_append_connected (node : End) (env : ConnectEnv) (c : SharedConnection) (node' : End) :
    told (events ++ [.connected node env c]) node' =
      if node' = node then told events node ++ [c] else told events node' := by
  by_cases h : node' = node
  · subst h; simp [told, connectedAt]
  · simp [told, connectedAt, h, Ne.symm h]

theorem told_append_disconnected (node : End) (nowMs : UInt64) (c : SharedConnection) :
    told (events ++ [.disconnected node nowMs c]) = told events := by
  funext node'
  simp [told, connectedAt]

/-- What holds after the nodes have been told of the connections in `done`: the common survivor is
open, a node holds at most one connection, and of those it has been told of no other one is open. -/
structure Deduplicated (A : Pairing P) (star : SharedConnection)
    (done : End → List SharedConnection) (s : Pair) : Prop where
  isOpen : star.id ∉ s.closed
  single : ∀ node, s.held A node = [] ∨ ∃ c ∈ done node, s.held A node = [c.seenFrom A node]
  held : ∀ node, ∀ c ∈ done node, c.id ∉ s.closed → s.held A node = [c.seenFrom A node]

variable {star c d : SharedConnection} {done done' : End → List SharedConnection} {node : End}
  {env : ConnectEnv}

theorem SharedConnection.id_of_seenFrom (h : [c.seenFrom A node] = [d.seenFrom A node]) :
    c.id = d.id :=
  congrArg Connection.id (List.cons.inj h).1

/-- A node is told of a connection. The survivor must not be replaced once the node holds it, and if
it does not replace others, the node must be told of it first. -/
theorem Deduplicated.connected (h : Deduplicated A star done s) (hsuits : Suits A node env)
    (hdone : ∀ node', done' node' = if node' = node then done node ++ [c] else done node')
    (hreplaced : (∃ d ∈ done node, d.id = star.id) → c.opener ≠ .lower)
    (hrefused : c.id = star.id → c.opener ≠ .lower → done node = []) :
    Deduplicated A star done' (s.step A (.connected node env c)) := by
  generalize hresult : (s.manager node).onPeerConnected P env (c.seenFrom A node) = result
  have hclosed : (s.step A (.connected node env c)).closed = s.closed ++ closedBy result.2 := by
    rw [← hresult]; rfl
  have hheld (node' : End) := Pair.held_step_connected (A := A) (s := s) node env c node'
  rw [hresult] at hheld
  -- the other node holds what it held, and a connection that is open now was open before
  suffices hnode : star.id ∉ closedBy result.2 ∧
      (∃ d ∈ done node ++ [c], heldBy A node result.1 = [d.seenFrom A node]) ∧
      ∀ d ∈ done node ++ [c], d.id ∉ s.closed ++ closedBy result.2 →
        heldBy A node result.1 = [d.seenFrom A node] by
    obtain ⟨hstar, hsingle, hall⟩ := hnode
    refine ⟨by simp [hclosed, h.isOpen, hstar], fun node' => ?_, fun node' d hd hopen => ?_⟩
    · rw [hheld, hdone]
      split_ifs with heq
      · rw [heq]; exact .inr hsingle
      · exact h.single node'
    · rw [hdone] at hd
      rw [hclosed] at hopen
      rw [hheld]
      split_ifs at hd ⊢ with heq
      · rw [heq]; exact hall d hd hopen
      · exact h.held node' d hd fun hmem => hopen (List.mem_append_left _ hmem)
  have hfrom (d : SharedConnection) (hd : d ∈ done node)
    (hopen : d.id ∉ s.closed ++ closedBy result.2) :
      s.held A node = [d.seenFrom A node] :=
    h.held node d hd fun hmem => hopen (List.mem_append_left _ hmem)
  obtain ⟨hnil, hnew, hnone⟩ | ⟨existing, rest, hexisting, hopener, hnew, hone⟩ |
    ⟨existing, rest, hexisting, hopener, hnew, hone⟩ := heldBy_onPeerConnected hsuits hresult
  · refine ⟨by simp [hnone], ⟨c, by simp, hnew⟩, fun d hd hopen => ?_⟩
    rcases List.mem_append.mp hd with hd | hd
    · exact absurd (hnil.symm.trans (hfrom d hd hopen)) (by simp)
    · rw [List.mem_singleton.mp hd, hnew]
  all_goals
    obtain ⟨e, he, hheldE⟩ := (h.single node).resolve_left (by rw [Pair.held, hexisting]; simp)
    obtain ⟨rfl, rfl⟩ := List.cons.inj (hexisting.symm.trans hheldE)
    rw [hone]
  · refine ⟨?_, ⟨c, by simp, hnew⟩, fun d hd hopen => ?_⟩
    · intro hmem
      exact hreplaced ⟨e, he, (List.mem_singleton.mp hmem).symm⟩ hopener
    rcases List.mem_append.mp hd with hd | hd
    · -- of those it was told of before, the node held the one it has closed now
      have hsame := SharedConnection.id_of_seenFrom (hheldE.symm.trans (hfrom d hd (hone ▸ hopen)))
      exact absurd (List.mem_append_right _ (List.mem_singleton.mpr hsame.symm)) hopen
    · rw [List.mem_singleton.mp hd, hnew, List.nil_append]
  · refine ⟨?_, ⟨e, List.mem_append_left _ he, hnew⟩, fun d hd hopen => ?_⟩
    · intro hmem
      rw [hrefused (List.mem_singleton.mp hmem).symm hopener] at he
      exact absurd he (by simp)
    rcases List.mem_append.mp hd with hd | hd
    · rw [hnew, ← hheldE]
      exact hfrom d hd (hone ▸ hopen)
    · rw [List.mem_singleton.mp hd] at hopen
      exact absurd (List.mem_append_right _ (List.mem_singleton_self _)) hopen

theorem Deduplicated.disconnected (h : Deduplicated A star done s) {nowMs : UInt64}
    (hclosed : c.id ∈ s.closed) :
    Deduplicated A star done (s.step A (.disconnected node nowMs c)) := by
  have hheld (node' : End) := Pair.held_step_disconnected (A := A) (s := s) node nowMs c node'
  refine ⟨h.isOpen, fun node' => ?_, fun node' d hd hopen => ?_⟩
  · rw [hheld]
    split_ifs with heq
    · subst heq
      obtain hnil | ⟨d, hd, hone⟩ := h.single node'
      · simp [hnil]
      · rw [hone]
        by_cases hid : (d.seenFrom A node').id = c.id
        · exact .inl (by simp [hid])
        · exact .inr ⟨d, hd, by simp [hid]⟩
    · exact h.single node'
  · have hone := h.held node' d hd hopen
    have hid : (d.seenFrom A node').id ≠ c.id := by
      intro heq
      rw [← heq] at hclosed
      exact hopen hclosed
    rw [hheld]
    split_ifs with heq
    · subst heq
      simp [hone, hid]
    · exact hone

/-! ## The survivor -/

/-- Nothing that could replace the survivor comes after it. -/
theorem opener_ne_lower_of_survivor {before after : List SharedConnection}
    (h : survivor (before ++ c :: after) = some star) (hnodup : (before ++ c :: after).Nodup)
    (hmem : star ∈ before) : c.opener ≠ .lower := by
  intro hlower
  have hlast : star ∈ c :: after := by
    rw [survivor, List.filter_append, List.filter_cons_of_pos (by simpa using hlower),
      List.getLast?_append,
      List.getLast?_cons, Option.some_or, Option.some_or, ← List.getLast?_cons] at h
    exact (List.mem_cons.mp (List.mem_of_getLast? h)).elim (fun heq => heq ▸ List.mem_cons_self)
      fun hafter => List.mem_cons_of_mem _ (List.mem_of_mem_filter hafter)
  exact (List.nodup_append.mp hnodup).2.2 star hmem star hlast rfl

/-- A survivor that cannot replace others comes first. -/
theorem eq_nil_of_survivor {before after : List SharedConnection}
    (h : survivor (before ++ star :: after) = some star) (hnodup : (before ++ star :: after).Nodup)
    (hopener : star.opener ≠ .lower) : before = [] := by
  cases before with
  | nil => rfl
  | cons first before =>
    rw [survivor] at h
    cases hlast :
      (List.filter (fun c => c.opener = .lower) (first :: before ++ star :: after)).getLast? with
    | some last =>
      rw [hlast, Option.some_or] at h
      cases h
      exact absurd (of_decide_eq_true (List.mem_filter.mp (List.mem_of_getLast? hlast)).2) hopener
    | none =>
      rw [hlast] at h
      obtain rfl : first = star := by simpa using h
      simp at hnodup

theorem survivor_append_singleton (order : List SharedConnection) (c : SharedConnection) :
    survivor (order ++ [c]) =
      if c.opener = .lower then some c else (survivor order).or (some c) := by
  by_cases hopener : c.opener = .lower
  · simp [survivor, hopener]
  · cases order <;> simp [survivor, hopener]

theorem survivor_mem {order : List SharedConnection} (h : survivor order = some star) :
    star ∈ order := by
  rcases Option.or_eq_some_iff.mp h with hlast | ⟨-, hhead⟩
  · exact List.mem_of_mem_filter (List.mem_of_getLast? hlast)
  · exact List.mem_of_mem_head? hhead

theorem exists_survivor {order : List SharedConnection} (h : order ≠ []) :
    ∃ star, survivor order = some star := by
  cases order with
  | nil => exact absurd rfl h
  | cons c order => exact Option.isSome_iff_exists.mp (by simp [survivor])

/-! ## Agreement -/

theorem NewConnections.order_nodup (h : NewConnections A orders start) (node : End) :
    (orders node).Nodup := by
  have hlower : (orders .lower).Nodup := h.distinct.of_map
  cases node with
  | lower => exact hlower
  | higher => exact h.same.nodup_iff.mp hlower

theorem NewConnections.mem_lower (h : NewConnections A orders start) (node : End) :
    c ∈ orders node ↔ c ∈ orders .lower := by
  cases node with
  | lower => rfl
  | higher => exact h.same.mem_iff.symm

theorem NewConnections.eq_of_id (h : NewConnections A orders start) (hc : c ∈ orders .lower)
    (hd : d ∈ orders .lower) (hid : c.id = d.id) : c = d :=
  List.inj_on_of_nodup_map h.distinct hc hd hid

theorem NewConnections.held_start (h : NewConnections A orders start) (node : End) :
    start.held A node = [] := by
  rw [Pair.held, heldBy, List.filter_eq_nil_iff.mpr, List.map_nil]
  intro p hp
  simpa using h.unknown node p hp

/-- Whatever the interleaving: as long as each node is told in its own order, and both orders have
the same survivor, the invariant holds. -/
theorem deduplicated_run (hnew : NewConnections A orders start)
    (hstar : ∀ node, survivor (orders node) = some star)
    (hsteps : AllSteps (Pair.step A) (Regular A) start events)
    (htold : ∀ node, told events node <+: orders node) :
    Deduplicated A star (told events) (run (Pair.step A) start events) := by
  have hmem := (hnew.mem_lower .lower).mp (survivor_mem (hstar .lower))
  revert htold
  refine run_induction (motive := fun events => (∀ node, told events node <+: orders node) →
    Deduplicated A star (told events) (run (Pair.step A) start events)) ?_ ?_ hsteps
  · intro _
    exact ⟨hnew.isOpen star hmem, fun node => .inl (hnew.held_start node), fun node c hc =>
      absurd hc (by simp [told])⟩
  · intro before e ih hregular htold
    rw [run_append, run_cons, run_nil]
    cases e with
    | disconnected node nowMs c =>
      rw [told_append_disconnected] at htold ⊢
      exact (ih htold).disconnected hregular
    | connected node env c =>
      have htoldNode := @told_append_connected before node env c
      obtain ⟨after, hafter⟩ : told before node ++ [c] <+: orders node := by
        simpa [htoldNode] using htold node
      rw [List.append_assoc, List.singleton_append] at hafter
      have hnodup := hnew.order_nodup node
      have hsurvivor := hstar node
      have hlower (d : SharedConnection) (hd : d ∈ told before node ++ c :: after) :
        d ∈ orders .lower :=
        (hnew.mem_lower node).mp (hafter ▸ hd)
      refine (ih fun node' => ?_).connected hregular htoldNode ?_ ?_
      · refine List.IsPrefix.trans ?_ (htold node')
        rw [htoldNode]
        split_ifs with heq
        · rw [heq]; exact List.prefix_append _ _
        · exact List.prefix_rfl
      all_goals rw [← hafter] at hnodup hsurvivor
      · rintro ⟨d, hd, hid⟩
        obtain rfl := hnew.eq_of_id (hlower d (List.mem_append_left _ hd)) hmem hid
        exact opener_ne_lower_of_survivor hsurvivor hnodup hd
      · intro hid hopener
        obtain rfl := hnew.eq_of_id (hlower c (by simp)) hmem hid
        exact eq_nil_of_survivor hsurvivor hnodup hopener

theorem Deduplicated.agreed (h : Deduplicated A star orders s)
    (hnew : NewConnections A orders start)
    (hmem : star ∈ orders .lower) : Agreed A (orders .lower) s := by
  refine ⟨star, hmem, fun c hc => ⟨fun hopen => ?_, fun hid => hid ▸ h.isOpen⟩, fun node => ?_⟩
  · have hheld := h.held .lower star hmem h.isOpen
    exact SharedConnection.id_of_seenFrom ((h.held .lower c hc hopen).symm.trans hheld)
  · have hheld := h.held node star ((hnew.mem_lower node).mpr hmem) h.isOpen
    obtain ⟨p, hp, hconn⟩ :=
      List.mem_map.mp (hheld ▸ List.mem_singleton_self _ : star.seenFrom A node ∈ s.held A node)
    exact ⟨p, List.mem_of_mem_filter hp, hconn⟩

/-! ## One node after the other -/

/-- The settings of a node without access lists. -/
def openEnv (A : Pairing P) (node : End) : ConnectEnv :=
  { acl := { ownNamespace := A.identity node } }

theorem suits_openEnv (A : Pairing P) (node : End) : Suits A node (openEnv A node) := ⟨rfl, rfl⟩

/-- A node is told of all connections at once. -/
def tell (A : Pairing P) (node : End) (order : List SharedConnection) : List PairEvent :=
  order.map (.connected node (openEnv A node))

theorem regular_tell (node : End) (order : List SharedConnection) (s : Pair) :
    AllSteps (Pair.step A) (Regular A) s (tell A node order) := by
  induction order generalizing s with
  | nil => trivial
  | cons c order ih => exact ⟨suits_openEnv A node, ih _⟩

theorem told_tell (node node' : End) (order : List SharedConnection) :
    told (tell A node order) node' = if node' = node then order else [] := by
  by_cases h : node' = node
  · subst h; simp [told, tell, connectedAt, List.filterMap_map, Function.comp_def]
  · simp [told, tell, connectedAt, List.filterMap_map, Function.comp_def, Ne.symm h, h]

/-- Told of everything, a node is left with the survivor. -/
theorem held_run_tell (hheld : s.held A node = []) (order : List SharedConnection) :
    (run (Pair.step A) s (tell A node order)).held A node =
      (survivor order).toList.map fun c => c.seenFrom A node := by
  induction order using List.reverseRecOn with
  | nil => exact hheld
  | append_singleton order c ih =>
    rw [tell, List.map_append, run_append, List.map_singleton, run_cons, run_nil, ← tell,
      Pair.held_step_connected, if_pos rfl, survivor_append_singleton]
    generalize run (Pair.step A) s (tell A node order) = s' at ih ⊢
    generalize hresult : (s'.manager node).onPeerConnected P (openEnv A node) (c.seenFrom A node) =
      result
    rw [Pair.held] at ih
    obtain ⟨hnil, hnew, -⟩ | ⟨existing, rest, hexisting, hopener, hnew, -⟩ |
      ⟨existing, rest, hexisting, hopener, hnew, -⟩ :=
        heldBy_onPeerConnected (suits_openEnv A node) hresult
    · have hnone : survivor order = none := by simpa [hnil] using ih.symm
      rw [hnew, hnone, Option.none_or, ite_self]
      rfl
    · have hrest : rest = [] := by
        rw [hexisting] at ih
        cases hsurvivor : survivor order with
        | none => simp [hsurvivor] at ih
        | some e => simpa [hsurvivor] using (congrArg List.tail ih)
      rw [hnew, hrest, if_pos hopener]
      rfl
    · obtain ⟨e, hsurvivor⟩ : ∃ e, survivor order = some e := by
        refine Option.ne_none_iff_exists'.mp fun hnone => ?_
        rw [hnone, hexisting] at ih
        exact absurd ih (by simp)
      rw [hnew, ← hexisting, ih, if_neg hopener, hsurvivor, Option.some_or]

theorem held_run_tell_other {node' : End}
    (h : node' ≠ node) (order : List SharedConnection) (s : Pair) :
    (run (Pair.step A) s (tell A node order)).held A node' = s.held A node' := by
  induction order generalizing s with
  | nil => rfl
  | cons c order ih =>
    show (run (Pair.step A) (s.step A (.connected node (openEnv A node) c))
      (tell A node order)).held A node' = _
    rw [ih, Pair.held_step_connected, if_neg h]

/-- One node is told of everything first, then the other one; no close callback has run yet. -/
def oneAfterTheOther (A : Pairing P) (orders : End → List SharedConnection) : List PairEvent :=
  tell A .lower (orders .lower) ++ tell A .higher (orders .higher)

theorem schedule_oneAfterTheOther (orders : End → List SharedConnection) (start : Pair) :
    Schedule A orders start (oneAfterTheOther A orders) where
  order node := by
    show told (tell A .lower (orders .lower) ++ tell A .higher (orders .higher)) node = orders node
    rw [told, List.filterMap_append, ← told, ← told, told_tell, told_tell]
    cases node <;> simp
  steps := allSteps_append.mpr ⟨regular_tell .lower _ _, regular_tell .higher _ _⟩

theorem held_oneAfterTheOther (hnew : NewConnections A orders start) (node : End) :
    (run (Pair.step A) start (oneAfterTheOther A orders)).held A node =
      (survivor (orders node)).toList.map fun c => c.seenFrom A node := by
  rw [oneAfterTheOther, run_append]
  cases node with
  | lower => rw [held_run_tell_other (by decide), held_run_tell (hnew.held_start .lower)]
  | higher => rw [held_run_tell (by rw [held_run_tell_other (by decide), hnew.held_start])]

/-- A connection that both nodes hold is the survivor of both orders. -/
theorem survivor_id_of_agreed
    (hheld : s.held A node = (survivor (orders node)).toList.map fun c => c.seenFrom A node)
    (hentry : ∃ p ∈ (s.manager node).peers, p.connection = c.seenFrom A node) :
    (survivor (orders node)).map SharedConnection.id = some c.id := by
  obtain ⟨p, hp, hconn⟩ := hentry
  have hhash : p.peerHash P = A.identity node.other := by
    rw [ConnectionManager.PeerInfo.peerHash, hconn]; rfl
  have hmem : c.seenFrom A node ∈ s.held A node :=
    List.mem_map.mpr ⟨p, List.mem_filter.mpr ⟨hp, by simpa using hhash⟩, hconn⟩
  rw [hheld] at hmem
  obtain ⟨star, hstar, heq⟩ := List.mem_map.mp hmem
  rw [Option.mem_toList.mp hstar, Option.map_some]
  exact congrArg some (congrArg Connection.id heq)

/-- **The two nodes agree exactly if both orders have the same survivor**: then in every
interleaving, with the close callbacks at any time, one connection is left and both nodes have it in
their tables. -/
theorem dedup_agreement_iff {P : Primitives} (A : Pairing P) (orders : End → List SharedConnection)
    (start : Pair) (hnew : NewConnections A orders start) :
    (∀ events, Schedule A orders start events →
      Agreed A (orders .lower) (run (Pair.step A) start events)) ↔
    (survivor (orders .lower)).map SharedConnection.id =
      (survivor (orders .higher)).map SharedConnection.id := by
  constructor
  · intro hagreed
    obtain ⟨c, -, -, hboth⟩ := hagreed _ (schedule_oneAfterTheOther orders start)
    rw [survivor_id_of_agreed (held_oneAfterTheOther hnew .lower) (hboth .lower),
      survivor_id_of_agreed (held_oneAfterTheOther hnew .higher) (hboth .higher)]
  · intro hsame events hschedule
    have hnonempty : orders .higher ≠ [] :=
      fun h => hnew.nonempty (List.Perm.eq_nil (h ▸ hnew.same))
    obtain ⟨star, hlower⟩ := exists_survivor hnew.nonempty
    obtain ⟨star', hhigher⟩ := exists_survivor hnonempty
    have hmem := survivor_mem hlower
    have hid : star.id = star'.id := by simpa [hlower, hhigher] using hsame
    obtain rfl := hnew.eq_of_id hmem ((hnew.mem_lower .higher).mp (survivor_mem hhigher)) hid
    have hstar (node : End) : survivor (orders node) = some star := by cases node <;> assumption
    have hend := deduplicated_run hnew hstar hschedule.steps fun node =>
      ⟨[], by rw [List.append_nil]; exact hschedule.order node⟩
    rw [show told events = orders from funext hschedule.order] at hend
    exact hend.agreed hnew hmem

end Agreement

section Sample

open Sample

/-- Two nodes by their sample keys. -/
def neighbours : Pairing primitives where
  key
    | .lower => key 1
    | .higher => key 5
  ordered := by rw [hash_key, hash_key]; decide

def link (id : ConnId) (opener : End) : SharedConnection :=
  { id, opener, connectAddress := "peer:4200" }

/-- Each node is told of its own connection first. -/
def crossing : End → List SharedConnection
  | .lower => [link 0 .lower, link 1 .higher]
  | .higher => [link 1 .higher, link 0 .lower]

def strangers : Pair := { manager := fun _ => {} }

theorem dedup_agreement_crossing :
    NewConnections neighbours crossing strangers ∧
    ∀ events, Schedule neighbours crossing strangers events →
      Agreed neighbours (crossing .lower) (run (Pair.step neighbours) strangers events) := by
  have hnew : NewConnections neighbours crossing strangers :=
    { nonempty := by simp [crossing]
      same := List.Perm.swap _ _ _
      distinct := by decide
      unknown := fun node p hp => absurd hp (by simp [strangers])
      isOpen := fun c _ => by simp [strangers] }
  exact ⟨hnew, (dedup_agreement_iff neighbours crossing strangers hnew).mpr (by decide)⟩

/-- The node with the smaller identity has opened both connections, and the other one is told of
the second one first. -/
def overtaking : End → List SharedConnection
  | .lower => [link 0 .lower, link 1 .lower]
  | .higher => [link 1 .lower, link 0 .lower]

/-- Both nodes are told of both connections; then the close callbacks run. -/
def overtakingRun : List PairEvent :=
  oneAfterTheOther neighbours overtaking ++
    [.disconnected .lower 0 (link 0 .lower), .disconnected .higher 0 (link 0 .lower),
      .disconnected .lower 0 (link 1 .lower), .disconnected .higher 0 (link 1 .lower)]

/-- **Each node closes the connection that the other one keeps**, and none is left. -/
theorem dedup_closes_both :
    Schedule neighbours overtaking strangers overtakingRun ∧
      (run (Pair.step neighbours) strangers overtakingRun).closed = [0, 1] ∧
      ∀ node, ((run (Pair.step neighbours) strangers overtakingRun).manager node).peers = [] := by
  refine ⟨⟨fun node => ?_, ?_⟩, ?_, fun node => ?_⟩
  · cases node <;> rfl
  · have hclosed :
      (run (Pair.step neighbours) strangers (oneAfterTheOther neighbours overtaking)).closed =
          [0, 1] := by
      decide
    have hmem (id : ConnId) (h : id ∈ [0, 1]) :
        id ∈ (run (Pair.step neighbours) strangers
          (oneAfterTheOther neighbours overtaking)).closed := hclosed ▸ h
    refine allSteps_append.mpr ⟨(schedule_oneAfterTheOther overtaking strangers).steps, ?_⟩
    exact ⟨hmem 0 (by decide), hmem 0 (by decide), hmem 1 (by decide), hmem 1 (by decide), trivial⟩
  · decide
  · cases node <;> decide

end Sample

end Peer
