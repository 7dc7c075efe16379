import Chromatin.Peer.AcceptLoop
import Chromatin.Properties.PeerTable

/-!
# The limits of the peer table

The limits are asked for when a connection comes in, and the entry is added when its handshake has
ended, without asking again. Connections whose handshakes overlap see the same free slot; those that
the node opens itself see none of the limits.

* `countRole_onPeerConnected` — how a connect changes the entries of a role
* `connection_limits_iff` — the limits hold exactly if every handshake that ends finds a slot, and
  they do if connections are only opened with room beside the handshakes under way -/

namespace Peer.ConnectionManager

open Infra Util Wire

variable {P : Primitives} {limits : ConnectionLimits} {env : ConnectEnv} {m : ConnectionManager}
  {conn : Connection}

/-! ## Entries of a role -/

def countRole (m : ConnectionManager) (role : Net.Role) : Nat :=
  m.peers.countP fun p => p.role = role

/-- Neither limit is exceeded. -/
def Within (limits : ConnectionLimits) (m : ConnectionManager) : Prop :=
  m.countRole .peer ≤ limits.maxPeers ∧ m.countRole .client ≤ limits.maxClients

/-- The connection gets an entry. -/
def Registers (P : Primitives) (env : ConnectEnv) (m : ConnectionManager) (conn : Connection) :
    Prop :=
  env.acl.isAllowed conn.role (conn.peerHash P) = true ∧ refusedFor P env m conn = none

/-- The entry that makes way for the connection. -/
def displacedBy (P : Primitives) (env : ConnectEnv) (m : ConnectionManager) (conn : Connection) :
    Option PeerInfo :=
  if env.acl.isAllowed conn.role (conn.peerHash P) ∧ conn.role = .peer ∧
      keepNew env.ownNs (conn.peerHash P) conn.isInitiator then
    m.duplicateOf P (conn.peerHash P)
  else none

instance : Decidable (Registers P env m conn) := inferInstanceAs (Decidable (_ ∧ _))

theorem countRole_register (role : Net.Role) : (m.register P env conn).1.countRole role =
    m.countRole role + if conn.role = role then 1 else 0 := by
  unfold countRole
  rw [peers_register, List.countP_append, List.countP_singleton]
  by_cases hrole : conn.role = role <;> simp [infoOf, hrole]

/-- A connect adds the new entry and takes away the one that makes way for it. -/
theorem countRole_onPeerConnected (P : Primitives) (env : ConnectEnv) (m : ConnectionManager)
    (conn : Connection)
    (role : Net.Role) :
    (m.onPeerConnected P env conn).1.countRole role +
    (if (displacedBy P env m conn).any (·.role = role) then 1 else 0) =
      m.countRole role + if Registers P env m conn ∧ conn.role = role then 1 else 0 := by
  generalize hresult : m.onPeerConnected P env conn = result
  cases connects hresult with
  | denied hacl =>
    have hreg : ¬Registers P env m conn := fun h => absurd h.1 (by simp [hacl])
    have hdisplaced : displacedBy P env m conn = none := if_neg fun h => absurd h.1 (by simp [hacl])
    simp [hreg, hdisplaced]
  | fresh hacl hnew =>
    have hnone (test : Prop) [Decidable test] (h : test → conn.role = .peer) :
        (if test then m.duplicateOf P (conn.peerHash P) else none) = none := by
      split_ifs with htest
      · exact hnew (h htest)
      · rfl
    have hreg : Registers P env m conn := ⟨hacl, hnone _ fun h => h.2.1⟩
    have hdisplaced : displacedBy P env m conn = none := hnone _ fun h => h.2.1
    simp [hreg, hdisplaced, countRole_register]
  | @replaced existing hacl hrole hdup hkeep =>
    obtain ⟨before, after, hsplit, -, herase⟩ := duplicateOf_eq_some hdup
    have hreg : Registers P env m conn := ⟨hacl, if_neg fun h => absurd h.2.2 (by simp [hkeep])⟩
    have hdisplaced : displacedBy P env m conn = some existing :=
      (if_pos ⟨hacl, hrole, hkeep⟩).trans hdup
    have hcount : m.countRole role = countRole { m with peers := before ++ after } role +
        if existing.role = role then 1 else 0 := by
      unfold countRole
      rw [hsplit, List.countP_append, List.countP_cons, List.countP_append]
      simp [Nat.add_assoc]
    rw [countRole_register, herase, hcount]
    simp only [hreg, hdisplaced, Option.any_some, decide_eq_true_eq, true_and]
    omega
  | refused hacl hrole hdup hkeep =>
    have hrefused := (if_pos ⟨hacl, hrole, hkeep⟩ : refusedFor P env m conn = _).trans hdup
    have hreg : ¬Registers P env m conn := fun h => absurd (hrefused.symm.trans h.2) (by simp)
    have hdisplaced : displacedBy P env m conn = none :=
      if_neg fun h => absurd h.2.2 (by simp [hkeep])
    simp [hreg, hdisplaced]

/-- A connection that gets an entry finds a free slot of its role, or the place of another peer. -/
def FindsSlot (P : Primitives) (limits : ConnectionLimits) (env : ConnectEnv)
    (m : ConnectionManager)
    (conn : Connection) : Prop :=
  Registers P env m conn →
    (conn.role = .peer →
      m.countRole .peer < limits.maxPeers ∨
      (displacedBy P env m conn).any (·.role = .peer) = true) ∧
    (conn.role = .client → m.countRole .client < limits.maxClients)

/-- Only a peer takes another entry's place. -/
theorem displacedBy_of_not_peer (hrole : conn.role ≠ .peer) : displacedBy P env m conn = none := by
  rw [displacedBy, if_neg fun h => hrole h.2.1]

theorem within_onPeerConnected_iff (h : m.Within limits) :
    (m.onPeerConnected P env conn).1.Within limits ↔ FindsSlot P limits env m conn := by
  have hpeer := countRole_onPeerConnected P env m conn .peer
  have hclient := countRole_onPeerConnected P env m conn .client
  obtain ⟨hpeers, hclients⟩ := h
  unfold Within FindsSlot
  by_cases hreg : Registers P env m conn
  · by_cases hrole : conn.role = .peer
    · simp only [hreg, hrole, if_true, reduceCtorEq, and_false, if_false,
        IsEmpty.forall_iff, and_true, forall_const] at hpeer hclient ⊢
      split_ifs at hpeer hclient with hdisplaced <;> simp [hdisplaced] <;> omega
    · rw [displacedBy_of_not_peer hrole] at hpeer hclient ⊢
      by_cases hrole' : conn.role = .client
      · simp [hreg, hrole'] at hpeer hclient ⊢
        omega
      · simp [hreg, hrole, hrole'] at hpeer hclient ⊢
        omega
  · simp only [hreg, false_and, if_false, IsEmpty.forall_iff, iff_true] at hpeer hclient ⊢
    omega

/-- Closing connections only makes room. -/
theorem countP_onPeerDisconnected_le (nowMs : UInt64) (test : PeerInfo → Bool) :
    (m.onPeerDisconnected P nowMs conn).1.peers.countP test ≤ m.peers.countP test :=
  List.filter_sublist.countP_le

theorem Within.onPeerDisconnected (h : m.Within limits) (nowMs : UInt64) :
    (m.onPeerDisconnected P nowMs conn).1.Within limits :=
  ⟨(countP_onPeerDisconnected_le nowMs _).trans h.1,
    (countP_onPeerDisconnected_le nowMs _).trans h.2⟩

end Peer.ConnectionManager

namespace Peer.Front

open Infra Util Wire

variable {P : Primitives} {limits : ConnectionLimits} {s : Front} {e : FrontEvent}

/-- A handshake that ends finds a slot. -/
def EndsWell (P : Primitives) (limits : ConnectionLimits) (s : Front) (e : FrontEvent) : Prop :=
  ∀ env conn, e = .ready env conn → conn.opening ∈ s.opening →
    ConnectionManager.FindsSlot P limits env s.manager conn

theorem within_step_iff (h : s.manager.Within limits) :
    (s.step P limits e).manager.Within limits ↔ EndsWell P limits s e := by
  unfold EndsWell
  cases e with
  | accepted id isUds =>
    rw [step]
    split_ifs <;> simp [h]
  | dialed id => simp [step, h]
  | ready env conn =>
    rw [step]
    by_cases hopening : conn.opening ∈ s.opening
    · rw [if_pos hopening, ConnectionManager.within_onPeerConnected_iff h]
      exact ⟨by rintro hslot _ _ ⟨⟩ -; exact hslot, fun hslot => hslot env conn rfl hopening⟩
    · rw [if_neg hopening]
      exact ⟨by rintro - _ _ ⟨⟩ hmem; exact absurd hmem hopening, fun _ => h⟩
  | failed opening => simp [step, h]
  | closed nowMs conn => simp [step, h.onPeerDisconnected nowMs]

/-- The entries of either role and the handshakes under way are together below the limit. -/
def HasRoom (limits : ConnectionLimits) (s : Front) : Prop :=
  s.manager.countRole .peer + s.opening.length < limits.maxPeers ∧
    s.manager.countRole .client + s.opening.length < limits.maxClients

instance : Decidable (s.HasRoom limits) := inferInstanceAs (Decidable (_ ∧ _))

/-- A connection is only opened while there is room, from outside or by the node itself. -/
def LeavesRoom (limits : ConnectionLimits) (s : Front) : FrontEvent → Prop
  | .accepted _ _ => s.manager.shouldAcceptConnection limits = true → s.HasRoom limits
  | .dialed _ => s.HasRoom limits
  | _ => True

/-- Every handshake under way has a slot of either role. -/
structure Reserved (limits : ConnectionLimits) (s : Front) : Prop where
  peers : s.manager.countRole .peer + s.opening.length ≤ limits.maxPeers
  clients : s.manager.countRole .client + s.opening.length ≤ limits.maxClients

theorem Reserved.within (h : Reserved limits s) : s.manager.Within limits :=
  ⟨(Nat.le_add_right ..).trans h.peers, (Nat.le_add_right ..).trans h.clients⟩

theorem HasRoom.reserved (h : s.HasRoom limits) (opening : Opening) :
    Reserved limits { s with opening := s.opening ++ [opening] } := by
  obtain ⟨hpeers, hclients⟩ := h
  constructor <;> simp <;> omega

theorem reserved_step (s : Front) (e : FrontEvent) (h : Reserved limits s)
    (hroom : LeavesRoom limits s e) : Reserved limits (s.step P limits e) := by
  obtain ⟨hpeers, hclients⟩ := h
  cases e with
  | accepted id isUds =>
    rw [step]
    split_ifs with haccept
    · exact HasRoom.reserved (hroom haccept) _
    · exact ⟨hpeers, hclients⟩
  | dialed id => exact HasRoom.reserved hroom _
  | ready env conn =>
    rw [step]
    split_ifs with hopening
    · -- the handshake gives its slot to the entry
      have hlength := List.length_erase_of_mem hopening
      have hpos := List.length_pos_of_mem hopening
      have hpeer := ConnectionManager.countRole_onPeerConnected P env s.manager conn .peer
      have hclient := ConnectionManager.countRole_onPeerConnected P env s.manager conn .client
      constructor
      · dsimp only
        split_ifs at hpeer <;> omega
      · dsimp only
        split_ifs at hclient <;> omega
    · exact ⟨hpeers, hclients⟩
  | failed opening =>
    have hlength : (s.opening.erase opening).length ≤ s.opening.length := List.length_erase_le
    exact ⟨(Nat.add_le_add_left hlength _).trans hpeers,
      (Nat.add_le_add_left hlength _).trans hclients⟩
  | closed nowMs conn =>
    have hcount (test : ConnectionManager.PeerInfo → Bool) :
        (s.manager.onPeerDisconnected P nowMs conn).1.peers.countP test ≤
          s.manager.peers.countP test := ConnectionManager.countP_onPeerDisconnected_le nowMs test
    exact ⟨(Nat.add_le_add_right (hcount _) _).trans hpeers,
      (Nat.add_le_add_right (hcount _) _).trans hclients⟩

/-- The limits hold in every state exactly if every handshake that ends finds a free slot of its
role or takes the place of a peer. They do if a connection is only opened while there is room for it
beside the handshakes under way. -/
theorem connection_limits_iff (P : Primitives) (limits : ConnectionLimits)
    (events : List FrontEvent) :
    (AllSteps (step P limits) (fun s e => (s.step P limits e).manager.Within limits) {} events ↔
      AllSteps (step P limits) (EndsWell P limits) {} events) ∧
    (AllSteps (step P limits) (LeavesRoom limits) {} events →
      AllSteps (step P limits) (fun s e =>
        (s.step P limits e).manager.Within limits) {} events) := by
  refine ⟨allSteps_congr (I := fun s => s.manager.Within limits) ?_ ?_
    ⟨Nat.zero_le _, Nat.zero_le _⟩, fun hroom => ?_⟩
  · exact fun s e h => within_step_iff h
  · exact fun s e _ hafter => hafter
  · have hstart : Reserved limits {} := ⟨Nat.zero_le _, Nat.zero_le _⟩
    exact (hroom.after reserved_step hstart).imp fun s e _ h => h.within

section Sample

open Wire.Sample

set_option maxRecDepth 20000

def oneEach : ConnectionLimits := { maxPeers := 1, maxClients := 1 }

/-- The node with a key, once its handshake has succeeded. -/
def readied (n : UInt8) (isInitiator : Bool) : FrontEvent :=
  .ready { acl := { ownNamespace := owned 5 } }
    { id := n.toNat, peerPubkey := key n, peerRole := .peer, isInitiator }

def twoEach : ConnectionLimits := { maxPeers := 2, maxClients := 2 }

/-- Two handshakes overlap, and nobody else comes in while the limit of two is reached. -/
def twoAtATime : List FrontEvent :=
  [.accepted 1 false, .accepted 2 false, readied 2 false, readied 1 false, .accepted 3 false]

theorem connection_limits_reserved :
    (run (step primitives twoEach) {} twoAtATime).manager.countRole .peer = 2 ∧
    AllSteps (step primitives twoEach) (fun s e =>
      (s.step primitives twoEach e).manager.Within twoEach) {} twoAtATime := by
  refine ⟨by decide, (connection_limits_iff primitives twoEach _).2
    ⟨fun _ => by decide, fun _ => by decide, trivial, trivial, fun haccept => ?_, trivial⟩⟩
  exact absurd haccept (by decide)

/-- Two peers with a limit of one: both come in before the first handshake has ended, or the node
itself opens the second connection. -/
theorem connection_limits_exceeded :
    let peers (events : List FrontEvent) :=
    (run (step primitives oneEach) {} events).manager.countRole .peer
    peers [.accepted 1 false, .accepted 2 false, readied 1 false, readied 2 false] = 2 ∧
    peers [.accepted 1 false, readied 1 false, .dialed 2, readied 2 true] = 2 := by
  decide

end Sample

end Peer.Front
