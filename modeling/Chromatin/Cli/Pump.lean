import Chromatin.Cli.Pipeline

/-!
# The blocking calls of a connection (`cli/src/pipeline_pump.h`, `cli/src/connection.cpp`)

`send_async`, `recv_for` and `recv_next` as functions of the replies that `recv` returns one after
the other; behind them it fails. A call returns what it gives to its caller, the replies it has not
read and the connection.

A `Session` is a sequence of calls on an open connection, together with what was sent, read and
handed over. -/

namespace Cli

open Infra Util Net

/-- `pending.insert_or_assign`: a reply that nobody waits for. -/
def Connection.stash (conn : Connection) (reply : Reply) : Connection :=
  { conn with pending := insertOrAssign conn.pending reply }

/-- `if (in_flight > 0) --in_flight`. -/
def Connection.free (conn : Connection) : Connection := { conn with inFlight := conn.inFlight - 1 }

/-- An entry is taken out of the stash. -/
def Connection.take (conn : Connection) (reply : Reply) : Connection :=
  Connection.free { conn with pending := conn.pending.erase reply }

/-- `pump_one_for_backpressure` for as long as no slot is free. It does not change `in_flight_`, so
that the loop only ends with the replies. -/
def backpressure (conn : Connection) : List Reply → Bool × List Reply × Connection
  | [] => (conn.inFlight < kPipelineDepth, [], conn)
  | reply :: source =>
    if conn.inFlight < kPipelineDepth then (true, reply :: source, conn)
    else backpressure (conn.stash reply) source

/-- `ok` is the result of `send`. -/
def sendAsync (ok : Bool) (source : List Reply) (conn : Connection) :
    Bool × List Reply × Connection :=
  match backpressure conn source with
  | (false, source, conn) => (false, source, conn)
  | (true, source, conn) =>
    if ok then (true, source, { conn with inFlight := conn.inFlight + 1 })
      else (false, source, conn)

/-- The loop of `pump_recv_for`. -/
def pumpUntil (rid : UInt32) (conn : Connection) :
    List Reply → Option Reply × List Reply × Connection
  | [] => (none, [], conn)
  | reply :: source =>
    if reply.message.requestId = rid then (some reply, source, conn.free)
    else pumpUntil rid (conn.stash reply) source

def pumpRecvFor (rid : UInt32) (source : List Reply) (conn : Connection) :
    Option Reply × List Reply × Connection :=
  match conn.pending.find? fun reply => reply.message.requestId = rid with
  | some reply => (some reply, source, conn.take reply)
  | none => pumpUntil rid conn source

/-- `pending.begin()` is any entry of the map; `pick` says which. -/
def pumpRecvAny (pick : Nat) (source : List Reply) (conn : Connection) :
    Option Reply × List Reply × Connection :=
  match conn.pending[pick % conn.pending.length]? with
  | some reply => (some reply, source, conn.take reply)
  | none =>
    match source with
    | [] => (none, [], conn)
    | reply :: source => (some reply, source, conn.free)

/-! ## Sessions -/

inductive Call
  | sendAsync (requestId : UInt32) (ok : Bool)
  | recvFor (requestId : UInt32)
  | recvNext (pick : Nat)

structure Session where
  conn : Connection := {}
  /-- the ids of the requests; the number of a request is its index -/
  sent : List UInt32 := []
  /-- what `recv` has returned -/
  received : List Reply := []
  /-- what `recv_for` and `recv_next` have returned -/
  delivered : List Reply := []

namespace Session

/-- What a call has read, if it left `rest`. -/
def readFrom (arriving rest : List Reply) : List Reply :=
  arriving.take (arriving.length - rest.length)

/-- A call that receives has returned. -/
def receive (s : Session) (arriving : List Reply) : Option Reply × List Reply × Connection → Session
  | (reply, rest, conn) =>
    { s with
      conn
      received := s.received ++ readFrom arriving rest
      delivered := s.delivered ++ reply.toList }

/-- One call, and the replies that arrive from then on. -/
def step (s : Session) : Call × List Reply → Session
  | (.sendAsync requestId ok, arriving) =>
    match Cli.sendAsync ok arriving s.conn with
    | (sent, rest, conn) =>
      { s with
        conn
        sent := if sent then s.sent ++ [requestId] else s.sent
        received := s.received ++ readFrom arriving rest }
  | (.recvFor requestId, arriving) => s.receive arriving (pumpRecvFor requestId arriving s.conn)
  | (.recvNext pick, arriving) => s.receive arriving (pumpRecvAny pick arriving s.conn)

/-- The replies to come: one for each request that has none yet, under its id and in any order. -/
structure Arrives (s : Session) (arriving : List Reply) : Prop where
  once : ((s.received ++ arriving).map Reply.cause).Perm (List.range s.sent.length)
  stamped : ∀ reply ∈ arriving, s.sent[reply.cause]? = some reply.message.requestId

instance (s : Session) (arriving : List Reply) : Decidable (s.Arrives arriving) :=
  decidable_of_iff (((s.received ++ arriving).map Reply.cause).Perm (List.range s.sent.length) ∧
      ∀ reply ∈ arriving, s.sent[reply.cause]? = some reply.message.requestId)
    ⟨fun h => ⟨h.1, h.2⟩, fun h => ⟨h.once, h.stamped⟩⟩

/-- A request is sent under a new id while a slot is free, and every request gets one reply. -/
def Fits (s : Session) : Call × List Reply → Prop
  | (.sendAsync requestId _, _) => requestId ∉ s.sent ∧ s.conn.inFlight < kPipelineDepth
  | (_, arriving) => s.Arrives arriving

instance (s : Session) (call : Call × List Reply) : Decidable (s.Fits call) := by
  obtain ⟨call, arriving⟩ := call
  cases call <;> (unfold Fits; infer_instance)

end Session

end Cli
