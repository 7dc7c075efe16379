import Chromatin.Net.Framing

/-!
# The pipelined connection of the client (`cli/src/connection.cpp`, `cli/src/pipeline_pump.h`)

A command of the client is a loop around the blocking calls `send_async`, `recv_next` and
`recv_for`. `Command` is such a loop as a state machine: the call it makes next, and what it does
with the answer. `Command.step` runs it against arbitrary answers; `System.step` runs it on a
connection, where replies that nobody waits for are stashed, and where a node answers every
request once, in any order.

A reply carries the number of the request that caused it (`Reply.cause`). The client does not see
that number: it only has the request id the node copied.
-/

namespace Cli

open Infra Util Net

/-- Requests in flight at which `send_async` waits. -/
def kPipelineDepth : Nat := 8

namespace MsgType

def WriteAck : UInt8 := 30

def ReadResponse : UInt8 := 32

end MsgType

/-- The blocking call a command makes next. -/
inductive Op (ρ : Type)
  | sendAsync (request : ρ) (requestId : UInt32)
  | recvNext
  | recvFor (requestId : UInt32)
  /-- the command has ended -/
  | stop

/-- A command with states `σ` that makes requests `ρ`. -/
structure Command (σ ρ : Type) where
  op : σ → Op ρ
  /-- the result of `send_async` -/
  afterSend : σ → Bool → σ
  /-- the result of `recv_next` or `recv_for`; `none` is a transport error -/
  afterRecv : σ → Option Message → σ

/-! ## Arbitrary answers -/

/-- What a blocking call returns. -/
inductive Answer
  | sent (ok : Bool)
  | received (reply : Option Message)

section

variable {σ ρ : Type} (c : Command σ ρ)

/-- One blocking call. `recv_for` only returns a reply with the id it waits for. -/
def Command.step (s : σ) : Answer → σ
  | .sent ok =>
    match c.op s with
    | .sendAsync _ _ => c.afterSend s ok
    | _ => s
  | .received reply =>
    match c.op s with
    | .recvNext => c.afterRecv s reply
    | .recvFor rid => if reply.all (fun m => m.requestId == rid) then c.afterRecv s reply else s
    | _ => s

variable {c} in
/-- A command that has ended makes no call. -/
theorem Command.step_stop {s : σ} (hstop : c.op s = .stop) (answer : Answer) :
    c.step s answer = s := by
  unfold Command.step
  rw [hstop]
  cases answer <;> rfl

/-- What a blocking call has exchanged with the node. -/
inductive Exchange (ρ : Type)
  /-- `send_async` returned true -/
  | sent (request : ρ) (requestId : UInt32)
  /-- `send_async` returned false -/
  | unsent (request : ρ) (requestId : UInt32)
  | received (reply : Message)

/-- What `Command.step` exchanges; nothing when the answer is not one to the call. -/
def Command.exchange (s : σ) : Answer → List (Exchange ρ)
  | .sent ok =>
    match c.op s with
    | .sendAsync request rid => [if ok then .sent request rid else .unsent request rid]
    | _ => []
  | .received reply =>
    match c.op s with
    | .recvNext => reply.toList.map .received
    | .recvFor rid => if reply.all (fun m => m.requestId == rid)
        then reply.toList.map .received else []
    | _ => []

variable {c} in
/-- What a blocking call can do and what it exchanges: nothing, or what the command does with the
answer to its call. -/
theorem Command.exchange_rule {motive : σ → List (Exchange ρ) → Prop} {s : σ} (hsame : motive s [])
    (hsend : ∀ request rid ok, c.op s = .sendAsync request rid →
      motive (c.afterSend s ok) [if ok then .sent request rid else .unsent request rid])
    (hrecv : ∀ reply, c.op s = .recvNext ∨ (∃ rid, c.op s = .recvFor rid ∧
        reply.all (fun m => m.requestId == rid) = true) →
      motive (c.afterRecv s reply) (reply.toList.map .received))
    (answer : Answer) : motive (c.step s answer) (c.exchange s answer) := by
  unfold Command.step Command.exchange
  cases answer with
  | sent ok =>
    cases hop : c.op s with
    | sendAsync request rid => exact hsend request rid ok hop
    | recvNext => exact hsame
    | recvFor rid => exact hsame
    | stop => exact hsame
  | received reply =>
    cases hop : c.op s with
    | sendAsync request rid => exact hsame
    | recvNext => exact hrecv reply (.inl hop)
    | recvFor rid =>
      dsimp only
      split_ifs with hid
      · exact hrecv reply (.inr ⟨rid, hop, hid⟩)
      · exact hsame
    | stop => exact hsame

variable {c} in
theorem Command.step_rule {motive : σ → Prop} {s : σ} (hsame : motive s)
    (hsend : ∀ request rid ok, c.op s = .sendAsync request rid → motive (c.afterSend s ok))
    (hrecv : ∀ reply, (c.op s = .recvNext ∨ ∃ rid, c.op s = .recvFor rid) →
      motive (c.afterRecv s reply))
    (answer : Answer) : motive (c.step s answer) :=
  c.exchange_rule (motive := fun s _ => motive s) hsame hsend
    (fun reply h => hrecv reply (h.imp_right fun ⟨rid, hop, _⟩ => ⟨rid, hop⟩)) answer

/-- What a command that runs from `s` exchanges, in order. -/
def Command.transcript : σ → List Answer → List (Exchange ρ)
  | _, [] => []
  | s, answer :: rest => c.exchange s answer ++ Command.transcript (c.step s answer) rest

/-! ## The connection -/

/-- A reply on its way, with the number of the request it answers. -/
structure Reply where
  message : Message
  cause : Nat
deriving DecidableEq

/-- `pending_replies_`, keyed by the request id, and `in_flight_`. -/
structure Connection where
  pending : List Reply := []
  inFlight : Nat := 0

/-- `pending.insert_or_assign`. -/
def insertOrAssign (pending : List Reply) (reply : Reply) : List Reply :=
  pending.filter (fun r => r.message.requestId != reply.message.requestId) ++ [reply]

/-- A request that was sent. -/
structure Sent (ρ : Type) where
  request : ρ
  requestId : UInt32

structure System (σ ρ : Type) where
  state : σ
  conn : Connection := {}
  /-- all requests so far; the number of a request is its index -/
  sent : List (Sent ρ) := []
  /-- requests the node has not answered -/
  unanswered : List Nat := []
  /-- requests whose reply has not been handed to the command -/
  outstanding : List Nat := []

/-- What the transport does. -/
inductive Event
  /-- `send` returns -/
  | sent (ok : Bool)
  /-- `recv` returns the reply to a request -/
  | answer (number : Nat) (type : UInt8) (payload : Bytes)
  /-- `recv` returns nothing -/
  | lost
  /-- `pending.begin()`, or `pending.find`, is the entry at an index -/
  | stashed (index : Nat)

/-- A reply is handed to the command, which frees a slot. -/
def System.deliver (s : System σ ρ) (reply : Reply) : System σ ρ :=
  { s with
    state := c.afterRecv s.state (some reply.message)
    conn := { s.conn with inFlight := s.conn.inFlight - 1 }
    outstanding := s.outstanding.erase reply.cause }

/-- `pump_one_for_backpressure`, and what `pump_recv_for` does with other replies. -/
def System.stash (s : System σ ρ) (reply : Reply) : System σ ρ :=
  { s with conn := { s.conn with pending := insertOrAssign s.conn.pending reply } }

/-- The reply of the node to a request it has not answered yet. -/
def System.reply? (s : System σ ρ) (number : Nat) (type : UInt8) (payload : Bytes) :
    Option (Reply × System σ ρ) :=
  if number ∈ s.unanswered then
    (s.sent[number]?).map fun q =>
      ({ message := { type, payload, requestId := q.requestId }, cause := number },
        { s with unanswered := s.unanswered.erase number })
  else none

/-- The entry at an index is taken out of the stash and handed over. -/
def System.unstash (s : System σ ρ) (index : Nat) (wanted : Message → Bool) : System σ ρ :=
  match s.conn.pending[index]? with
  | none => s
  | some reply =>
    if wanted reply.message then
      System.deliver c
        { s with conn := { s.conn with pending := s.conn.pending.eraseIdx index } } reply
    else s

/-- One step of `send_async`. In the backpressure loop nothing decrements `in_flight_`. -/
def System.stepSend (s : System σ ρ) (request : ρ) (requestId : UInt32) : Event → System σ ρ
  | .sent ok =>
    if kPipelineDepth ≤ s.conn.inFlight then s
    else if ok then
      { s with
        state := c.afterSend s.state true
        conn := { s.conn with inFlight := s.conn.inFlight + 1 }
        sent := s.sent ++ [{ request, requestId }]
        unanswered := s.unanswered ++ [s.sent.length]
        outstanding := s.outstanding ++ [s.sent.length] }
    else { s with state := c.afterSend s.state false }
  | .answer number type payload =>
    if kPipelineDepth ≤ s.conn.inFlight then
      match s.reply? number type payload with
      | none => s
      | some (reply, s') => s'.stash reply
    else s
  | .lost =>
    if kPipelineDepth ≤ s.conn.inFlight then { s with state := c.afterSend s.state false } else s
  | .stashed _ => s

/-- One step of `recv_next` (every reply is wanted) or `recv_for`. -/
def System.stepRecv (s : System σ ρ) (wanted : Message → Bool) : Event → System σ ρ
  | .sent _ => s
  | .answer number type payload =>
    if s.conn.pending.any (fun r => wanted r.message) then s
    else
      match s.reply? number type payload with
      | none => s
      | some (reply, s') => if wanted reply.message then s'.deliver c reply else s'.stash reply
  | .lost =>
    if s.conn.pending.any (fun r => wanted r.message) then s
    else { s with state := c.afterRecv s.state none }
  | .stashed index => s.unstash c index wanted

def System.step (s : System σ ρ) (event : Event) : System σ ρ :=
  match c.op s.state with
  | .sendAsync request requestId => s.stepSend c request requestId event
  | .recvNext => s.stepRecv c (fun _ => true) event
  | .recvFor rid => s.stepRecv c (fun m => m.requestId == rid) event
  | .stop => s

end

/-! ## Receiving

`recv` on the decrypted frames that `recv_encrypted` returns one after the other; when there are no
more, it fails. The constants are those of the node. -/

/-- The loop over the sub-frames. The declared size is not looked at. -/
def recvChunks (payload : Bytes) : List Bytes → Option (Bytes × List Bytes)
  | [] => none
  | chunk :: frames => if chunk.isEmpty then some (payload, frames)
      else recvChunks (payload ++ chunk) frames

/-- The message and the frames behind it. -/
def recv (S : Suite) : List Bytes → Option (Message × List Bytes)
  | [] => none
  | pt :: frames =>
    if pt.head? = some 0x01 ∧ 14 ≤ pt.length then do
      let type ← pt[1]?
      let requestId ← readU32Be pt 2
      let totalSize ← readU64Be pt 6
      if totalSize.toNat > MAX_CHUNKED_WIRE_PAYLOAD then none
      else
        let (payload, rest) ← recvChunks (pt.drop 14) frames
        some ({ type, payload, requestId }, rest)
    else (S.decode pt).map fun m => (m, frames)

end Cli
