import Chromatin.Net.Connection

/-!
# One end of a connection (`Connection::run` of `net/connection.cpp`)

After the handshake `run` waits for two coroutines, `message_loop` and `drain_send_queue`, and calls
the close callback when both have returned. They share `closed_`: the loop looks at it before every
frame, the drain when no message is being sent. `close` sets it, wakes the drain and closes the
socket; nothing else lets the drain leave its wait for good.

The sending half is `Sender`, the reassembly of chunked messages is that of `Receiver`. What
`recv_raw` returns is an event. A sender waits for its message to be written or to fail; the loop
does so for a Pong, `close_gracefully` for its Goodbye. Both are given the number of the message in
the queue. -/

namespace Net

open Infra Util

/-- Where `message_loop` is suspended. -/
inductive MessageLoop
  /-- in `recv_raw` -/
  | reading
  /-- waiting for the Pong with this number -/
  | ponging (number : Nat)
  | returned
deriving DecidableEq

structure Endpoint where
  sender : Sender
  receiver : Receiver
  loop : MessageLoop := .reading
  authenticated : Bool := true
  receivedGoodbye : Bool := false
  /-- the calls of `close_gracefully` that wait, by the number of their Goodbye -/
  closers : List Nat := []
  /-- the close callback has been called, with this argument -/
  closeCallback : Option Bool := none
deriving DecidableEq

inductive EndpointEvent
  /-- a call of `send_message` runs up to its wait -/
  | send (m : Message)
  | closeGracefully
  | close
  /-- the signal wakes the drain coroutine -/
  | wake
  /-- the pending write ends -/
  | written (ok : Bool)
  /-- `recv_raw` returns; `none` if the read fails or the announced length is too large -/
  | received (raw : Option Bytes)
  /-- the loop goes on after a Pong -/
  | ponged
  /-- a call of `close_gracefully` goes on -/
  | goodbyeSent (i : Nat)
  /-- `run` goes on after both coroutines -/
  | joined

/-- The messages that were written or have failed. -/
def Sender.completed (s : Sender) : Nat :=
  s.appended.length - s.queue.length -
    match s.drain with
    | .writing .. => 1
    | .waiting | .exited => 0

namespace Endpoint

/-- An end whose handshake has used the counters below these. -/
def start (sendCounter recvCounter : Nat) (authenticated : Bool) : Endpoint :=
  { sender := { sendCounter }, receiver := { recvCounter }, authenticated }

variable (S : Suite) (sendKey recvKey : Bytes) (p : Endpoint)

def close : Endpoint := { p with sender := { p.sender with closed := true } }

/-- The loop is left by `break`. -/
def breakLoop : Endpoint := { p with loop := .returned }

/-- The loop comes to its head. -/
def loopHead : Endpoint := { p with loop := if p.sender.closed then .returned else .reading }

/-! ## The message loop -/

/-- `send_message` returns at once if the message is not queued. -/
def sendPong : Endpoint :=
  let sender := p.sender.enqueue S { type := TransportMsgType.Pong, payload := [] }
  if sender.appended.length = p.sender.appended.length then { p with sender }.loopHead
  else { p with sender, loop := .ponging p.sender.appended.length }

/-- A transport message that came in one frame. -/
def handleMessage (m : Message) : Endpoint :=
  if !p.authenticated then p.breakLoop
  else if m.type = TransportMsgType.Ping then p.sendPong S
  else if m.type = TransportMsgType.Goodbye then { p with receivedGoodbye := true }.close.loopHead
  else { p with receiver := p.receiver.dispatch m }.loopHead

/-- The loop with a decrypted frame, or `recv_chunked` with a sub-frame. -/
def handle (plaintext : Bytes) : Endpoint :=
  match p.receiver.reassembly with
  | some part =>
    let receiver := p.receiver.continueChunked part plaintext
    if receiver.stopped then p.breakLoop
    else if receiver.reassembly.isSome then { p with receiver }
    else if !p.authenticated then p.breakLoop
    else { p with receiver }.loopHead
  | none =>
    if plaintext.head? = some 0x01 then
      let receiver := p.receiver.beginChunked plaintext
      if receiver.stopped then p.breakLoop else { p with receiver }
    else
      match S.decode plaintext with
      | none => p.loopHead
      | some m => p.handleMessage S m

/-- A frame was decrypted. -/
def opened (plaintext : Bytes) : Endpoint :=
  { p with
    receiver := { p.receiver with
      recvCounter := p.receiver.recvCounter + 1
      opened := p.receiver.opened ++ [(p.receiver.recvCounter, plaintext)] } }

/-- `recv_encrypted` once it has read a frame. -/
def recvEncrypted (ciphertext : Bytes) : Endpoint :=
  if p.receiver.recvCounter ≥ NONCE_LIMIT then p.close.breakLoop
  else
    match S.decrypt ciphertext (makeNonce p.receiver.recvCounter) recvKey with
    | none =>
      { p with receiver := { p.receiver with recvCounter := p.receiver.recvCounter + 1 } }.breakLoop
    | some plaintext => (p.opened plaintext).handle S plaintext

/-! ## Steps -/

/-- `close_gracefully` up to its wait. -/
def closeGracefully : Endpoint :=
  if p.sender.closed || !p.authenticated then p.close
  else
    let sender := p.sender.closeGracefully S
    if sender.closed then { p with sender }
    else { p with sender, closers := p.closers ++ [p.sender.appended.length] }

def step : EndpointEvent → Endpoint
  | .send m => { p with sender := p.sender.enqueue S m }
  | .closeGracefully => p.closeGracefully S
  | .close => p.close
  | .wake =>
    match p.sender.drain with
    | .waiting => { p with sender := p.sender.next S sendKey }
    | .writing .. | .exited => p
  | .written ok =>
    match p.sender.drain with
    | .writing msg pc raw =>
      { p with sender := if ok then p.sender.advance S sendKey msg pc raw else p.sender.fail }
    | .waiting | .exited => p
  | .received raw =>
    if p.loop = .reading then
      match raw with
      | none => p.breakLoop
      | some ciphertext => p.recvEncrypted S recvKey ciphertext
    else p
  | .ponged =>
    match p.loop with
    | .ponging number => if number < p.sender.completed then p.loopHead else p
    | .reading | .returned => p
  | .goodbyeSent i =>
    if p.closers[i]?.any fun number => number < p.sender.completed then
      { p with closers := p.closers.eraseIdx i }.close
    else p
  | .joined =>
    if p.loop = .returned ∧ p.sender.drain = .exited ∧ p.closeCallback = none then
      { p with closeCallback := some p.receivedGoodbye }
    else p

end Endpoint

end Net
