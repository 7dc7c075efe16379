import Chromatin.Infra.Run
import Chromatin.Net.Framing

/-!
# One direction of an authenticated connection (`net/connection.cpp`)

`send_message` appends a message to the send queue and waits; one coroutine, `drain_send_queue`,
takes the messages off the queue and writes them as encrypted frames, suspending at every write.
At the other end `message_loop` reads frame after frame, reassembles chunked messages and hands
every message to its callback.

A `Link` is the sending end, the bytes between the two ends, and the receiving end. An event is
what happens between two suspensions. Every write may fail after any number of its bytes, and
once one has failed nothing more gets through.

The fields `appended`, `sealed`, `opened` and `delivered` record what has happened: the messages in
the order they were appended, every encryption and every decryption with its counter, and the
messages handed to the callback. The Pong that answers a Ping belongs to the other direction.
-/

namespace Net

open Infra Util

def NONCE_LIMIT : Nat := 2 ^ 63

def MAX_SEND_QUEUE : Nat := 1024

/-- A counter and the plaintext it was used for. -/
abbrev Frame := Nat × Bytes

/-! ## The sending end -/

structure PendingMessage where
  encoded : Bytes
  isChunked : Bool := false
  chunkedPayload : Bytes := []
deriving DecidableEq

/-- Which frame of a message is being sent. -/
inductive SendPc
  /-- the only frame of a message that is not chunked -/
  | single
  /-- the chunked header -/
  | header
  /-- the sub-frame at this offset of the payload -/
  | chunk (offset : Nat)
  /-- the empty sub-frame at the end -/
  | sentinel
deriving DecidableEq

/-- Which write of `send_raw` is pending. -/
inductive RawWrite
  | length (data : Bytes)
  | body (data : Bytes)
deriving DecidableEq

/-- Where `drain_send_queue` is suspended. -/
inductive Drain
  /-- at the signal -/
  | waiting
  | writing (msg : PendingMessage) (pc : SendPc) (raw : RawWrite)
  | exited
deriving DecidableEq

structure Sender where
  queue : List PendingMessage := []
  closed : Bool := false
  closing : Bool := false
  drain : Drain := .waiting
  sendCounter : Nat
  appended : List Message := []
  sealed : List Frame := []
deriving DecidableEq

/-- `[0x01][type][request_id 4BE][total_size 8BE]`. -/
def chunkedHeader (m : Message) : Bytes :=
  0x01 :: m.type :: (writeU32Be m.requestId ++ writeU64Be (UInt64.ofNat m.payload.length))

/-- The sub-frame of a payload at an offset. -/
def payloadChunk (payload : Bytes) (offset : Nat) : Bytes :=
  (payload.drop offset).take (min STREAMING_THRESHOLD (payload.length - offset))

section

variable (S : Suite) (key : Bytes)

/-- What a message becomes in the send queue. -/
def pendingOf (m : Message) : PendingMessage :=
  if m.payload.length ≥ STREAMING_THRESHOLD then
    { encoded := chunkedHeader m, isChunked := true, chunkedPayload := m.payload }
  else { encoded := S.encode m }

namespace Sender

variable (s : Sender)

/-- Append to the send queue, which closes the connection when it is full. -/
def enqueue (m : Message) : Sender :=
  if s.closed || s.closing then s
  else if s.queue.length ≥ MAX_SEND_QUEUE then { s with closed := true }
  else { s with queue := s.queue ++ [pendingOf S m], appended := s.appended ++ [m] }

/-- `close_gracefully` up to its wait. A closed connection is closed again, which does nothing;
one that is closing already gets a second Goodbye. -/
def closeGracefully : Sender :=
  if s.closed then s
  else if s.queue.length ≥ MAX_SEND_QUEUE then { s with closed := true }
  else
    let goodbye : Message := { type := TransportMsgType.Goodbye, payload := [] }
    { s with
      queue := s.queue ++ [{ encoded := S.encode goodbye }]
      appended := s.appended ++ [goodbye]
      closing := true }

/-- A write failed: the messages left in the queue fail, and the coroutine waits for new ones
unless the connection is closed. -/
def fail : Sender := { s with queue := [], drain := if s.closed then .exited else .waiting }

/-- `send_encrypted` up to its first write. -/
def sendEncrypted (msg : PendingMessage) (pc : SendPc) (plaintext : Bytes) : Sender :=
  if s.sendCounter ≥ NONCE_LIMIT then { s with closed := true }.fail
  else
    { s with
      sendCounter := s.sendCounter + 1
      sealed := s.sealed ++ [(s.sendCounter, plaintext)]
      drain := .writing msg pc (.length (S.encrypt plaintext (makeNonce s.sendCounter) key)) }

/-- The loop of `drain_send_queue` at a point where no message is being sent. -/
def next : Sender :=
  if s.closed then { s with queue := [], drain := .exited }
  else
    match s.queue with
    | [] => { s with drain := .waiting }
    | msg :: rest =>
      sendEncrypted S key { s with queue := rest } msg
        (if msg.isChunked then .header else .single) msg.encoded

/-- The loop over the sub-frames of a chunked message. -/
def sendChunk (msg : PendingMessage) (offset : Nat) : Sender :=
  if offset < msg.chunkedPayload.length then
    s.sendEncrypted S key msg (.chunk offset) (payloadChunk msg.chunkedPayload offset)
  else s.sendEncrypted S key msg .sentinel []

/-- The pending write succeeded. -/
def advance (msg : PendingMessage) : SendPc → RawWrite → Sender
  | pc, .length data => { s with drain := .writing msg pc (.body data) }
  | .single, .body _ => s.next S key
  | .header, .body _ => s.sendChunk S key msg 0
  | .chunk offset, .body _ =>
    s.sendChunk S key msg (offset + min STREAMING_THRESHOLD (msg.chunkedPayload.length - offset))
  | .sentinel, .body _ => s.next S key

end Sender

/-! ## The receiving end -/

/-- A chunked message of which the sentinel has not been read. -/
structure Reassembly where
  type : UInt8
  requestId : UInt32
  totalPayloadSize : UInt64
  payload : Bytes
deriving DecidableEq

structure Receiver where
  recvCounter : Nat
  reassembly : Option Reassembly := none
  /-- the message loop has ended -/
  stopped : Bool := false
  opened : List Frame := []
  delivered : List Message := []
deriving DecidableEq

def CHUNKED_HEADER_SIZE : Nat := 14

namespace Receiver

variable (r : Receiver)

/-- The start of `recv_chunked`. -/
def beginChunked (frame : Bytes) : Receiver :=
  match frame[1]?, readU32Be frame 2, readU64Be frame 6 with
  | some type, some requestId, some totalPayloadSize =>
    if totalPayloadSize.toNat > MAX_CHUNKED_WIRE_PAYLOAD then { r with stopped := true }
    else
      { r with
        reassembly := some
          { type, requestId, totalPayloadSize, payload := frame.drop CHUNKED_HEADER_SIZE } }
  | _, _, _ => { r with stopped := true }

/-- A data sub-frame or the sentinel. -/
def continueChunked (part : Reassembly) (chunk : Bytes) : Receiver :=
  if chunk.isEmpty then
    { r with
      reassembly := none
      delivered := r.delivered ++
        [{ type := part.type, payload := part.payload, requestId := part.requestId }] }
  else
    let payload := part.payload ++ chunk
    if payload.length > part.totalPayloadSize.toNat + 64 then { r with stopped := true }
    else { r with reassembly := some { part with payload } }

/-- A transport message that came in one frame. -/
def dispatch (m : Message) : Receiver :=
  if m.type = TransportMsgType.Ping ∨ m.type = TransportMsgType.Pong then r
  else if m.type = TransportMsgType.Goodbye then { r with stopped := true }
  else { r with delivered := r.delivered ++ [m] }

/-- What the message loop does with a decrypted frame. -/
def handle (plaintext : Bytes) : Receiver :=
  match r.reassembly with
  | some part => r.continueChunked part plaintext
  | none =>
    if plaintext.head? = some 0x01 then r.beginChunked plaintext
    else
      match S.decode plaintext with
      | none => r
      | some m => r.dispatch m

/-- `recv_encrypted` once it has read a frame. -/
def recvEncrypted (ciphertext : Bytes) : Receiver :=
  if r.recvCounter ≥ NONCE_LIMIT then { r with stopped := true }
  else
    match S.decrypt ciphertext (makeNonce r.recvCounter) key with
    | none => { r with recvCounter := r.recvCounter + 1, stopped := true }
    | some plaintext =>
      { r with
        recvCounter := r.recvCounter + 1
        opened := r.opened ++ [(r.recvCounter, plaintext)] }.handle S plaintext

end Receiver

/-! ## The two ends -/

structure Link where
  sender : Sender
  /-- written and not yet read -/
  wire : Bytes := []
  /-- a write has failed -/
  broken : Bool := false
  receiver : Receiver

/-- A connection whose handshake has used the counters below `counter` in this direction. -/
def Link.start (counter : Nat) : Link :=
  { sender := { sendCounter := counter }, receiver := { recvCounter := counter } }

inductive Event
  /-- a call of `send_message` runs up to its wait -/
  | send (m : Message)
  | closeGracefully
  /-- the sending end is closed -/
  | close
  /-- the signal wakes the drain coroutine -/
  | wake
  /-- the pending write ends; if it fails, this many of its bytes were written -/
  | written (ok : Bool) (count : Nat)
  /-- the message loop reads a frame -/
  | receive
  /-- a read fails, or the receiving end is closed -/
  | stop

def RawWrite.bytes : RawWrite → Bytes
  | .length data => writeU32Be (UInt32.ofNat data.length)
  | .body data => data

namespace Link

variable (l : Link)

def written (ok : Bool) (count : Nat) : Link :=
  match l.sender.drain with
  | .writing msg pc raw =>
    if l.broken then { l with sender := l.sender.fail }
    else if ok then
      { l with wire := l.wire ++ raw.bytes, sender := l.sender.advance S key msg pc raw }
    else
      { l with wire := l.wire ++ raw.bytes.take count, broken := true, sender := l.sender.fail }
  | _ => l

def receive : Link :=
  if l.receiver.stopped then l
  else
    match recvRaw l.wire with
    | .pending => l
    | .tooLarge => { l with receiver := { l.receiver with stopped := true } }
    | .frame data rest => { l with wire := rest, receiver := l.receiver.recvEncrypted S key data }

def step : Event → Link
  | .send m => { l with sender := l.sender.enqueue S m }
  | .closeGracefully => { l with sender := l.sender.closeGracefully S }
  | .close => { l with sender := { l.sender with closed := true } }
  | .wake =>
    match l.sender.drain with
    | .waiting => { l with sender := l.sender.next S key }
    | _ => l
  | .written ok count => l.written S key ok count
  | .receive => l.receive S key
  | .stop => { l with receiver := { l.receiver with stopped := true } }

end Link

end

end Net
