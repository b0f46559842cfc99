import NetState.Inventory.Table
import NetState.Object.Wire
import NetState.Wire.Message
import NetState.Wire.Report

/-!
Requests and their answers over one socket.

Every request gets a number, and is awaited until an answer with that number comes for this socket.
An error report or the end of a listing is such an answer. The objects in between belong to the
listing they carry the number of; all other objects are notices of changes, also of those that one's
own requests brought about, which carry the numbers of the requests too. Messages that cannot be
read are skipped, unless reading them ends the program.
-/

namespace NetState

/-- How the objects of a listing are handed out. -/
inductive Delivery where
  /-- All of them with the answer. -/
  | whole
  /-- As they come. -/
  | inParts
  deriving DecidableEq, Repr

/-- What a request without an answer waits for. -/
inductive Awaited where
  | ack
  /-- A listing of a kind, with the objects held back so far, and whether it is known to be
  disturbed. -/
  | listing (kind : Kind) (delivery : Delivery) (objects : List Object) (interrupted : Bool)
  deriving DecidableEq, Repr

/-- The answer to a request that was carried out. -/
inductive Reply where
  | ack
  /-- A complete listing, and whether it was disturbed by a change. -/
  | listing (kind : Kind) (objects : List Object) (interrupted : Bool)
  deriving DecidableEq, Repr

/-- What came in. -/
inductive Incoming where
  | reply (seq : UInt32) (result : Except Fault Reply)
  /-- Some objects of a listing that is handed out as it comes. -/
  | part (seq : UInt32) (objects : List Object)
  | notice (kind : Kind) (change : Change) (object : Object)
  /-- Messages were lost. -/
  | overrun

/-- Adds what came in to what came before; objects of one listing in a row come together. -/
def Incoming.add (before : List Incoming) (next : Incoming) : List Incoming :=
  match before.getLast?, next with
  | some (.part seq objects), .part seq' more =>
    if seq = seq' then before.dropLast ++ [.part seq (objects ++ more)] else before ++ [next]
  | _, _ => before ++ [next]

/-- The numbering of requests, and those that wait for an answer. -/
structure Exchange where
  /-- The number of the socket. -/
  pid : UInt32
  /-- The number of the last request. -/
  seq : UInt32
  awaited : Table UInt32 Awaited

namespace Exchange

def new (pid : UInt32) : Exchange := ⟨pid, 0, .empty⟩

/-- The number after another one; zero is left out, because it marks messages of the kernel's
own. -/
def seqAfter (seq : UInt32) : UInt32 :=
  max (seq + 1) 1

/-- The next number, taken. -/
def advance (exchange : Exchange) : Exchange :=
  { exchange with seq := seqAfter exchange.seq }

/-- The octets of a request under the last number taken. -/
def stamp (exchange : Exchange) (draft : Draft) : Bytes :=
  (draft.addressed exchange.seq exchange.pid).toBytes

/-- The exchange that waits for the answer to the last request. -/
def expect (exchange : Exchange) (awaited : Awaited) : Exchange :=
  { exchange with awaited := exchange.awaited.insert exchange.seq awaited }

/-- What a listing that has just been asked for waits for. -/
def fresh (kind : Kind) (delivery : Delivery) : Awaited :=
  .listing kind delivery [] false

/-- Waits no longer for an answer, which is ignored if it comes. -/
def cancel (exchange : Exchange) (seq : UInt32) : Exchange :=
  { exchange with awaited := exchange.awaited.erase seq }

/-- Whether an answer is for this socket and is waited for. -/
def isOurs (exchange : Exchange) (header : Header) : Bool :=
  header.seq != 0 && header.pid == exchange.pid && exchange.awaited.contains header.seq

/-- Notes that a listing is disturbed, if a message says so. -/
def noteInterruption (exchange : Exchange) (header : Header) : Exchange :=
  if header.isInterrupted then
    match exchange.awaited.get? header.seq with
    | some (.listing kind delivery objects _) =>
      { exchange with
        awaited := exchange.awaited.insert header.seq (.listing kind delivery objects true) }
    | _ => exchange
  else exchange

/-- The reply to a request that was carried out. -/
def replyTo : Option Awaited → Reply
  | some (.listing kind _ objects interrupted) => .listing kind objects interrupted
  | _ => .ack

/-- Takes the result of a request, which is then no longer awaited. -/
def conclude (exchange : Exchange) (seq : UInt32) (failure : Option Fault) :
    Exchange × Option Incoming :=
  let result := match failure with
    | some fault => .error fault
    | none => .ok (replyTo (exchange.awaited.get? seq))
  (exchange.cancel seq, some (.reply seq result))

/-- The fault that an error report tells, unless it acknowledges. -/
def reportFailure (payload : Bytes) : Except Failure (Option Fault) :=
  match Report.ofBytes payload with
  | .ok report => if report.isAck then .ok none else (report.fault payload).map some
  | .error fault => .ok (some fault)

/-- The fault that the end of a listing tells, if that broke off. -/
def endFailure (payload : Bytes) : Except Failure (Option Fault) :=
  let code := if payload.atLeast 4 then payload.i32At 0 else 0
  if code < 0 then (negated code).map fun errno => some (.kernel errno none) else .ok none

/-- Takes an object that came in. -/
def takeObject (exchange : Exchange) (header : Header) (change : Change) (object : Object) :
    Exchange × Option Incoming :=
  let listing := if header.pid = exchange.pid then exchange.awaited.get? header.seq else none
  match listing with
  | some (.listing kind delivery objects interrupted) =>
    if object.kind ≠ kind then (exchange, none)
    else match delivery with
      | .whole =>
        ({ exchange with
            awaited := exchange.awaited.insert header.seq
              (.listing kind delivery (objects ++ [object]) interrupted) }, none)
      | .inParts => (exchange, some (.part header.seq [object]))
  | _ => (exchange, some (.notice object.kind change object))

/-- Takes one message. -/
def take (exchange : Exchange) (message : Message) : Except Failure (Exchange × Option Incoming) :=
  let header := message.header
  if header.isOverrun then .ok (exchange, some .overrun)
  else if header.isError then
    if exchange.isOurs header then
      (reportFailure message.payload).map (exchange.conclude header.seq)
    else .ok (exchange, none)
  else if header.isDone then
    if exchange.isOurs header then
      (endFailure message.payload).map ((exchange.noteInterruption header).conclude header.seq)
    else .ok (exchange, none)
  else if header.kind = MessageType.noop then .ok (exchange, none)
  else match Object.decode header.kind message.payload with
    | .ok (some (change, object)) =>
      .ok ((exchange.noteInterruption header).takeObject header change object)
    | .ok none => .ok (exchange, none)
    | .error (.fault _) => .ok (exchange, none)
    | .error .crash => .error .crash

/-- Takes messages one after the other, and adds what came in to what came before. -/
def takeAll (exchange : Exchange) (before : List Incoming) :
    List Message → Except Failure (Exchange × List Incoming)
  | [] => .ok (exchange, before)
  | message :: rest => do
    let (exchange, incoming) ← exchange.take message
    exchange.takeAll (incoming.elim before (Incoming.add before)) rest

/-- The messages of a datagram, up to where it cannot be read. -/
def messages (datagram : Bytes) : List Message :=
  (Message.scan datagram).filterMap Except.toOption

/-- Takes a datagram, or the fault of receiving one. A socket whose buffer was full has lost
messages, which is an event like others. -/
def receive (exchange : Exchange) : Except Fault Bytes → Except Failure (Exchange × List Incoming)
  | .ok datagram => exchange.takeAll [] (messages datagram)
  | .error fault => if fault.isOverrun then .ok (exchange, [.overrun]) else .error (.fault fault)

end Exchange

end NetState
