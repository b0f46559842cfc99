import NetState.Filter.Wire
import NetState.Object.Basic

/-!
Objects on the wire: requests about them, and messages from the kernel that tell of them.

A message is read as a change only if its type announces an object or its end, it is of a family
that is kept track of, and a route in it is one that is; all others tell nothing.
-/

namespace NetState

/-- What a message tells of an object. -/
inductive Change where
  /-- It is there, and looks like this. -/
  | new
  /-- It is gone. -/
  | del
  deriving DecidableEq, Repr

namespace Object

/-- The fields of a request about an object. -/
def requestFields (object : Object) (verb : Verb) : Except Fault (List Field) :=
  match object with
  | link l => l.requestFields verb
  | address a => a.requestFields verb
  | route r => r.requestFields verb
  | discipline d => .ok (d.requestFields verb)
  | filter f => f.requestFields verb

/-- The flags that tell what a request is to do. -/
def verbFlags : Verb → UInt16
  | .create => Flag.create ||| Flag.exclusive
  | .replace => Flag.create ||| Flag.replace
  | .change => 0
  | .delete => 0

/-- A draft with the given fields, unless one of them is too long. -/
def draft (type flags : UInt16) (fields : List Field) : Except Fault Draft := do
  let draft := Draft.new type flags fields
  draft.check
  return draft

/-- The request that does what `verb` tells to an object. -/
def request (object : Object) (verb : Verb) : Except Fault Draft := do
  let type := if verb = .delete then object.kind.delType else object.kind.newType
  let fields ← object.requestFields verb
  draft type (Flag.request ||| Flag.ack ||| verbFlags verb) fields

/-- The types of messages that tell that an object is there. -/
def newTypes : List UInt16 :=
  [MessageType.newLink, MessageType.newAddress, MessageType.newRoute, MessageType.newDiscipline,
    MessageType.newFilter]

/-- The types of messages that tell that an object is gone. -/
def delTypes : List UInt16 :=
  [MessageType.delLink, MessageType.delAddress, MessageType.delRoute, MessageType.delDiscipline,
    MessageType.delFilter]

/-- The fields of a message from the kernel about an object: what tells it, if it is gone, else all
of it. -/
def messageFields (object : Object) (type : UInt16) : Except Fault (List Field) :=
  if delTypes.contains type then object.requestFields .delete
  else match object with
    | link l => l.kernelFields
    | _ => object.requestFields .change

/-- The message of a type by which the kernel tells of an object. -/
def toMessage (object : Object) (type flags : UInt16) : Except Fault Draft := do
  let fields ← object.messageFields type
  draft type flags fields

/-- What a message of a type tells, by that alone. -/
def changeOf? (type : UInt16) : Option Change :=
  if newTypes.contains type then some .new
  else if delTypes.contains type then some .del
  else none

/-- What comes of a payload that does not have the form its type demands; its fixed part has `head`
octets. The parser lets go of its input once the attributes are told apart, and cannot say where it
failed from then on. -/
def unread (head : Nat) (payload : Bytes) : Failure :=
  match payload.split? head with
  | some (_, rest) => if (Attribute.readAll? rest).isSome then .crash else .fault .malformed
  | none => .fault .malformed

/-- The object that a payload must tell of, if it has the form that the type demands. -/
def demand {α : Type} (failure : Failure) (wrap : α → Object) (read : Option α) :
    Except Failure (Option Object) :=
  match read with
  | some value => .ok (some (wrap value))
  | none => .error failure

/-- The object that a message of a type tells of, if it tells of one that is kept track of. -/
def ofPayload (type : UInt16) (payload : Bytes) : Except Failure (Option Object) :=
  let family := payload.headD 0
  let isIp := family == Ip.inet || family == Ip.inet6
  if type = MessageType.newLink ∨ type = MessageType.delLink then
    demand (unread LinkHead.size payload) .link (Link.ofPayload? payload)
  else if type = MessageType.newAddress ∨ type = MessageType.delAddress then
    if isIp then demand (unread AddressHead.size payload) .address (Address.ofPayload? payload)
    else .ok none
  else if type = MessageType.newRoute ∨ type = MessageType.delRoute then
    if isIp then
      match Route.ofPayload? payload with
      | some r => .ok (if r.isTracked then some (.route r) else none)
      | none => .error (unread RouteHead.size payload)
    else .ok none
  else if type = MessageType.newDiscipline ∨ type = MessageType.delDiscipline then
    demand (unread TrafficHead.size payload) .discipline (Discipline.ofPayload? payload)
  else if type = MessageType.newFilter ∨ type = MessageType.delFilter then
    demand (unread TrafficHead.size payload) .filter (Filter.ofPayload? payload)
  else .ok none

/-- What a message tells, if it tells anything of an object that is kept track of. -/
def decode (type : UInt16) (payload : Bytes) : Except Failure (Option (Change × Object)) :=
  match changeOf? type with
  | none => .ok none
  | some change =>
    match ofPayload type payload with
    | .ok object => .ok (object.map fun object => (change, object))
    | .error failure => .error failure

end Object

end NetState
