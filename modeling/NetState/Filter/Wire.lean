import NetState.Action.Wire
import NetState.Discipline.Wire
import NetState.Filter.Basic

namespace NetState.Filter

/-- A 16-bit word with its octets exchanged. -/
def swapped (word : UInt16) : UInt16 :=
  (word <<< 8) ||| (word >>> 8)

/-- The word with the priority and, in network order, the protocol. -/
def info (filter : Filter) : UInt32 :=
  (filter.priority.toUInt32 <<< 16) ||| (swapped filter.protocol).toUInt32

/-- The fixed part of a message about a filter. -/
def head (filter : Filter) : TrafficHead :=
  ⟨0, filter.interface, filter.handle, filter.parent, filter.info⟩

/-- The fixed part of a request to delete every filter at an attach point. -/
def flushHead (filter : Filter) : TrafficHead :=
  ⟨0, filter.interface, Handle.unspecified, filter.parent, 0⟩

/-- The options of a filter: its action, if it has one, in the table of its kind. -/
def optionFields (filter : Filter) : Except Fault (List Field) :=
  match filter.action with
  | none => .ok []
  | some action =>
    match actionAttr? filter.kind with
    | some attr => .ok [.nest TrafficHead.optionsAttr [.nest attr action.tableFields]]
    | none => .error (.notSupported (.filterWithoutActions filter.kind))

def requestFields (filter : Filter) (verb : Verb) : Except Fault (List Field) := do
  if verb = .delete ∧ filter.priority = 0 then return [.raw filter.flushHead.toBytes]
  let identity := [.raw filter.head.toBytes, Field.string TrafficHead.kindAttr filter.kind]
  if verb = .delete then return identity
  let options ← filter.optionFields
  return identity ++ options

/-- The action that the options of a kind tell: nothing if it is malformed. -/
def readAction (kind : String) (options : Option Bytes) : Option (Option Action) :=
  match actionAttr? kind, options with
  | some attr, some octets =>
    match Attribute.find? attr octets with
    | some table => Action.ofTable table
    | none => some none
  | _, _ => some none

/-- The filter that a payload tells of, if it has the form of a traffic control message. -/
def ofPayload? (payload : Bytes) : Option Filter := do
  let (head, kind, options) ← TrafficHead.ofPayload? payload
  let action ← readAction kind options
  return {
    interface := head.interface
    kind
    handle := head.handle
    parent := head.parent
    priority := (head.info >>> 16).toUInt16
    protocol := swapped head.info.toUInt16
    action
  }

end NetState.Filter
