import NetState.Action.Basic
import NetState.Handle

namespace NetState

/-- A filter, or what is wanted of one. -/
structure Filter where
  interface : UInt32
  /-- The kind of its classifier. -/
  kind : String
  handle : Handle
  /-- Where it is attached. -/
  parent : Handle
  priority : UInt16
  /-- The link-layer protocol of the packets it looks at. -/
  protocol : UInt16
  action : Option Action
  deriving DecidableEq, Repr

namespace Filter

/-- The protocol number that stands for all packets. -/
def anyProtocol : UInt16 := 3

/-- The kind of filter that matches every packet. -/
def matchAllKind : String := "matchall"

/-- Where a kind keeps its table of actions; the other kinds take none. -/
def actionAttr? (kind : String) : Option UInt16 :=
  if kind = matchAllKind then some 2
  else if kind = "basic" then some 3
  else none

/-- Whether it names one filter of the kernel's. -/
def isKeyed (filter : Filter) : Bool :=
  filter.priority != 0 && !filter.handle.isUnspecified

/-- Whether two filters can be the same one of the kernel's: same place and protocol, and priority
and handle agree where both are set. -/
def sameSlot (filter other : Filter) : Bool :=
  filter.interface == other.interface && filter.parent == other.parent &&
    filter.protocol == other.protocol &&
    (filter.priority == 0 || other.priority == 0 || filter.priority == other.priority) &&
    (filter.handle.isUnspecified || other.handle.isUnspecified || filter.handle == other.handle)

/-- Whether it is what `wanted` asks for, in its slot. -/
def satisfies (filter wanted : Filter) : Bool :=
  filter.sameSlot wanted && filter.kind == wanted.kind && filter.action == wanted.action

/-- The octets of data in a logging action. -/
def dataLength (filter : Filter) : Nat :=
  match filter.action with
  | some (.simple data) => Text.Utf8.length data
  | _ => 0

def validate (filter : Filter) : Except Fault Unit :=
  if filter.interface = 0 ∨ filter.parent.isUnspecified then
    .error (.invalidArgument (.filterUnplaced filter.kind))
  else if Cause.actionDataLimit < filter.dataLength then
    .error (.invalidArgument (.actionDataTooLong filter.dataLength))
  else if filter.action ≠ none ∧ actionAttr? filter.kind = none then
    .error (.notSupported (.filterWithoutActions filter.kind))
  else .ok ()

end Filter

end NetState
