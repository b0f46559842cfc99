import NetState.Route.Basic
import NetState.Verb
import NetState.Wire.Field
import NetState.Wire.Value

namespace NetState

/-- The fixed part of a route message. -/
structure RouteHead where
  family : UInt8
  length : UInt8
  sourceLength : UInt8
  tos : UInt8
  table : UInt8
  protocol : UInt8
  scope : UInt8
  kind : UInt8
  flags : UInt32
  deriving DecidableEq, Repr

namespace RouteHead

def size : Nat := 12

def zero : RouteHead := ⟨0, 0, 0, 0, 0, 0, 0, 0, 0⟩

def toBytes (head : RouteHead) : Bytes :=
  [head.family, head.length, head.sourceLength, head.tos, head.table, head.protocol, head.scope,
    head.kind] ++ Bytes.ofUInt32 head.flags

def read (bytes : Bytes) : RouteHead where
  family := bytes.u8At 0
  length := bytes.u8At 1
  sourceLength := bytes.u8At 2
  tos := bytes.u8At 3
  table := bytes.u8At 4
  protocol := bytes.u8At 5
  scope := bytes.u8At 6
  kind := bytes.u8At 7
  flags := bytes.u32At 8

end RouteHead

namespace Route

def destinationAttr : UInt16 := 1
/-- The link it leaves by. -/
def interfaceAttr : UInt16 := 4
def gatewayAttr : UInt16 := 5
def metricAttr : UInt16 := 6
def sourceAttr : UInt16 := 7
def tableAttr : UInt16 := 15

/-- The scope of a request: anywhere if there is a gateway, else on the link. A request to delete
takes any. -/
def requestScope (route : Route) (verb : Verb) : UInt8 :=
  if verb = .delete then nowhereScope
  else if route.isV6 || route.gateway.isSome then universeScope
  else if route.interface ≠ 0 then linkScope
  else route.scope

/-- The table in one octet, zero if it has no place there. -/
def smallTable (route : Route) : UInt8 :=
  if route.table ≤ 0xFF then route.table.toUInt8 else 0

def requestHead (route : Route) (verb : Verb) : RouteHead where
  family := route.destination.family
  length := route.length
  sourceLength := 0
  tos := route.tos
  table := route.smallTable
  protocol := if verb = .delete then anyProtocol else route.protocol
  scope := route.requestScope verb
  kind := route.kind
  flags := 0

def requestFields (route : Route) (verb : Verb) : Except Fault (List Field) := do
  if let some gateway := route.gateway then
    if gateway.isV6 != route.isV6 then
      throw (.invalidArgument (.gatewayFamily gateway route.destination route.length))
  let destination :=
    if 0 < route.length then [Field.ip destinationAttr route.destination] else []
  let identity := .raw (route.requestHead verb).toBytes :: Field.u32 tableAttr route.table ::
    destination ++ [Field.u32 metricAttr route.effectiveMetric]
  if verb = .delete then return identity
  let interface := if route.interface = 0 then [] else [Field.u32 interfaceAttr route.interface]
  return identity ++ interface ++ route.gateway.toList.map (Field.ip gatewayAttr) ++
    route.source.toList.map (Field.ip sourceAttr)

/-- The route with what one attribute of a message of a family tells of it. -/
def readAttribute (family : UInt8) (route : Route) (attr : Attribute) : Option Route :=
  if attr.kind = tableAttr then
    (Value.u32 attr.payload).toOption.map fun table => { route with table }
  else if attr.kind = destinationAttr then
    (Value.ip family attr.payload).toOption.map fun destination => { route with destination }
  else if attr.kind = metricAttr then
    (Value.u32 attr.payload).toOption.map fun metric => { route with metric }
  else if attr.kind = interfaceAttr then
    (Value.u32 attr.payload).toOption.map fun interface => { route with interface }
  else if attr.kind = gatewayAttr then
    (Value.ip family attr.payload).toOption.map fun gateway =>
      { route with gateway := some gateway }
  else if attr.kind = sourceAttr then
    (Value.ip family attr.payload).toOption.map fun source => { route with source := some source }
  else some route

/-- The route that a payload tells of, if it has the form of a route message. -/
def ofPayload? (payload : Bytes) : Option Route := do
  let (octets, rest) ← payload.split? RouteHead.size
  let head := RouteHead.read octets
  let start : Route := {
    table := head.table.toUInt32
    tos := head.tos
    destination := .unspecified head.family
    length := head.length
    metric := 0
    interface := 0
    gateway := none
    source := none
    protocol := head.protocol
    scope := head.scope
    kind := head.kind
    flags := head.flags
  }
  let route ← (← Attribute.readAll? rest).foldlM (readAttribute head.family) start
  return { route with destination := route.destination.mask route.length }

end Route

end NetState
