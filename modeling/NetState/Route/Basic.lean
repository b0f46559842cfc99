import NetState.Fault

namespace NetState

/-- A route, or what is wanted of one. -/
structure Route where
  table : UInt32
  /-- The type of service it is for. -/
  tos : UInt8
  destination : Ip
  /-- The length of the destination's prefix. -/
  length : UInt8
  /-- Lower ones are preferred; in version 6 zero stands for the kernel's choice. -/
  metric : UInt32
  /-- The link it leaves by; zero if that is not set. -/
  interface : UInt32
  gateway : Option Ip
  /-- The preferred source address. -/
  source : Option Ip
  /-- Who put it there. -/
  protocol : UInt8
  scope : UInt8
  /-- What becomes of a packet that takes it. -/
  kind : UInt8
  flags : UInt32
  deriving DecidableEq, Repr

namespace Route

/-- The main table. -/
def mainTable : UInt32 := 254

/-- Packets are sent on to one receiver. -/
def unicast : UInt8 := 1

/-- The protocol of a wanted route that takes any. -/
def anyProtocol : UInt8 := 0
def staticProtocol : UInt8 := 4

def universeScope : UInt8 := 0
def linkScope : UInt8 := 253
def nowhereScope : UInt8 := 255

/-- The mark of a route that the kernel derived from another one. -/
def clonedFlag : UInt32 := 0x200

/-- The metric the kernel chooses in version 6. -/
def defaultMetric6 : UInt32 := 1024

/-- A route in the main table with the destination's bits past the prefix cleared, unless the length
is more than the address has bits. -/
def new (destination : Ip) (length : UInt8) : Except Fault Route :=
  if destination.maxPrefix < length then
    .error (.invalidArgument (.prefixLength length destination))
  else .ok {
    table := mainTable
    tos := 0
    destination := destination.mask length
    length
    metric := 0
    interface := 0
    gateway := none
    source := none
    protocol := staticProtocol
    scope := universeScope
    kind := unicast
    flags := 0
  }

/-- The route whose destination a text tells, with a prefix length after a slash or that of a
host. -/
def ofText (text : String) : Except Fault Route := do
  let (ipText, lengthText) := (Text.splitOnce? '/' text.toList).getD (text.toList, [])
  let some destination := Ip.ofChars? ipText
    | throw (.invalidArgument (.routeText text))
  if lengthText.isEmpty then new destination destination.maxPrefix
  else match Text.numeralUInt8? lengthText with
    | some length => new destination length
    | none => throw (.invalidArgument (.routeText text))

def isV6 (route : Route) : Bool :=
  route.destination.isV6

/-- The metric the kernel uses. -/
def effectiveMetric (route : Route) : UInt32 :=
  if route.isV6 && route.metric == 0 then defaultMetric6 else route.metric

/-- Whether it is kept track of: it sends packets on, and somebody put it there. -/
def isTracked (route : Route) : Bool :=
  route.kind == unicast && route.flags &&& clonedFlag == 0

/-- Whether what `wanted` sets is so: gateway and type, and link, source and protocol if set. -/
def satisfies (route wanted : Route) : Bool :=
  (wanted.interface == 0 || route.interface == wanted.interface) &&
    route.gateway == wanted.gateway &&
    wanted.source.all (fun source => route.source == some source) &&
    route.kind == wanted.kind &&
    (wanted.protocol == anyProtocol || route.protocol == wanted.protocol)

def validate (route : Route) : Except Fault Unit :=
  if route.interface = 0 ∧ route.gateway = none then
    .error (.invalidArgument (.routeWithoutNextHop route.destination route.length))
  else .ok ()

end Route

end NetState
