import NetState.Fault
import NetState.Link.Kind

namespace NetState

/-- Whether a link can carry traffic, as the kernel tells it. -/
inductive LinkState where
  | unknown
  | notPresent
  | down
  | lowerLayerDown
  | testing
  | dormant
  | up
  deriving DecidableEq, Repr

namespace LinkState

def ofNumber (number : UInt8) : LinkState :=
  match number.toNat with
  | 1 => notPresent
  | 2 => down
  | 3 => lowerLayerDown
  | 4 => testing
  | 5 => dormant
  | 6 => up
  | _ => unknown

def number : LinkState → UInt8
  | unknown => 0
  | notPresent => 1
  | down => 2
  | lowerLayerDown => 3
  | testing => 4
  | dormant => 5
  | up => 6

end LinkState

/-- A network interface, or what is wanted of one. -/
structure Link where
  /-- The number the kernel gave it; zero in a wanted link, which its name finds. -/
  index : UInt32
  name : String
  kind : LinkKind
  flags : UInt32
  mtu : Option UInt32
  state : LinkState
  /-- The link below this one. -/
  lower : Option UInt32
  vlanId : Option UInt16
  /-- The name of the other end, for creating a pair. -/
  peer : Option String
  deriving DecidableEq, Repr

namespace Link

/-- Set by the administrator. -/
def upFlag : UInt32 := 0x1
def broadcastFlag : UInt32 := 0x2
def loopbackFlag : UInt32 := 0x8
def runningFlag : UInt32 := 0x40
def noArpFlag : UInt32 := 0x80
def multicastFlag : UInt32 := 0x1000
/-- The layer below is up: there is a carrier. -/
def lowerUpFlag : UInt32 := 0x10000

def new (name : String) (kind : LinkKind) : Link where
  index := 0
  name := name
  kind := kind
  flags := 0
  mtu := none
  state := .unknown
  lower := none
  vlanId := none
  peer := none

/-- A pair of links, of which this is one end. -/
def pair (name peer : String) : Link :=
  { new name .veth with peer := some peer }

/-- A link for the tagged frames of another one. -/
def tagged (name : String) (lower : UInt32) (id : UInt16) : Link :=
  { new name .vlan with lower := some lower, vlanId := some id }

def setUp (link : Link) (up : Bool) : Link :=
  { link with flags := if up then link.flags ||| upFlag else link.flags &&& ~~~upFlag }

def isUp (link : Link) : Bool :=
  link.flags &&& upFlag != 0

def hasCarrier (link : Link) : Bool :=
  link.flags &&& lowerUpFlag != 0

/-- Whether what `wanted` sets is so: name, administrative state, and kind and unit size if set. -/
def satisfies (link wanted : Link) : Bool :=
  link.name == wanted.name && (wanted.kind == .unknown || link.kind == wanted.kind) &&
    link.isUp == wanted.isUp && wanted.mtu.all fun mtu => link.mtu == some mtu

/-- Whether a change in place can lead to `wanted`: the kind of a link is fixed. -/
def changeableTo (link wanted : Link) : Bool :=
  wanted.kind == .unknown || link.kind == wanted.kind

/-- The octets that the kernel keeps of a name, its end mark included. -/
def nameLimit : Nat := 16

def validate (link : Link) : Except Fault Unit :=
  if link.name = "" ∧ link.index = 0 then .error (.invalidArgument .linkUnnamed)
  else if nameLimit ≤ Text.Utf8.length link.name then
    .error (.invalidArgument (.linkNameTooLong link.name))
  else .ok ()

end Link

end NetState
