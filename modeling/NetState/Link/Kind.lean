

namespace NetState

/-- The family of settings that a connection over a link carries. -/
inductive Setting where
  | none
  | ethernet
  | bridge
  | bond
  | vlan
  | wpan
  | wireguard
  deriving DecidableEq, Repr

def Setting.all : List Setting :=
  [none, ethernet, bridge, bond, vlan, wpan, wireguard]

/-- The kinds of links that are told apart. -/
inductive LinkKind where
  | unknown
  | loopback
  | ethernet
  | dummy
  | veth
  | bridge
  | bond
  | vlan
  | macvlan
  | ifb
  | wireguard
  | vrf
  | wpan
  | tun
  deriving DecidableEq, Repr

namespace LinkKind

def all : List LinkKind :=
  [unknown, loopback, ethernet, dummy, veth, bridge, bond, vlan, macvlan, ifb, wireguard, vrf, wpan,
    tun]

/-- The name by which the kernel tells a kind, for those it has a name for. -/
def kernelName? : LinkKind → Option String
  | dummy => some "dummy"
  | veth => some "veth"
  | bridge => some "bridge"
  | bond => some "bond"
  | vlan => some "vlan"
  | macvlan => some "macvlan"
  | ifb => some "ifb"
  | wireguard => some "wireguard"
  | vrf => some "vrf"
  | tun => some "tun"
  | unknown | loopback | ethernet | wpan => none

/-- The kind with the given kernel name; names that are not known tell nothing. -/
def ofKernelName (name : String) : LinkKind :=
  (all.find? (·.kernelName? == some name)).getD unknown

/-- Whether such a link exists without hardware behind it. -/
def isSoftware : LinkKind → Bool
  | unknown | ethernet | wpan => false
  | _ => true

/-- Whether a request can create such a link. -/
def isCreatable : LinkKind → Bool
  | unknown | loopback | ethernet | wpan | tun => false
  | _ => true

/-- The settings a link of this kind is configured with. -/
def setting : LinkKind → Setting
  | ethernet | veth | macvlan => .ethernet
  | bridge => .bridge
  | bond => .bond
  | vlan => .vlan
  | wireguard => .wireguard
  | wpan => .wpan
  | unknown | loopback | dummy | ifb | vrf | tun => .none

/-- A link takes the settings of its own family and no others. -/
def supports (kind : LinkKind) (setting : Setting) : Bool :=
  kind.setting == setting

def text : LinkKind → String
  | loopback => "loopback"
  | ethernet => "ethernet"
  | wpan => "wpan"
  | kind => kind.kernelName?.getD "unknown"

def etherType : UInt16 := 1
def loopbackType : UInt16 := 772
def wpanType : UInt16 := 804
/-- The hardware type of links without a link layer. -/
def bareType : UInt16 := 0xFFFE

/-- The hardware type the kernel gives to links of this kind. -/
def hardwareType : LinkKind → UInt16
  | loopback => loopbackType
  | wpan => wpanType
  | tun | wireguard => bareType
  | _ => etherType

/-- The kind that a hardware type tells by itself. -/
def ofHardwareType (type : UInt16) : LinkKind :=
  if type = loopbackType then loopback
  else if type = etherType then ethernet
  else if type = wpanType then wpan
  else unknown

end LinkKind

end NetState
