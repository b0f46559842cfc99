import NetState.Text.Quoted

namespace NetState

/-- A set of kernel features. -/
structure Support where
  bits : UInt32
  deriving DecidableEq, Repr

/-- A feature by name. -/
structure Feature where
  name : String
  flag : Support
  /-- The module that brings it, unless it can only be found by trying. -/
  module? : Option String
  deriving DecidableEq, Repr

namespace Support

/-- The feature of one bit. -/
def bit (position : UInt32) : Support :=
  ⟨1 <<< position⟩

def extendedAck : Support := bit 0
def strictCheck : Support := bit 1
/-- Traffic control. -/
def traffic : Support := bit 2
/-- Objects can be replaced in one request. -/
def replace : Support := bit 3
def ipv6 : Support := bit 4

/-- The lowest bit of a feature that is a kind of link. Those of traffic control are below. -/
def firstLink : Support := bit 16

/-- All features, in the order in which they are told. -/
def features : List Feature := [
  ⟨"extended-ack", extendedAck, none⟩,
  ⟨"strict-check", strictCheck, none⟩,
  ⟨"tc", traffic, none⟩,
  ⟨"replace", replace, none⟩,
  ⟨"ipv6", ipv6, none⟩,
  ⟨"fq_codel", bit 8, some "sch_fq_codel"⟩,
  ⟨"ingress", bit 9, some "sch_ingress"⟩,
  ⟨"clsact", bit 9, some "sch_ingress"⟩,
  ⟨"matchall", bit 10, some "cls_matchall"⟩,
  ⟨"basic", bit 11, some "cls_basic"⟩,
  ⟨"simple", bit 12, some "act_simple"⟩,
  ⟨"gact", bit 13, some "act_gact"⟩,
  ⟨"mirred", bit 14, some "act_mirred"⟩,
  ⟨"dummy", firstLink, some "dummy"⟩,
  ⟨"veth", bit 17, some "veth"⟩,
  ⟨"bridge", bit 18, some "bridge"⟩,
  ⟨"bond", bit 19, some "bonding"⟩,
  ⟨"vlan", bit 20, some "8021q"⟩,
  ⟨"macvlan", bit 21, some "macvlan"⟩,
  ⟨"ifb", bit 22, some "ifb"⟩,
  ⟨"wireguard", bit 23, some "wireguard"⟩,
  ⟨"vrf", bit 24, some "vrf"⟩]

def none : Support := ⟨0⟩

def union (a b : Support) : Support :=
  ⟨a.bits ||| b.bits⟩

def without (a b : Support) : Support :=
  ⟨a.bits &&& ~~~b.bits⟩

/-- Whether every feature of `b` is one of `a`. -/
def contains (a b : Support) : Bool :=
  a.bits &&& b.bits == b.bits

/-- The features of `b` present or absent in `a`. -/
def set (a b : Support) (on : Bool) : Support :=
  if on then a.union b else a.without b

/-- Every feature. -/
def all : Support :=
  features.foldl (fun support feature => support.union feature.flag) none

/-- The features that the bits of a word stand for; other bits are dropped. -/
def ofBits (bits : UInt32) : Support :=
  ⟨bits &&& all.bits⟩

/-- The bit of a named feature. -/
def flag? (name : String) : Option Support :=
  (features.find? (·.name == name)).map (·.flag)

/-- Whether a named feature is there; one of an unknown name is not. -/
def supports (support : Support) (name : String) : Bool :=
  (flag? name).any support.contains

/-- The names of the features that are there, in order. -/
def names (support : Support) : List String :=
  (features.filter fun feature => support.contains feature.flag).map (·.name)

/-- The name of every feature, and whether it is there. -/
def report (support : Support) : List (String × Bool) :=
  features.map fun feature => (feature.name, support.contains feature.flag)

/-- The features in one line. -/
def text (support : Support) : String :=
  "KernelSupport([" ++ String.intercalate ", " (support.names.map Text.quoted) ++ "])"

end Support

end NetState
