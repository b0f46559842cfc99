import NetState.Address.Wire
import NetState.Discipline.Wire
import NetState.Link.Wire
import NetState.Route.Wire
import NetState.Wire.Draft

namespace NetState

/-- The kinds of objects, those before that others depend on. -/
inductive Kind where
  | link
  | address4
  | address6
  | route4
  | route6
  | discipline
  | filter
  deriving DecidableEq, Repr

namespace Kind

/-- All kinds in the order in which they are listed. -/
def all : List Kind :=
  [link, address4, address6, route4, route6, discipline, filter]

def name : Kind → String
  | link => "link"
  | address4 => "ip4-address"
  | address6 => "ip6-address"
  | route4 => "ip4-route"
  | route6 => "ip6-route"
  | discipline => "qdisc"
  | filter => "tfilter"

def ofName? (name : String) : Option Kind :=
  all.find? (·.name == name)

/-- The place of a kind among all. -/
def rank : Kind → Nat
  | link => 0
  | address4 => 1
  | address6 => 2
  | route4 => 3
  | route6 => 4
  | discipline => 5
  | filter => 6

/-- Whether objects of this kind belong to a link. -/
def isPerInterface : Kind → Bool
  | link => false
  | _ => true

/-- The address family in requests to list a kind; zero for kinds of no family. -/
def family : Kind → UInt8
  | address4 | route4 => Ip.inet
  | address6 | route6 => Ip.inet6
  | link | discipline | filter => 0

/-- The type of messages that announce an object of this kind. -/
def newType : Kind → UInt16
  | link => MessageType.newLink
  | address4 | address6 => MessageType.newAddress
  | route4 | route6 => MessageType.newRoute
  | discipline => MessageType.newDiscipline
  | filter => MessageType.newFilter

/-- The type of messages that tell that an object of this kind is gone, or ask to delete it. -/
def delType : Kind → UInt16
  | link => MessageType.delLink
  | address4 | address6 => MessageType.delAddress
  | route4 | route6 => MessageType.delRoute
  | discipline => MessageType.delDiscipline
  | filter => MessageType.delFilter

/-- The type of messages that ask for objects of this kind. -/
def getType : Kind → UInt16
  | link => MessageType.getLink
  | address4 | address6 => MessageType.getAddress
  | route4 | route6 => MessageType.getRoute
  | discipline => MessageType.getDiscipline
  | filter => MessageType.getFilter

/-- The fixed part of a request to list a kind. -/
def listingHead (kind : Kind) : Bytes :=
  match kind with
  | link => { LinkHead.zero with family := kind.family }.toBytes
  | address4 | address6 => { AddressHead.zero with family := kind.family }.toBytes
  | route4 | route6 => { RouteHead.zero with family := kind.family }.toBytes
  | discipline | filter => TrafficHead.zero.toBytes

/-- The request to list every object of a kind. Filters cannot be listed this way, but only at one
attach point at a time. -/
def listing (kind : Kind) : Draft :=
  .new kind.getType (Flag.request ||| Flag.dump) [.raw kind.listingHead]

/-- The request to list the filters at an attach point of a link. -/
def filterListing (interface : UInt32) (parent : Handle) : Draft :=
  .new MessageType.getFilter (Flag.request ||| Flag.dump)
    [.raw { TrafficHead.zero with interface, parent }.toBytes]

theorem rank_injective {a b : Kind} (h : a.rank = b.rank) : a = b := by
  cases a <;> cases b <;> first | rfl | (simp [rank] at h)

end Kind

end NetState
