import NetState.Address.Basic
import NetState.Discipline.Text
import NetState.Filter.Basic
import NetState.Link.Basic
import NetState.Object.Key
import NetState.Object.Kind
import NetState.Route.Basic

namespace NetState

/-- A snapshot of an object, or a wanted object. -/
inductive Object where
  | link (link : Link)
  | address (address : Address)
  | route (route : Route)
  | discipline (discipline : Discipline)
  | filter (filter : Filter)
  deriving DecidableEq, Repr

namespace Object

def kind : Object → Kind
  | link _ => .link
  | address a => if a.ip.isV6 then .address6 else .address4
  | route r => if r.isV6 then .route6 else .route4
  | discipline _ => .discipline
  | filter _ => .filter

/-- The key of an object. A route's is that of the prefix it leads to, with the metric that the
kernel uses. -/
def key : Object → Key
  | link l => .link l.index
  | address a => .address a.interface a.ip a.length
  | route r =>
    .route r.table r.tos (r.destination.mask r.length) r.length
      r.effectiveMetric
  | discipline d => .discipline d.interface d.parent
  | filter f =>
    .filter f.interface f.parent f.protocol f.priority f.handle

/-- Whether two snapshots are of one object; a filter's priority and handle agree with any where
they are left to the kernel. -/
def equivalent (a b : Object) : Bool :=
  match a, b with
  | filter a, filter b => a.sameSlot b
  | _, _ => a.kind == b.kind && a.key == b.key

/-- Whether it is the wanted object and all that is set in that is so. A wanted link without a
number is found by its name. -/
def satisfies (object wanted : Object) : Bool :=
  match object, wanted with
  | link l, link wanted =>
    (wanted.index == 0 || l.index == wanted.index) && l.satisfies wanted
  | address a, address wanted =>
    equivalent (.address a) (.address wanted) && a.satisfies wanted
  | route r, route wanted =>
    equivalent (.route r) (.route wanted) && r.satisfies wanted
  | discipline d, discipline wanted =>
    equivalent (.discipline d) (.discipline wanted) && d.satisfies wanted
  | filter f, filter wanted => f.satisfies wanted
  | _, _ => false

/-- The number of the link that an object belongs to, or zero. -/
def interface : Object → UInt32
  | link l => l.index
  | address a => a.interface
  | route r => r.interface
  | discipline d => d.interface
  | filter f => f.interface

/-- The link that an object belongs to; a route belongs to the one it leaves by. -/
def owner? (object : Object) : Option UInt32 :=
  if object.interface = 0 then none else some object.interface

/-- Refuses a wanted object that no request could bring about. -/
def validate : Object → Except Fault Unit
  | link l => l.validate
  | address a => a.validate
  | route r => r.validate
  | discipline d => d.validate
  | filter f => f.validate

def text : Object → String
  | link l =>
    "link " ++ l.name ++ " (" ++ toString l.index.toNat ++ ", " ++ l.kind.text ++ ")"
  | address a =>
    "address " ++ Cause.network a.ip a.length ++ " dev " ++
      toString a.interface.toNat
  | route r =>
    let via := match r.gateway with
      | some gateway => " via " ++ gateway.text
      | none => ""
    "route " ++ Cause.network r.destination r.length ++ " table " ++
      toString r.table.toNat ++ via ++ " dev " ++ toString r.interface.toNat ++
      " metric " ++ toString r.effectiveMetric.toNat
  | discipline d => "qdisc " ++ d.text
  | filter f =>
    let action := match f.action with
      | some action => " action " ++ action.text
      | none => ""
    "filter dev " ++ toString f.interface.toNat ++ " parent " ++ f.parent.text ++
      " prio " ++ toString f.priority.toNat ++ " " ++ f.kind ++ action

end Object

end NetState
