import NetState.Inventory.Table
import NetState.Object.Wire
import NetState.Wire.Report

/-!
A model of the kernel's side: what it keeps of the network, and what it says.

It holds the objects of one host, numbers links and disciplines itself, and queues datagrams for a
single listener: reports to requests, notices of changes, and listings. It can be made to fail on
request, for trying out what the other side makes of that.
-/

namespace NetState

/-- A request as it was seen. -/
structure SeenRequest where
  type : UInt16
  flags : UInt16
  seq : UInt32
  /-- The object it was about, if it told one and was no request for a listing. -/
  object : Option Object

/-- Who made a change; notices tell it. -/
structure Origin where
  seq : UInt32
  pid : UInt32
  /-- Whether nobody is told. -/
  silent : Bool

/-- Somebody who is not the listener. -/
def Origin.outside (silent : Bool) : Origin := ⟨0, 0, silent⟩

/-- The kernel's side. -/
structure Peer where
  links : Table UInt32 Link
  addresses : List Address
  routes : List Route
  disciplines : List Discipline
  filters : List Filter
  /-- The number of the next link. -/
  nextIndex : UInt32
  /-- The major number that is tried next for a discipline without a handle. -/
  nextMajor : UInt16
  /-- What is still to be received, in order. -/
  outbox : List Bytes
  /-- What has been asked, last first. -/
  requests : List SeenRequest
  /-- Message types whose next request is to fail, and how. -/
  failures : List (UInt16 × Int32)
  /-- How many receptions are still to fail for a full buffer. -/
  overruns : Nat
  /-- Whether notices are withheld. -/
  muted : Bool
  /-- Whether reports are withheld. -/
  repliesDropped : Bool
  /-- How many listings are still to be marked as disturbed. -/
  interruptions : Nat
  /-- How many objects of a listing go into one datagram. -/
  chunk : Nat
  /-- Whether there is version 6 of the internet protocol. -/
  ipv6 : Bool
  /-- Whether a request has ended the program, which this side is a part of. -/
  crashed : Bool

namespace Peer

/-- The number of the listener's socket. -/
def listener : UInt32 := 4242

/-- The lowest major number that is chosen for a discipline. -/
def firstMajor : UInt16 := 0x8001

/-- The discipline that the kernel puts at the root of a link. -/
def defaultDiscipline (interface : UInt32) : Discipline :=
  .new interface "noqueue" Handle.unspecified Handle.root

/-- The flags of a link that is up and has a carrier. -/
def carrierFlags (up : Bool) : UInt32 :=
  if up then Link.upFlag ||| Link.runningFlag ||| Link.lowerUpFlag else 0

/-- The loopback link. -/
def loopback : Link :=
  { Link.new "lo" .loopback with
    index := 1
    flags := Link.loopbackFlag ||| carrierFlags true
    mtu := some 65536 }

/-- The address of the loopback link. -/
def loopbackAddress : Address where
  interface := 1
  ip := .v4 0x7F000001
  length := 8
  label := some "lo"
  flags := Address.permanentFlag
  scope := some 254
  validFor := Address.forever
  preferredFor := Address.forever

/-- A host with nothing but its loopback link. -/
def initial : Peer where
  links := Table.empty.insert 1 loopback
  addresses := [loopbackAddress]
  routes := []
  disciplines := [defaultDiscipline 1]
  filters := []
  nextIndex := 2
  nextMajor := firstMajor
  outbox := []
  requests := []
  failures := []
  overruns := 0
  muted := false
  repliesDropped := false
  interruptions := 0
  chunk := 2
  ipv6 := true
  crashed := false

/-- Queues a datagram. -/
def post (peer : Peer) (datagram : Bytes) : Peer :=
  { peer with outbox := peer.outbox ++ [datagram] }

/-- Reports on a request: zero, or a negated error number. -/
def report (peer : Peer) (request : Header) (code : Int32) : Peer :=
  if peer.repliesDropped then peer
  else
    let draft := Draft.new MessageType.error 0 [.raw (Bytes.ofInt32 code ++ request.toBytes)]
    peer.post (draft.addressed request.seq request.pid).toBytes

/-- Tells of a change, by a message of the given type. An object that cannot be told is not. -/
def tell (peer : Peer) (origin : Origin) (type : UInt16) (object : Object) : Peer :=
  if origin.silent || peer.muted then peer
  else match object.toMessage type 0 with
    | .ok draft => peer.post (draft.addressed origin.seq origin.pid).toBytes
    | .error _ => peer

/-- Tells that an object is there. -/
def tellNew (peer : Peer) (origin : Origin) (object : Object) : Peer :=
  peer.tell origin object.kind.newType object

/-- Tells that an object is gone. -/
def tellGone (peer : Peer) (origin : Origin) (object : Object) : Peer :=
  peer.tell origin object.kind.delType object

/-- The link with a name, the first in the order of numbers. -/
def linkNamed? (peer : Peer) (name : String) : Option Link :=
  peer.links.values.find? (·.name == name)

/-- The objects of a kind that the peer keeps. -/
def objects (peer : Peer) : Kind → List Object
  | .link => peer.links.values.map .link
  | .address4 => (peer.addresses.filter (!·.ip.isV6)).map .address
  | .address6 => (peer.addresses.filter (·.ip.isV6)).map .address
  | .route4 => (peer.routes.filter (!·.isV6)).map .route
  | .route6 => (peer.routes.filter (·.isV6)).map .route
  | .discipline => peer.disciplines.map .discipline
  | .filter => peer.filters.map .filter

/-- Whether filters can hang at an attach point: a discipline that is not the kernel's choice has
its major number. -/
def hasFilterParent (peer : Peer) (interface : UInt32) (parent : Handle) : Bool :=
  peer.disciplines.any fun d =>
    d.interface == interface && !d.isDefault && d.handle.major == parent.major

/-- What the peer says next, if it has anything to say: that the buffer was full, or a datagram. -/
def receive? (peer : Peer) : Option (Except Fault Bytes × Peer) :=
  if 0 < peer.overruns then
    some (.error (.io Errno.noBuffers), { peer with overruns := peer.overruns - 1 })
  else match peer.outbox with
    | [] => none
    | datagram :: rest => some (.ok datagram, { peer with outbox := rest })

/-- How many receptions the peer has something for. -/
def waiting (peer : Peer) : Nat :=
  peer.overruns + peer.outbox.length

/-- All that the peer has to say, in order, and the peer that has said it. -/
def receiveAll (peer : Peer) : List (Except Fault Bytes) × Peer :=
  (List.replicate peer.overruns (.error (.io Errno.noBuffers)) ++ peer.outbox.map .ok,
    { peer with overruns := 0, outbox := [] })

end Peer

end NetState
