import NetState.Peer.Change
import NetState.Wire.Message

namespace NetState.Peer

/-- The objects of a pair of kinds that a request for one address family asks for, or of both for
any other family. -/
def listFamily (peer : Peer) (family : UInt8) (four six : Kind) : Except Int (List Object) :=
  if family = Ip.inet then .ok (peer.objects four)
  else if family = Ip.inet6 then
    if peer.ipv6 then .ok (peer.objects six) else .error Errno.familyNotSupported
  else .ok (peer.objects four ++ if peer.ipv6 then peer.objects six else [])

/-- The filters that a request asks for: those at the attach point it tells, or those below the
discipline if it tells that. -/
def listFilters (peer : Peer) (payload : Bytes) : Except Int (List Object) :=
  match Filter.ofPayload? payload with
  | none => .error Errno.invalid
  | some asked =>
    if !peer.hasFilterParent asked.interface asked.parent then .error Errno.invalid
    else
      let listed (f : Filter) : Bool :=
        f.interface == asked.interface &&
          if asked.parent.minor = 0 then f.parent.major == asked.parent.major
          else f.parent == asked.parent
      .ok ((peer.filters.filter listed).map .filter)

/-- The objects that a request for a listing asks for, or the error number it is refused with. -/
def listed (peer : Peer) (request : Message) : Except Int (List Object) :=
  let type := request.header.kind
  let family := request.payload.headD 0
  if type = MessageType.getLink then .ok (peer.objects .link)
  else if type = MessageType.getAddress then peer.listFamily family .address4 .address6
  else if type = MessageType.getRoute then peer.listFamily family .route4 .route6
  else if type = MessageType.getDiscipline then .ok (peer.objects .discipline)
  else if type = MessageType.getFilter then peer.listFilters request.payload
  else .error Errno.notSupported

/-- A list cut into pieces of `size` elements, the last of which may be shorter. -/
def chunks {α : Type} (size : Nat) : List α → List (List α)
  | [] => []
  | first :: rest => (first :: rest.take (size - 1)) :: chunks size (rest.drop (size - 1))
termination_by values => values.length
decreasing_by
  simp only [List.length_drop, List.length_cons]
  omega

/-- The octets of an object in a listing; an object that cannot be told is left out. -/
def entryBytes (request : Header) (object : Object) : Bytes :=
  match object.toMessage object.kind.newType Flag.multi with
  | .ok draft => (draft.addressed request.seq request.pid).toBytes
  | .error _ => []

/-- The octets of the message that ends a listing. -/
def endBytes (request : Header) (interrupted : Bool) : Bytes :=
  let flags := if interrupted then Flag.multi ||| Flag.interrupted else Flag.multi
  let draft := Draft.new MessageType.done flags [.raw (Bytes.ofInt32 0)]
  (draft.addressed request.seq request.pid).toBytes

/-- The datagrams of a listing; its end comes in the last one. -/
def listingDatagrams (size : Nat) (request : Header) (objects : List Object) (interrupted : Bool) :
    List Bytes :=
  let datagrams := (chunks size objects).map (·.flatMap (entryBytes request))
  datagrams.dropLast ++ [datagrams.getLast?.getD [] ++ endBytes request interrupted]

/-- Answers a request for a listing. -/
def answerListing (peer : Peer) (request : Message) : Peer :=
  match peer.listed request with
  | .error errno => peer.report request.header (Int32.ofInt (-errno))
  | .ok objects =>
    let datagrams :=
      listingDatagrams peer.chunk request.header objects (0 < peer.interruptions)
    { peer with
      interruptions := peer.interruptions - 1
      outbox := peer.outbox ++ datagrams }

/-- Answers a request for a change, which `decoded` tells. -/
def answerChange (peer : Peer) (request : Header)
    (decoded : Except Failure (Option (Change × Object))) : Peer :=
  let goal : Goal := if Object.delTypes.contains request.kind then .absent else .present
  let effect := match decoded with
    | .ok (some (_, object)) =>
      peer.apply ⟨request.seq, request.pid, false⟩ request.flags goal object
    | .ok none => refuse peer Errno.notSupported
    | .error _ => refuse peer Errno.invalid
  match effect.refusal with
  | some errno => effect.peer.report request (Int32.ofInt (-errno))
  | none =>
    if hasFlag request.flags Flag.ack then effect.peer.report request 0 else effect.peer

/-- The number that the next request of a type is to fail with, and the failures still to come. -/
def takeFailure (type : UInt16) : List (UInt16 × Int32) → Option (Int32 × List (UInt16 × Int32))
  | [] => none
  | (failing, errno) :: rest =>
    if failing = type then some (errno, rest)
    else (takeFailure type rest).map fun (found, left) => (found, (failing, errno) :: left)

/-- Whether a request asks for a listing. -/
def asksForListing (request : Header) : Bool :=
  request.flags &&& Flag.dump == Flag.dump

/-- Notes a request, and answers it. -/
def respond (peer : Peer) (request : Message) : Peer :=
  let header := request.header
  let decoded := Object.decode header.kind request.payload
  let object := match decoded with
    | .ok (some (_, object)) => if asksForListing header then none else some object
    | _ => none
  let seen : SeenRequest := ⟨header.kind, header.flags, header.seq, object⟩
  let noted := { peer with requests := seen :: peer.requests }
  match takeFailure header.kind noted.failures with
  | some (errno, left) => ({ noted with failures := left } : Peer).report header (-errno)
  | none =>
    if asksForListing header then noted.answerListing request
    else noted.answerChange header decoded

/-- Whether a request ends the program. Its payload is read like that of a message, and that of a
request for filters once more; a failure that is to be reported is negated. -/
def crashes (peer : Peer) (request : Message) : Bool :=
  let header := request.header
  Failure.isCrash (Object.decode header.kind request.payload) ||
    match takeFailure header.kind peer.failures with
    | some (errno, _) => errno == Int32.minValue
    | none =>
      asksForListing header && header.kind == MessageType.getFilter &&
        (Filter.ofPayload? request.payload).isNone &&
          Object.unread TrafficHead.size request.payload == .crash

/-- Takes a request. -/
def answer (peer : Peer) (request : Message) : Peer :=
  if peer.crashes request then { peer with crashed := true } else peer.respond request

/-- Takes a datagram with requests, up to where it cannot be read. -/
def take (peer : Peer) (datagram : Bytes) : Peer × Except Fault Unit :=
  (Message.scan datagram).foldl
    (fun (peer, result) message => match message with
      | .ok request => (peer.answer request, result)
      | .error fault => (peer, .error fault))
    (peer, .ok ())

end NetState.Peer
