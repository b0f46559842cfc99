import NetState.Goal
import NetState.Peer.Basic

/-!
How the kernel's side carries out changes.

A change is refused with an error number or carried out, and listeners are told of what is new and
what is gone, but not of all of it: routes, disciplines and filters go with their link without a
word, and so do the filters below a discipline and the default discipline that another one takes the
place of. Links are found by number, or by name if they have none.
-/

namespace NetState.Peer

/-- What a change came to: the peer afterwards, and the error number if the change was refused. -/
structure Effect where
  peer : Peer
  refusal : Option Int

def refuse (peer : Peer) (errno : Int) : Effect := ⟨peer, some errno⟩

def accept (peer : Peer) : Effect := ⟨peer, none⟩

/-- A list with the first element that fits replaced. -/
def replaceFirst {α : Type} (fits : α → Bool) (value : α) : List α → List α
  | [] => []
  | first :: rest => if fits first then value :: rest else first :: replaceFirst fits value rest

/-- The state of a link that is up or down. -/
def stateOf (up : Bool) : LinkState :=
  if up then .unknown else .down

/-- The link that a wanted one names. -/
def resolveLink (peer : Peer) (wanted : Link) : Option Link :=
  if wanted.index = 0 then peer.linkNamed? wanted.name else peer.links.get? wanted.index

/-- Changes a link. A name that another link has is refused. -/
def changeLink (peer : Peer) (origin : Origin) (flags : UInt16) (link wanted : Link) : Effect :=
  let exclusive := Flag.create ||| Flag.exclusive
  let taken := wanted.name ≠ "" ∧
    (peer.linkNamed? wanted.name).any fun other => other.index != link.index
  if flags &&& exclusive = exclusive ∨ taken then refuse peer Errno.exist
  else
    let kept := link.flags &&& ~~~carrierFlags true
    let changed : Link :=
      { link with
        flags := kept ||| carrierFlags wanted.isUp
        state := stateOf wanted.isUp
        mtu := wanted.mtu.or link.mtu
        name := if wanted.name = "" then link.name else wanted.name }
    accept (({ peer with links := peer.links.insert link.index changed } : Peer).tellNew origin
      (.link changed))

/-- The link that is created for a wanted one. -/
def newLinkOf (peer : Peer) (wanted : Link) : Link where
  index := peer.nextIndex
  name := wanted.name
  kind := wanted.kind
  flags := Link.broadcastFlag ||| Link.noArpFlag ||| carrierFlags wanted.isUp
  mtu := wanted.mtu.or (some 1500)
  state := stateOf wanted.isUp
  lower := wanted.lower
  vlanId := wanted.vlanId
  peer := none

/-- Creates a link, and the default discipline at its root. -/
def createLink (peer : Peer) (origin : Origin) (flags : UInt16) (wanted : Link) : Effect :=
  if wanted.index ≠ 0 ∨ !hasFlag flags Flag.create then refuse peer Errno.noDevice
  else if wanted.name = "" then refuse peer Errno.invalid
  else if !wanted.kind.isCreatable then refuse peer Errno.notSupported
  else if wanted.lower.any fun lower => !peer.links.contains lower then
    refuse peer Errno.noDevice
  else
    let link := peer.newLinkOf wanted
    let discipline := defaultDiscipline link.index
    let stored : Peer :=
      { peer with
        nextIndex := peer.nextIndex + 1
        links := peer.links.insert link.index link }
    let told := stored.tellNew origin (.link link)
    let queued := { told with disciplines := told.disciplines ++ [discipline] }
    accept (queued.tellNew origin (.discipline discipline))

def addLink (peer : Peer) (origin : Origin) (flags : UInt16) (wanted : Link) : Effect :=
  match peer.resolveLink wanted with
  | some link => peer.changeLink origin flags link wanted
  | none => peer.createLink origin flags wanted

/-- Deletes a link and all that is on it; only its addresses and the link itself are told. -/
def deleteLink (peer : Peer) (origin : Origin) (wanted : Link) : Effect :=
  match peer.resolveLink wanted with
  | none => refuse peer Errno.noDevice
  | some link =>
    if link.kind = .loopback then refuse peer Errno.notSupported
    else
      let gone := peer.addresses.filter (·.interface == link.index)
      let bare : Peer :=
        { peer with
          addresses := peer.addresses.filter (·.interface != link.index)
          routes := peer.routes.filter (·.interface != link.index)
          disciplines := peer.disciplines.filter (·.interface != link.index)
          filters := peer.filters.filter (·.interface != link.index) }
      let told := gone.foldl (fun peer address => peer.tellGone origin (.address address)) bare
      accept (({ told with links := told.links.erase link.index } : Peer).tellGone origin
        (.link link))

/-- The address that is stored for a wanted one: in version 4 it is labelled with the name of its
link unless it has a label, and one that lasts for ever is marked so. -/
def storedAddress (wanted : Address) (link : Link) : Address :=
  { wanted with
    label := if wanted.ip.isV6 then wanted.label else wanted.label.or (some link.name)
    flags :=
      if wanted.validFor = Address.forever then wanted.flags ||| Address.permanentFlag
      else wanted.flags
    scope := some (wanted.scope.getD 0) }

def sameAddress (a b : Address) : Bool :=
  a.interface == b.interface && a.ip == b.ip && a.length == b.length

def addAddress (peer : Peer) (origin : Origin) (flags : UInt16) (wanted : Address) : Effect :=
  match peer.links.get? wanted.interface with
  | none => refuse peer Errno.noDevice
  | some link =>
    if wanted.ip.isV6 && !peer.ipv6 then refuse peer Errno.familyNotSupported
    else
      let address := storedAddress wanted link
      let store (addresses : List Address) : Effect :=
        accept (({ peer with addresses } : Peer).tellNew origin (.address address))
      if peer.addresses.any (sameAddress · address) then
        if hasFlag flags Flag.exclusive || !hasFlag flags Flag.replace then
          refuse peer Errno.exist
        else store (replaceFirst (sameAddress · address) address peer.addresses)
      else if hasFlag flags Flag.create then store (peer.addresses ++ [address])
      else refuse peer Errno.addressNotAvailable

def deleteAddress (peer : Peer) (origin : Origin) (wanted : Address) : Effect :=
  match peer.addresses.find? (sameAddress · wanted) with
  | none => refuse peer Errno.addressNotAvailable
  | some address =>
    let left := peer.addresses.eraseP (sameAddress · wanted)
    accept (({ peer with addresses := left } : Peer).tellGone origin (.address address))

def sameRoute (a b : Route) : Bool :=
  (Object.route a).key == (Object.route b).key

/-- Whether an address is on a link that reaches another one directly. -/
def reaches (address : Address) (ip : Ip) : Bool :=
  address.ip.mask address.length == ip.mask address.length && address.ip.isV6 == ip.isV6

/-- The link that a wanted route leaves by: the one it tells, or the one that its gateway is on. -/
def routeInterface (peer : Peer) (wanted : Route) : Except Int UInt32 :=
  if wanted.interface = 0 then
    match wanted.gateway with
    | none => .error Errno.invalid
    | some gateway =>
      match peer.addresses.find? (reaches · gateway) with
      | some address => .ok address.interface
      | none => .error Errno.networkUnreachable
  else if peer.links.contains wanted.interface then .ok wanted.interface
  else .error Errno.noDevice

def addRoute (peer : Peer) (origin : Origin) (flags : UInt16) (wanted : Route) : Effect :=
  if wanted.isV6 && !peer.ipv6 then refuse peer Errno.familyNotSupported
  else match peer.routeInterface wanted with
    | .error errno => refuse peer errno
    | .ok interface =>
      let route := { wanted with interface, metric := wanted.effectiveMetric }
      let store (routes : List Route) : Effect :=
        accept (({ peer with routes } : Peer).tellNew origin (.route route))
      if peer.routes.any (sameRoute · route) then
        if hasFlag flags Flag.exclusive then refuse peer Errno.exist
        else store (replaceFirst (sameRoute · route) route peer.routes)
      else if hasFlag flags Flag.create then store (peer.routes ++ [route])
      else refuse peer Errno.noProcess

def deleteRoute (peer : Peer) (origin : Origin) (wanted : Route) : Effect :=
  match peer.routes.find? (sameRoute · wanted) with
  | none => refuse peer Errno.noProcess
  | some route =>
    let left := peer.routes.eraseP (sameRoute · wanted)
    accept (({ peer with routes := left } : Peer).tellGone origin (.route route))

/-- The kinds of disciplines that there are. -/
def disciplineKinds : List String :=
  ["fq_codel", "ingress", "clsact", "noqueue", "pfifo_fast", "pfifo", "mq", "htb", "prio", "sfq",
    "tbf"]

/-- Whether a kind goes to the ingress attach point rather than to the root. -/
def isIngressKind (kind : String) : Bool :=
  kind == Discipline.ingressKind || kind == Discipline.bothSidesKind

/-- The major number after another one, within those that are chosen. -/
def majorAfter (major : UInt16) : UInt16 :=
  max (major + 1) firstMajor

/-- The first major number from `major` on that no discipline of a link has, trying one more number
than `tries`, and the number that is tried next. -/
def freeMajor (disciplines : List Discipline) (interface : UInt32) (major : UInt16) :
    Nat → UInt16 × UInt16
  | 0 => (major, majorAfter major)
  | tries + 1 =>
    if disciplines.any fun d => d.interface == interface && d.handle.major == major then
      freeMajor disciplines interface (majorAfter major) tries
    else (major, majorAfter major)

/-- A handle for a discipline on a link: there are fewer disciplines than numbers tried. -/
def allocateHandle (peer : Peer) (interface : UInt32) : Handle × Peer :=
  let (major, next) :=
    freeMajor peer.disciplines interface peer.nextMajor peer.disciplines.length
  (.ofParts major 0, { peer with nextMajor := next })

def sameDisciplinePlace (a b : Discipline) : Bool :=
  a.interface == b.interface && a.parent == b.parent

/-- The peer without the filters below a discipline. -/
def dropFiltersBelow (peer : Peer) (discipline : Discipline) : Peer :=
  { peer with
    filters := peer.filters.filter fun f =>
      !(f.interface == discipline.interface && f.parent.major == discipline.handle.major) }

/-- Puts a discipline at a place that is free, with a handle of the kernel's choice if it has
none. -/
def placeDiscipline (peer : Peer) (origin : Origin) (wanted : Discipline) : Effect :=
  let put (peer : Peer) (handle : Handle) : Effect :=
    let discipline := { wanted with handle }
    accept (({ peer with disciplines := peer.disciplines ++ [discipline] } : Peer).tellNew origin
      (.discipline discipline))
  if isIngressKind wanted.kind then put peer Handle.ingressDiscipline
  else if wanted.handle.isUnspecified then
    let (handle, peer) := peer.allocateHandle wanted.interface
    put peer handle
  else if peer.disciplines.any fun d =>
      d.interface == wanted.interface && d.handle == wanted.handle then
    refuse peer Errno.exist
  else put peer wanted.handle

/-- Puts a discipline in the place of one that is not the kernel's choice: one of the same kind is
changed and keeps its handle, any other is deleted first, and with it the filters below it. -/
def regraftDiscipline (peer : Peer) (origin : Origin) (flags : UInt16) (old wanted : Discipline) :
    Effect :=
  let without : List Discipline := peer.disciplines.eraseP (sameDisciplinePlace · wanted)
  if hasFlag flags Flag.exclusive then refuse peer Errno.exist
  else if old.kind = wanted.kind ∧ (wanted.handle.isUnspecified ∨ wanted.handle = old.handle) then
    let changed := { wanted with handle := old.handle }
    let disciplines := replaceFirst (sameDisciplinePlace · wanted) changed peer.disciplines
    accept (({ peer with disciplines } : Peer).tellNew origin (.discipline changed))
  else if !hasFlag flags Flag.replace then refuse peer Errno.invalid
  else
    let cleared := ({ peer with disciplines := without } : Peer).dropFiltersBelow old
    (cleared.tellGone origin (.discipline old)).placeDiscipline origin wanted

def addDiscipline (peer : Peer) (origin : Origin) (flags : UInt16) (wanted : Discipline) : Effect :=
  let ingress := isIngressKind wanted.kind
  if !peer.links.contains wanted.interface then refuse peer Errno.noDevice
  else if !disciplineKinds.contains wanted.kind then refuse peer Errno.noEntry
  else if ingress != (wanted.parent == Handle.ingress) then refuse peer Errno.invalid
  else if !ingress && !wanted.parent.isRoot then refuse peer Errno.noEntry
  else match peer.disciplines.find? (sameDisciplinePlace · wanted) with
    | some old =>
      if old.isDefault then
        let without := peer.disciplines.eraseP (sameDisciplinePlace · wanted)
        ({ peer with disciplines := without } : Peer).placeDiscipline origin wanted
      else peer.regraftDiscipline origin flags old wanted
    | none =>
      if hasFlag flags Flag.create then peer.placeDiscipline origin wanted
      else refuse peer Errno.noEntry

/-- Whether a request to delete names a discipline, by its place or by its handle. -/
def isNamedBy (discipline wanted : Discipline) : Bool :=
  discipline.interface == wanted.interface &&
    (discipline.parent == wanted.parent ||
      !wanted.handle.isUnspecified && discipline.handle == wanted.handle)

/-- Deletes a discipline and the filters below it; at the root the default one comes back. -/
def deleteDiscipline (peer : Peer) (origin : Origin) (wanted : Discipline) : Effect :=
  match peer.disciplines.find? (isNamedBy · wanted) with
  | none => refuse peer Errno.noEntry
  | some old =>
    if old.isDefault then refuse peer Errno.noEntry
    else
      let without := peer.disciplines.eraseP (isNamedBy · wanted)
      let cleared := ({ peer with disciplines := without } : Peer).dropFiltersBelow old
      let told := cleared.tellGone origin (.discipline old)
      if old.parent.isRoot then
        let discipline := defaultDiscipline old.interface
        let restored := { told with disciplines := told.disciplines ++ [discipline] }
        accept (restored.tellNew origin (.discipline discipline))
      else accept told

/-- The kinds of filters that there are. -/
def filterKinds : List String :=
  ["matchall", "basic"]

/-- The priority of the first filter at an attach point. -/
def firstPriority : UInt16 := 0xC000

/-- The filters at the attach point of a wanted one. -/
def filtersBeside (peer : Peer) (wanted : Filter) : List Filter :=
  peer.filters.filter fun f => f.interface == wanted.interface && f.parent == wanted.parent

/-- The priority of a wanted filter, or else one before all others at its attach point. -/
def choosePriority (peer : Peer) (wanted : Filter) : UInt16 :=
  if wanted.priority ≠ 0 then wanted.priority
  else match ((peer.filtersBeside wanted).map (·.priority)).min? with
    | none => firstPriority
    | some least => if least = 0 then 0 else least - 1

/-- The handle of a wanted filter, or else one above all others at its attach point. -/
def chooseHandle (peer : Peer) (wanted : Filter) : Handle :=
  if !wanted.handle.isUnspecified then wanted.handle
  else ⟨(((peer.filtersBeside wanted).map (·.handle.raw)).max?).getD 0 + 1⟩

def addFilter (peer : Peer) (origin : Origin) (flags : UInt16) (wanted : Filter) : Effect :=
  if !peer.links.contains wanted.interface then refuse peer Errno.noDevice
  else if !peer.hasFilterParent wanted.interface wanted.parent then refuse peer Errno.invalid
  else if !filterKinds.contains wanted.kind then refuse peer Errno.noEntry
  else
    let priority := peer.choosePriority wanted
    let same (f : Filter) : Bool :=
      f.interface == wanted.interface && f.parent == wanted.parent && f.priority == priority &&
        (wanted.handle.isUnspecified || f.handle == wanted.handle)
    let store (filter : Filter) (filters : List Filter) : Effect :=
      accept (({ peer with filters } : Peer).tellNew origin (.filter filter))
    match peer.filters.find? same with
    | some old =>
      if hasFlag flags Flag.exclusive || !hasFlag flags Flag.replace then refuse peer Errno.exist
      else
        let filter := { wanted with priority, handle := old.handle }
        store filter (replaceFirst same filter peer.filters)
    | none =>
      if hasFlag flags Flag.create then
        let filter := { wanted with priority, handle := peer.chooseHandle wanted }
        store filter (peer.filters ++ [filter])
      else refuse peer Errno.noEntry

/-- Whether a request to delete means a filter; one without a priority means all at its place. -/
def isMeantBy (filter wanted : Filter) : Bool :=
  filter.interface == wanted.interface && filter.parent == wanted.parent &&
    (wanted.priority == 0 ||
      filter.priority == wanted.priority &&
        (wanted.handle.isUnspecified || filter.handle == wanted.handle))

def deleteFilter (peer : Peer) (origin : Origin) (wanted : Filter) : Effect :=
  if !peer.hasFilterParent wanted.interface wanted.parent then refuse peer Errno.invalid
  else
    let gone := peer.filters.filter (isMeantBy · wanted)
    let left := peer.filters.filter fun f => !isMeantBy f wanted
    if gone.isEmpty then refuse peer Errno.noEntry
    else accept (gone.foldl (fun peer f => peer.tellGone origin (.filter f))
      { peer with filters := left })

/-- Carries out a change of any kind. -/
def apply (peer : Peer) (origin : Origin) (flags : UInt16) (goal : Goal) (object : Object) :
    Effect :=
  match goal, object with
  | .present, .link l => peer.addLink origin flags l
  | .absent, .link l => peer.deleteLink origin l
  | .present, .address a => peer.addAddress origin flags a
  | .absent, .address a => peer.deleteAddress origin a
  | .present, .route r => peer.addRoute origin flags r
  | .absent, .route r => peer.deleteRoute origin r
  | .present, .discipline d => peer.addDiscipline origin flags d
  | .absent, .discipline d => peer.deleteDiscipline origin d
  | .present, .filter f => peer.addFilter origin flags f
  | .absent, .filter f => peer.deleteFilter origin f

/-- A change by somebody outside, who creates or replaces, and is told only whether it was
refused. -/
def intervene (peer : Peer) (object : Object) (goal : Goal) (silent : Bool) :
    Peer × Except Fault Unit :=
  let flags := match goal with
    | .present => Flag.create ||| Flag.replace
    | .absent => 0
  let effect := peer.apply (.outside silent) flags goal object
  match effect.refusal with
  | none => (effect.peer, .ok ())
  | some errno => (effect.peer, .error (.kernel errno none))

end NetState.Peer
