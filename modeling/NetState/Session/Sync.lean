import NetState.Session.World

/-!
Listings: how the inventory is made to show what the kernel has.

While the answer to a listing is awaited all else that comes in is taken as usual. A listing that a
change disturbed is asked for again, a limited number of times. Filters are listed for one attach
point after the other, as the inventory tells them; a kind that the kernel does not know counts as
empty.
-/

namespace NetState.Flow

/-- How listing a kind is called in faults. -/
def listingText (kind : Kind) : String :=
  "dump " ++ kind.name

/-- The result in the answer to a request, if what came in holds that. -/
def answerTo? (seq : UInt32) (incoming : List Incoming) : Option (Except Fault Reply) :=
  incoming.reverse.findSome? fun
    | .reply answered result => if answered = seq then some result else none
    | _ => none

/-- What came in apart from the answer to a request. -/
def besides (seq : UInt32) (incoming : List Incoming) : List Incoming :=
  incoming.filter fun
    | .reply answered _ => answered != seq
    | _ => true

/-- The objects in the answer to a listing, and whether it was disturbed. -/
def listedIn (kind : Kind) : Except Fault Reply → Flow (List Object × Bool)
  | .ok (.listing _ objects interrupted) => return (objects, interrupted)
  | .ok .ack => return ([], false)
  | .error fault => throw (.fault (fault.during (listingText kind)))

/-- Gives up waiting for a listing. -/
def giveUp {α : Type} (kind : Kind) (seq : UInt32) : Flow α := do
  session fun s => { s with exchange := s.exchange.cancel seq }
  throw (.fault (.timeout (listingText kind) (← get).session.config.ackTimeout))

/-- Waits for the next thing to come in, and gives the answer to a listing if that was it. -/
def awaitNext (kind : Kind) (seq : UInt32) (deadline : Nat) :
    Flow (Option (List Object × Bool)) := do
  match ← await (some deadline) with
  | .elapsed => giveUp kind seq
  | .received result =>
    let incoming ← absorb result
    change (·.takeAll (besides seq incoming))
    change World.expire
    match answerTo? seq incoming with
    | some result => return some (← listedIn kind result)
    | none => return none

/-- Waits for the answer to a listing; `count` is how many receptions there is something for after
the next one. -/
def awaitListing (kind : Kind) (seq : UInt32) (deadline : Nat) : Nat → Flow (List Object × Bool)
  | 0 => do
    match ← awaitNext kind seq deadline with
    | some listing => return listing
    | none => throw .stalled
  | count + 1 => do
    match ← awaitNext kind seq deadline with
    | some listing => return listing
    | none => awaitListing kind seq deadline count

/-- Asks for a listing once. -/
def listOnce (kind : Kind) (request : Draft) : Flow (List Object × Bool) := do
  let seq ← sending (·.transmit request (Exchange.fresh kind .whole))
  let world ← get
  awaitListing kind seq (world.now + world.session.config.ackTimeout.nanos) world.channel.waiting

/-- Asks for a listing, and again while it is disturbed, `retries` times at most. -/
def list (kind : Kind) (request : Draft) : (retries : Nat) → Flow (List Object)
  | 0 => return (← listOnce kind request).1
  | left + 1 => do
    let (objects, interrupted) ← listOnce kind request
    if interrupted then list kind request left else return objects

/-- Asks for a listing as often as configured. -/
def listed (kind : Kind) (request : Draft) : Flow (List Object) := do
  list kind request (← get).session.config.dumpRetries.toNat

/-- The attach points that filters are listed for: one at each discipline, but both hooks of one
that hooks both sides. -/
def filterPoints (inventory : Inventory) : List (UInt32 × Handle) :=
  (inventory.ofKind .discipline).flatMap fun
    | .discipline d =>
      if d.isDefault then []
      else if d.kind = Discipline.bothSidesKind then
        [(d.interface, Handle.ingressHook), (d.interface, Handle.egressHook)]
      else [(d.interface, d.handle)]
    | _ => []

/-- Whether a listing of filters failed because the discipline is gone. -/
def isPointGone (fault : Fault) : Bool :=
  fault.isNotFound || fault.status == .invalidArgument

/-- Whether a listing failed because the kernel does not know the kind. -/
def isKindUnknown (fault : Fault) : Bool :=
  fault.errno? == some Errno.familyNotSupported || fault.status == .notSupported

/-- A listing that is empty when it fails in a way that is to be expected. -/
def listedUnless (expected : Fault → Bool) (kind : Kind) (request : Draft) : Flow (List Object) :=
  recover (listed kind request) fun fault =>
    if expected fault then return [] else throw (.fault fault)

/-- The objects of a kind that the kernel has. -/
def listKind (kind : Kind) : Flow (List Object) := do
  if kind = .filter then
    let points := filterPoints (← get).session.inventory
    let found ← points.mapM fun (interface, parent) =>
      listedUnless isPointGone kind (Kind.filterListing interface parent)
    return found.flatten
  else listedUnless isKindUnknown kind kind.listing

/-- Makes the inventory show what the kernel has of a kind. Disciplines should be up to date before
filters are. -/
def syncKind (kind : Kind) : Flow Inventory.Tally := do
  let objects ← listKind kind
  let (tally, after) := (← get).session.reconcile kind objects
  session fun _ => after
  return tally

/-- Brings every kind up to date, one after the other. -/
def syncRound : Flow Unit := do
  session ({ · with stale := false })
  Kind.all.forM fun kind => discard (syncKind kind)

/-- Brings every kind up to date, and again while messages are lost meanwhile, `rounds` times more
at most. -/
def syncRounds : (rounds : Nat) → Flow Unit
  | 0 => syncRound
  | left + 1 => do
    syncRound
    if (← get).session.stale then syncRounds left

/-- Brings every kind up to date. -/
def syncAll : Flow Unit := do
  syncRounds (← get).session.config.dumpRetries.toNat

/-- Brings every kind up to date if messages were lost. -/
def resync : Flow Unit := do
  if (← get).session.stale then syncAll

end NetState.Flow
