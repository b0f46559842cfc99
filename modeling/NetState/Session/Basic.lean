import NetState.Config
import NetState.Exchange
import NetState.Inventory.Subscription
import NetState.Session.Plan
import NetState.Support.Probe

/-!
A session: what is known of the kernel's objects, the requests that wait for answers, and the
operations under way.

What comes in is the only thing that changes the inventory. An operation ends when all its requests
are carried out and the inventory shows the result, when the kernel refuses, when the time for an
answer or for the news is over, or when the link that it depends on goes away.
-/

namespace NetState

structure Session where
  config : Config
  exchange : Exchange
  watched : Watched
  probe : Probe
  /-- The operations under way, in the order in which they were submitted. -/
  operations : List Operation
  /-- The number of the next operation. -/
  nextId : Nat
  /-- What operations came to, as long as nobody has asked for it. -/
  results : List (Nat × Except Fault Outcome)
  /-- Whether messages were lost, so that the inventory cannot be trusted. -/
  stale : Bool

namespace Session

/-- A session in which nothing is known yet. -/
def new (config : Config) (files : Files) (pid : UInt32) : Session where
  config := config
  exchange := .new pid
  watched := .empty
  probe := match config.support with
    | some support => .fixed support
    | none => .new files
  operations := []
  nextId := 1
  results := []
  stale := false

def inventory (session : Session) : Inventory :=
  session.watched.inventory

/-- What an acknowledged operation came to, if the inventory shows it. -/
def shown? (inventory : Inventory) (operation : Operation) : Option Outcome :=
  let found := inventory.find? operation.desired
  match operation.goal with
  | .present => (found.filter (·.satisfies operation.desired)).map .confirmed
  | .absent => if found.all Plan.isDefaultDiscipline then some .deleted else none

/-- What an operation came to, if it waits for nothing but the news and that has come. -/
def confirmation? (session : Session) (operation : Operation) : Option Outcome :=
  if operation.isAcked then shown? session.inventory operation else none

/-- Ends every operation that `verdict` tells the result of. -/
def conclude (session : Session) (verdict : Operation → Option (Except Fault Outcome)) : Session :=
  { session with
    operations := session.operations.filter fun op => (verdict op).isNone
    results := session.results ++ session.operations.filterMap fun op =>
      (verdict op).map fun result => (op.id, result) }

/-- Ends the operations whose result the inventory shows. -/
def confirm (session : Session) : Session :=
  session.conclude fun op => (session.confirmation? op).map .ok

/-- Waits no longer for the answers to some operations. -/
def cancelAll (session : Session) (operations : List Operation) : Session :=
  { session with
    exchange := (operations.filterMap Operation.seq?).foldl Exchange.cancel session.exchange }

/-- What an operation came to whose time is over. -/
def expired? (session : Session) (now : Nat) (op : Operation) : Option (Except Fault Outcome) :=
  match op.stage with
  | .submitted _ deadline =>
    if deadline ≤ now then some (.error (.timeout op.text session.config.ackTimeout)) else none
  | .acked deadline => if deadline ≤ now then some (.ok .unconfirmed) else none
  | _ => none

/-- Ends the operations whose time is over. -/
def expire (session : Session) (now : Nat) : Session :=
  let ended := session.operations.filter fun op => (session.expired? now op).isSome
  (session.cancelAll ended).conclude (session.expired? now)

/-- Ends the operations that depend on a link that went away. -/
def abandon (session : Session) (interface : UInt32) : Session :=
  let dependent (op : Operation) : Bool := op.target? == some interface
  (session.cancelAll (session.operations.filter dependent)).conclude fun op =>
    if dependent op then some (.ok .abandoned) else none

/-- Puts an operation in the place of the one with its number. -/
def update (session : Session) (operation : Operation) : Session :=
  { session with
    operations := session.operations.map fun op =>
      if op.id = operation.id then operation else op }

/-- Ends one operation. -/
def finish (session : Session) (operation : Operation) (result : Except Fault Outcome) : Session :=
  { session with
    operations := session.operations.filter fun op => op.id != operation.id
    results := session.results ++ [(operation.id, result)] }

/-- Drops what the inventory shows of an object that the kernel does not have. -/
def forget (session : Session) (object : Object) : Session :=
  match session.inventory.find? object with
  | none => session
  | some known => { session with watched := (session.watched.remove known.slot).2 }

/-- Takes the refusal of an operation's request. -/
def takeRefusal (session : Session) (now : Nat) (op : Operation) (fault : Fault) : Session :=
  if op.isMoot fault then
    if op.steps.tail.isEmpty then (session.forget op.desired).finish op (.ok .alreadyAbsent)
    else session.update (op.advance now)
  else if fault.isTransient && op.attempt < session.config.maxRetries then
    let attempt := op.attempt + 1
    let till := now + (session.config.backoffFor attempt).nanos
    session.update { op with attempt, stage := .backoff till }
  else session.finish op (.error (fault.during op.text))

/-- Takes the answer to a request, if it belongs to an operation under way. -/
def takeReply (session : Session) (now : Nat) (seq : UInt32) (result : Except Fault Reply) :
    Session :=
  match session.operations.find? fun op => op.seq? == some seq with
  | none => session
  | some op =>
    match result with
    | .ok _ => session.update (op.advance (now + session.config.confirmTimeout.nanos))
    | .error fault => session.takeRefusal now op fault

/-- Takes the news that an object is gone. -/
def takeRemoval (session : Session) (slot : Slot) : Session :=
  let (removed, watched) := session.watched.remove slot
  let session := ({ session with watched } : Session).confirm
  match removed with
  | some (.link l) => session.abandon l.index
  | _ => session

/-- Takes what came in, and ends the operations that this decides. -/
def take (session : Session) (now : Nat) : Incoming → Session
  | .notice _ .new object =>
    ({ session with watched := (session.watched.upsert object).2 } : Session).confirm
  | .notice kind .del object => session.takeRemoval ⟨kind, object.key⟩
  | .reply seq result => (session.takeReply now seq result).confirm
  | .part _ _ => session.confirm
  | .overrun => ({ session with stale := true } : Session).confirm

/-- Makes what is known of a kind exactly a listing, and ends the operations that this decides. -/
def reconcile (session : Session) (kind : Kind) (objects : List Object) :
    Inventory.Tally × Session :=
  let before := if kind = .link then session.inventory.ofKind .link else []
  let (tally, watched) := session.watched.reconcile kind objects
  let session := ({ session with watched } : Session).confirm
  let lost := (before.filterMap Object.owner?).filter fun index =>
    (session.inventory.link? index).isNone
  (tally, lost.foldl abandon session)

/-- When something is to be done at the latest. -/
def deadline? (session : Session) : Option Nat :=
  (session.operations.filterMap Operation.deadline?).min?

/-- What an operation came to, if it has ended, handed out once; whoever asks again is told that it
was abandoned. -/
def collect (session : Session) (id : Nat) : Option (Except Fault Outcome) × Session :=
  match session.results.find? (·.1 == id) with
  | some (_, result) =>
    (some result, { session with results := session.results.filter (·.1 != id) })
  | none =>
    if session.operations.any (·.id == id) then (none, session)
    else (some (.ok .abandoned), session)

end Session

end NetState
