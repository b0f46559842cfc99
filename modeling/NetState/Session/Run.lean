import NetState.Session.Sync

namespace NetState.Flow

/-- Whether a call ends without a fault. -/
def succeeds {α : Type} (flow : Flow α) : Flow Bool :=
  recover (do discard flow; return true) fun _ => return false

/-- The features of the kernel, found out by trial when they are first asked for. -/
def support : Flow Support := do
  match (← get).session.probe.answer with
  | some support => return support
  | none =>
    let traffic ← succeeds (listed .discipline Kind.discipline.listing)
    let ipv6 ← succeeds (listed .address6 Kind.address6.listing)
    let world ← get
    let facts : Facts := ⟨world.channel.extendedAck, world.channel.strictCheck, traffic, ipv6⟩
    let probe := world.session.probe.finish facts
    session ({ · with probe })
    return Support.evaluate facts (Modules.ofFiles probe.files)

/-- Forgets the features of the kernel, unless they are configured. -/
def invalidateSupport : Flow Unit :=
  session fun s =>
    if s.config.support.isNone then { s with probe := s.probe.invalidate } else s

/-- What is to be done for a wanted object, and the object that this is about. -/
def plan (desired : Object) (goal : Goal) : Flow (Object × Plan) := do
  match goal with
  | .present =>
    let support ← support
    ofExcept (support.permit desired)
    let plan ← ofExcept (Plan.toAdd (← get).session.inventory support desired)
    return (desired, plan)
  | .absent => return Plan.toDelete (← get).session.inventory desired

/-- Starts an operation and gives its number. -/
def submit (desired : Object) (goal : Goal) : Flow Nat := do
  ofExcept desired.validate
  let id := (← get).session.nextId
  session ({ · with nextId := id + 1 })
  let (target, plan) ← plan desired goal
  match plan with
  | .done outcome =>
    session fun s => { s with results := s.results ++ [(id, .ok outcome)] }
  | .steps steps =>
    session fun s =>
      { s with operations := s.operations ++ [⟨id, target, goal, steps, .queued, 0⟩] }
    pump
  return id

/-- One turn: waits for the next thing to receive or the next deadline, and acts on it. -/
def drive : Flow Unit := do
  resync
  pump
  match ← await (← get).session.deadline? with
  | .received result =>
    let incoming ← absorb result
    change (·.takeAll incoming)
  | .elapsed => pure ()
  change World.expire
  pump

/-- What an operation came to, if it has ended. -/
def poll (id : Nat) : Flow (Option (Except Fault Outcome)) := do
  let (result, after) := (← get).session.collect id
  session fun _ => after
  return result

/-- The number of turns after which a call is given up. -/
def turnLimit : Nat := 1000000000

/-- Drives the session until an operation has ended, for so many turns at most. -/
def waitWithin (id : Nat) : (turns : Nat) → Flow Outcome
  | 0 => do
    match ← poll id with
    | some result => ofExcept result
    | none => throw .stalled
  | left + 1 => do
    match ← poll id with
    | some result => ofExcept result
    | none =>
      drive
      waitWithin id left

/-- Drives the session until an operation has ended. -/
def wait (id : Nat) : Flow Outcome :=
  waitWithin id turnLimit

/-- Submits an operation and waits for its end. -/
def apply (desired : Object) (goal : Goal) : Flow Outcome := do
  wait (← submit desired goal)

/-- Takes what can be received now; `count` is how many receptions there is something for. Gives the
number of events. -/
def takeWaiting : (count : Nat) → Flow Nat
  | 0 => return 0
  | count + 1 => do
    let world ← get
    match world.channel.receive? with
    | none => return 0
    | some (result, channel) =>
      set { world with channel }
      let incoming ← absorb result
      change (·.takeAll incoming)
      return incoming.length + (← takeWaiting count)

/-- Takes all that can be received now, and brings every kind up to date if messages were lost.
Gives the number of events. -/
def drain : Flow Nat := do
  let handled ← takeWaiting (← get).channel.waiting
  resync
  return handled

/-- Drives the session until every operation has ended, for so many turns at most. -/
def settleWithin : (turns : Nat) → Flow Unit
  | 0 => do
    resync
    if !(← get).session.operations.isEmpty then throw .stalled
  | left + 1 => do
    resync
    if !(← get).session.operations.isEmpty then
      drive
      settleWithin left

/-- Drives the session until every operation has ended, and takes what has come in since. -/
def settle : Flow Unit := do
  settleWithin turnLimit
  discard drain

end NetState.Flow
