import NetState.Session.Basic
import NetState.Session.Channel

/-!
A session at its socket, under a clock.

The clock stands still while there is something to do, and goes on to the next deadline when
everything waits. Waiting past the horizon ends the call that waits, as if its caller had lost
patience; so does waiting for nothing in particular when nothing will come.
-/

namespace NetState

structure World where
  /-- The time in nanoseconds. -/
  now : Nat
  /-- When the caller of what is going on loses patience. -/
  horizon : Nat
  channel : Channel
  session : Session

/-- Why a call ends without a result. -/
inductive Halt where
  | fault (fault : Fault)
  /-- It would still be waiting at the horizon. -/
  | stalled
  /-- The program has ended. -/
  | crash
  deriving DecidableEq, Repr

/-- A call: it ends with a result or without one, and leaves behind what it did in either case. -/
abbrev Flow := ExceptT Halt (StateM World)

/-- What ended a time of waiting. -/
inductive Arrival where
  | received (result : Except Fault Bytes)
  /-- The deadline came first. -/
  | elapsed

namespace World

/-- A world with a session that knows nothing yet. -/
def new (config : Config) (files : Files) (channel : Channel) : World where
  now := 0
  horizon := 0
  channel := channel
  session := .new config files Peer.listener

/-- The world with its session changed. -/
def mapSession (world : World) (change : Session → Session) : World :=
  { world with session := change world.session }

/-- Sends a request and waits for its answer from then on; gives the number of the request. -/
def transmit (world : World) (draft : Draft) (awaited : Awaited) : World × Except Fault UInt32 :=
  let exchange := world.session.exchange.advance
  let (channel, result) := world.channel.send (exchange.stamp draft)
  let after (exchange : Exchange) : World :=
    { world with channel, session := { world.session with exchange } }
  match result with
  | .ok () => (after (exchange.expect awaited), .ok exchange.seq)
  | .error fault => (after exchange, .error fault)

/-- Sends the request of a step, marked so that the kernel tells the requester of its own changes if
that is configured. -/
def transmitStep (world : World) (step : Step) : World × Except Fault UInt32 :=
  match step.object.request step.verb with
  | .error fault => (world, .error fault)
  | .ok draft =>
    let draft := if world.session.config.echo then draft.addFlags Flag.echo else draft
    world.transmit draft .ack

/-- An operation whose request is sent if that is due, or the fault of sending it. -/
def pumpOne (world : World) (op : Operation) : World × Except Fault Operation :=
  match op.current? with
  | none => (world, .ok op)
  | some step =>
    if !op.isDue world.now then (world, .ok op)
    else
      let (after, sent) := world.transmitStep step
      let deadline := world.now + world.session.config.ackTimeout.nanos
      (after, sent.map fun seq => { op with stage := .submitted seq deadline })

/-- Operations whose requests are sent as far as they are due, those that could not be sent
apart. -/
def pumpEach (world : World) :
    List Operation → World × List Operation × List (Nat × Except Fault Outcome)
  | [] => (world, [], [])
  | op :: rest =>
    let (world, pumped) := world.pumpOne op
    let (world, kept, failed) := world.pumpEach rest
    match pumped with
    | .ok op => (world, op :: kept, failed)
    | .error fault => (world, kept, (op.id, .error fault) :: failed)

/-- Sends the request of every operation that is ready for it; an operation whose request cannot be
sent ends. -/
def pump (world : World) : World :=
  let (world, kept, failed) := world.pumpEach world.session.operations
  world.mapSession fun session =>
    { session with operations := kept, results := session.results ++ failed }

/-- Takes what came in, one after the other. -/
def takeAll (world : World) (incoming : List Incoming) : World :=
  world.mapSession fun session => incoming.foldl (Session.take · world.now) session

def expire (world : World) : World :=
  world.mapSession (·.expire world.now)

end World

namespace Flow

/-- A change of the world that cannot fail. -/
def change (update : World → World) : Flow Unit :=
  modify update

/-- A change of the session that cannot fail. -/
def session (update : Session → Session) : Flow Unit :=
  modify (World.mapSession · update)

/-- A result, or the end of the call with a fault. -/
def ofExcept {α : Type} (result : Except Fault α) : Flow α :=
  match result with
  | .ok value => pure value
  | .error fault => throw (.fault fault)

/-- A result, or the end of the call with a fault or with the program. -/
def ofFailing {α : Type} (result : Except Failure α) : Flow α :=
  match result with
  | .ok value => pure value
  | .error (.fault fault) => throw (.fault fault)
  | .error .crash => throw .crash

/-- A change of the world that sends something, with a result or a fault. The kernel's side answers
at once, and may end the program. -/
def sending {α : Type} (update : World → World × Except Fault α) : Flow α := do
  let (world, result) := update (← get)
  set world
  if world.channel.peer.crashed then throw .crash
  ofExcept result

/-- Sends the request of every operation that is ready for it. -/
def pump : Flow Unit :=
  sending fun world => (world.pump, .ok ())

/-- A call with a fault turned into something else; losing patience is not a fault. -/
def recover {α : Type} (flow : Flow α) (handle : Fault → Flow α) : Flow α :=
  tryCatch flow fun
    | .fault fault => handle fault
    | .stalled => throw .stalled
    | .crash => throw .crash

/-- Waits for something to receive, at most until the deadline if there is one. -/
def await (deadline : Option Nat) : Flow Arrival := do
  let world ← get
  match world.channel.receive? with
  | some (result, channel) =>
    set { world with channel }
    return .received result
  | none =>
    match deadline.filter (· ≤ world.horizon) with
    | some deadline =>
      set { world with now := max world.now deadline }
      return .elapsed
    | none =>
      set { world with now := max world.now world.horizon }
      throw .stalled

/-- What a received datagram brought in. -/
def absorb (received : Except Fault Bytes) : Flow (List Incoming) := do
  let (exchange, incoming) ← ofFailing ((← get).session.exchange.receive received)
  session ({ · with exchange })
  return incoming

/-- Runs a call for so long at most. -/
def runFor {α : Type} (patience : Span) (flow : Flow α) (world : World) : Except Halt α × World :=
  flow.run { world with horizon := world.now + patience.nanos }

end Flow

end NetState
