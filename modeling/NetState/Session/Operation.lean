import NetState.Goal
import NetState.Object.Wire

namespace NetState

/-- What an operation came to. -/
inductive Outcome where
  /-- The kernel did it, and the inventory shows this snapshot. -/
  | confirmed (object : Object)
  /-- The inventory showed this already, and nothing was asked. -/
  | unchanged (object : Object)
  /-- The kernel did it, and the inventory shows the object no more. -/
  | deleted
  /-- There was no such object. -/
  | alreadyAbsent
  /-- The kernel says that it did it, but no news of it came in time. -/
  | unconfirmed
  /-- The link that the object belongs to went away. -/
  | abandoned
  deriving DecidableEq, Repr

namespace Outcome

def status : Outcome → Status
  | confirmed _ | unchanged _ | deleted | alreadyAbsent => .success
  | unconfirmed => .timeout
  | abandoned => .notFound

/-- The snapshot that an outcome comes with. -/
def object? : Outcome → Option Object
  | confirmed object | unchanged object => some object
  | _ => none

end Outcome

/-- A request of an operation. -/
structure Step where
  object : Object
  verb : Verb
  deriving DecidableEq, Repr

/-- Where an operation stands. -/
inductive Stage where
  /-- Its next request can be sent. -/
  | queued
  /-- Its request `seq` is sent, and an answer must come by the deadline. -/
  | submitted (seq : UInt32) (deadline : Nat)
  /-- Its request failed for the moment and is sent again when the time comes. -/
  | backoff (till : Nat)
  /-- All its requests were carried out; the inventory must show it by the deadline. -/
  | acked (deadline : Nat)
  deriving DecidableEq, Repr

/-- An operation under way. -/
structure Operation where
  id : Nat
  desired : Object
  goal : Goal
  /-- The requests that have not been carried out, in order. -/
  steps : List Step
  stage : Stage
  /-- How often the first of these has been repeated. -/
  attempt : UInt32

namespace Operation

/-- The request that is to be sent or waits for its answer. -/
def current? (operation : Operation) : Option Step :=
  operation.steps.head?

/-- The number of the request that waits for an answer. -/
def seq? (operation : Operation) : Option UInt32 :=
  match operation.stage with
  | .submitted seq _ => some seq
  | _ => none

/-- When something is to be done unless something comes in before. -/
def deadline? (operation : Operation) : Option Nat :=
  match operation.stage with
  | .queued => none
  | .submitted _ deadline | .acked deadline => some deadline
  | .backoff till => some till

/-- Whether its next request is to be sent now. -/
def isDue (operation : Operation) (now : Nat) : Bool :=
  match operation.stage with
  | .queued => true
  | .backoff till => till ≤ now
  | _ => false

def isAcked (operation : Operation) : Bool :=
  match operation.stage with
  | .acked _ => true
  | _ => false

/-- The link that it depends on, unless it is about a link itself. -/
def target? (operation : Operation) : Option UInt32 :=
  match operation.desired with
  | .link _ => none
  | object => object.owner?

def text (operation : Operation) : String :=
  (match operation.goal with
    | .present => "add "
    | .absent => "delete ") ++ operation.desired.text

/-- The operation past its first request: the next one can be sent, or else the news must come by
the deadline. -/
def advance (operation : Operation) (deadline : Nat) : Operation :=
  let left := operation.steps.tail
  { operation with
    steps := left
    attempt := 0
    stage := if left.isEmpty then .acked deadline else .queued }

/-- Whether a refusal means that the object to be deleted is gone already. A filter whose discipline
is gone is told so by an invalid argument. -/
def isMoot (operation : Operation) (fault : Fault) : Bool :=
  operation.current?.any fun step =>
    step.verb == .delete &&
      (fault.isNotFound || match step.object with
        | .filter _ => fault.errno? == some Errno.invalid
        | _ => false)

end Operation

end NetState
