import NetState.Inventory.Update

namespace NetState

/-- Which events a subscriber gets. -/
inductive Scope where
  | all
  | ofKind (kind : Kind)
  /-- Those of objects that the link owns, the link itself among them. -/
  | interface (index : UInt32)
  /-- Those of the link alone. -/
  | link (index : UInt32)
  deriving DecidableEq, Repr

def Scope.covers (scope : Scope) (event : Event) : Bool :=
  match scope with
  | .all => true
  | .ofKind kind => event.kind == kind
  | .interface index => event.object.owner? == some index
  | .link index => event.kind == .link && event.object.owner? == some index

/-- A subscriber: its scope, and the events that it has not taken yet. -/
structure Subscriber where
  scope : Scope
  waiting : List Event

def Subscriber.receive (subscriber : Subscriber) (events : List Event) : Subscriber :=
  { subscriber with waiting := subscriber.waiting ++ events.filter subscriber.scope.covers }

/-- An inventory with its subscribers, in the order in which they came; one that left keeps its
place. -/
structure Watched where
  inventory : Inventory
  subscribers : List (Option Subscriber)

namespace Watched

def empty : Watched := ⟨.empty, []⟩

/-- The inventory that a revision leads to, with its events told to all subscribers. -/
def publish (watched : Watched) (revision : Revision) : Watched :=
  ⟨revision.inventory, watched.subscribers.map (·.map (·.receive revision.events))⟩

def upsert (watched : Watched) (object : Object) : Inventory.Placement × Watched :=
  let (placement, revision) := watched.inventory.upsert object
  (placement, watched.publish revision)

def remove (watched : Watched) (slot : Slot) : Option Object × Watched :=
  let (object, revision) := watched.inventory.remove slot
  (object, watched.publish revision)

def reconcile (watched : Watched) (kind : Kind) (objects : List Object) :
    Inventory.Tally × Watched :=
  let (tally, revision) := watched.inventory.reconcile kind objects
  (tally, watched.publish revision)

/-- A new subscriber, who gets the events from now on, and its number. -/
def subscribe (watched : Watched) (scope : Scope) : Nat × Watched :=
  (watched.subscribers.length,
    { watched with subscribers := watched.subscribers ++ [some ⟨scope, []⟩] })

def unsubscribe (watched : Watched) (number : Nat) : Watched :=
  { watched with subscribers := watched.subscribers.set number none }

/-- The subscriber with a number, unless there is none or it left. -/
def subscriber? (watched : Watched) (number : Nat) : Option Subscriber :=
  (watched.subscribers[number]?).join

/-- The first event that a subscriber has not taken, taken now. -/
def next (watched : Watched) (number : Nat) : Option Event × Watched :=
  match watched.subscriber? number with
  | none => (none, watched)
  | some subscriber =>
    (subscriber.waiting.head?,
      { watched with
        subscribers := watched.subscribers.set number
          (some { subscriber with waiting := subscriber.waiting.tail }) })

/-- All events that a subscriber has not taken, taken now; nothing if it left. -/
def drain (watched : Watched) (number : Nat) : Option (List Event) × Watched :=
  match watched.subscriber? number with
  | none => (none, watched)
  | some subscriber =>
    (some subscriber.waiting,
      { watched with
        subscribers := watched.subscribers.set number (some { subscriber with waiting := [] }) })

/-- All events that each subscriber has not taken, taken now. -/
def drainAll (watched : Watched) : List (Option (List Event)) × Watched :=
  (watched.subscribers.map (·.map (·.waiting)),
    { watched with
      subscribers := watched.subscribers.map (·.map fun subscriber =>
        { subscriber with waiting := [] }) })

end Watched

end NetState
