import Mathlib.Algebra.GroupWithZero.Nat
import NetState.Proofs.Flow
import NetState.Proofs.Session.Deliver

/-!
Calls as sequences of moves.

Whatever a caller asks of a session comes about by a few kinds of moves, each of which changes the
world in one way only. What holds of a session after every call is what every move keeps, so it is
proved of the moves alone; and a history of calls is told by the marks that their moves leave.
-/

namespace NetState

/-- What is told of a move. -/
inductive Mark where
  /-- So many numbers of requests were used up. -/
  | requested (count : Nat)
  /-- The loss of messages was taken note of. -/
  | overrun
  /-- The socket delivered this while a listing was awaited. -/
  | delivered (received : Except Fault Bytes)
  /-- A round over all kinds began. -/
  | began
  /-- A kind was brought up to date. -/
  | synced (kind : Kind)
  /-- A call ended with a fault. -/
  | failed

def Mark.losses (incoming : List Incoming) : List Mark :=
  incoming.filterMap fun
    | .overrun => some .overrun
    | _ => none

/-- How many numbers of requests a mark tells of. -/
def Mark.count : Mark → Nat
  | requested count => count
  | _ => 0

/-- How many numbers of requests were used up in all. -/
def Mark.total (trace : List Mark) : Nat :=
  (trace.map Mark.count).sum

theorem Mark.total_append (trace more : List Mark) :
    total (trace ++ more) = total trace + total more := by
  rw [total, List.map_append, List.sum_append]
  rfl

/-- What a call is about to do. -/
structure Control where
  /-- The listing that it waits for, with its kind. -/
  listing : Option (UInt32 × Kind)
  /-- What the listings held that were answered since a kind was last brought up to date. -/
  answers : List (Kind × List Object)
  /-- The kinds that the round under way is still to bring up to date. -/
  round : Option (List Kind)
  /-- The number of the operation that it is about to start. -/
  reserved : Option Nat

namespace Control

/-- Between two calls nothing is under way. -/
def idle : Control := ⟨none, [], none, none⟩

/-- A round goes on with the next kind, and ends after the last one. -/
def advance (control : Control) : Control :=
  { control with answers := [], round := (control.round.map List.tail).filter (· ≠ []) }

def heard (control : Control) (answers : List (Kind × List Object)) : Control :=
  { control with answers := control.answers ++ answers }

/-- The listing of a kind that is awaited is answered, or not yet. -/
def answered (control : Control) (kind : Kind) : Option (Except Fault Reply) → Control
  | none => control
  | some (.ok (.listing _ objects _)) => { control.heard [(kind, objects)] with listing := none }
  | some _ => { control with listing := none }

end Control

/-- Whether objects are what some of the answers to listings of a kind hold, one after the other. -/
def Kind.Gathers (kind : Kind) (answers : List (Kind × List Object)) (objects : List Object) :
    Prop :=
  ∃ parts : List (List Object), (parts.map (kind, ·)).Sublist answers ∧ objects = parts.flatten

/-- Whether pumping uses up a number for the request of an operation. -/
def Operation.takesNumber (now : Nat) (op : Operation) : Bool :=
  op.isDue now && op.current?.any fun step => (step.object.request step.verb).toBool

/-- The moves of calls, with their marks. -/
inductive Move : Control → World → List Mark → Control → World → Prop where
  /-- A listing is asked for. -/
  | ask {control : Control} {world after : World} {draft : Draft} {kind : Kind} {seq : UInt32}
      (hlisting : control.listing = none)
      (htransmit : world.transmit draft (Exchange.fresh kind .whole) = (after, .ok seq)) :
      Move control world [.requested 1] { control with listing := some (seq, kind) } after
  /-- A listing cannot be asked for. -/
  | askInVain {control : Control} {world after : World} {draft : Draft} {kind : Kind}
      {fault : Fault}
      (hlisting : control.listing = none)
      (htransmit : world.transmit draft (Exchange.fresh kind .whole) = (after, .error fault)) :
      Move control world [.requested 1] control after
  /-- Something comes in while a listing is awaited, perhaps the answer. -/
  | hear {control : Control} {world : World} {seq : UInt32} {kind : Kind}
      {received : Except Fault Bytes} {channel : Channel} {exchange : Exchange}
      {incoming : List Incoming}
      (hlisting : control.listing = some (seq, kind))
      (hreceived : world.channel.receive? = some (received, channel))
      (hexchange : world.session.exchange.receive received = .ok (exchange, incoming)) :
      Move control world (.delivered received :: Mark.losses incoming)
        (control.answered kind (Flow.answerTo? seq incoming))
        (world.absorbed channel exchange (Flow.besides seq incoming)).expire
  /-- Receiving fails while a listing is awaited, which breaks it off. -/
  | cutOff {control : Control} {world : World} {seq : UInt32} {kind : Kind}
      {received : Except Fault Bytes} {channel : Channel} {fault : Fault}
      (hlisting : control.listing = some (seq, kind))
      (hreceived : world.channel.receive? = some (received, channel))
      (hfailed : world.session.exchange.receive received = .error (.fault fault)) :
      Move control world [.delivered received] { control with listing := none }
        { world with channel }
  /-- A listing is given up. -/
  | giveUp {control : Control} {world : World} {seq : UInt32} {kind : Kind}
      (hlisting : control.listing = some (seq, kind)) :
      Move control world [] { control with listing := none }
        (world.mapSession fun s => { s with exchange := s.exchange.cancel seq })
  /-- A kind is brought up to date with what the answers to listings hold. -/
  | sync {control : Control} {world : World} {kind : Kind} {objects : List Object}
      (hlisting : control.listing = none)
      (hgathers : kind.Gathers control.answers objects)
      (hround : ∀ left, control.round = some left → left.head? = some kind) :
      Move control world [.synced kind] control.advance
        (world.mapSession fun s => (s.reconcile kind objects).2)
  /-- A round over all kinds begins. -/
  | begin {control : Control} {world : World} (hlisting : control.listing = none) :
      Move control world [.began] { control with answers := [], round := some Kind.all }
        (world.mapSession ({ · with stale := false }))
  /-- Something comes in while nothing else is awaited. -/
  | take {control : Control} {world : World} {received : Except Fault Bytes}
      {channel : Channel} {exchange : Exchange} {incoming : List Incoming}
      (hlisting : control.listing = none)
      (hreceived : world.channel.receive? = some (received, channel))
      (hexchange : world.session.exchange.receive received = .ok (exchange, incoming)) :
      Move control world (Mark.losses incoming) control (world.absorbed channel exchange incoming)
  /-- Nothing can be received while nothing else is awaited. -/
  | miss {control : Control} {world : World} {received : Except Fault Bytes} {channel : Channel}
      {fault : Fault} (hlisting : control.listing = none)
      (hreceived : world.channel.receive? = some (received, channel))
      (hfailed : world.session.exchange.receive received = .error (.fault fault)) :
      Move control world [] control { world with channel }
  /-- Time passes. -/
  | pass {control : Control} {world : World} {now : Nat} (hnow : world.now ≤ now) :
      Move control world [] control { world with now }
  /-- The operations whose time is over end. -/
  | expire {control : Control} {world : World} : Move control world [] control world.expire
  /-- The requests that are due are sent. -/
  | pump {control : Control} {world : World} (hlisting : control.listing = none) :
      Move control world
        [.requested (world.session.operations.countP (·.takesNumber world.now))] control world.pump
  /-- The number of the next operation is taken. -/
  | reserve {control : Control} {world : World} (hlisting : control.listing = none) :
      Move control world [] { control with reserved := some world.session.nextId }
        (world.mapSession fun s => { s with nextId := s.nextId + 1 })
  /-- An operation starts. -/
  | start {control : Control} {world : World} {id : Nat} (target : Object) (goal : Goal)
      {steps : List Step} (hlisting : control.listing = none)
      (hreserved : control.reserved = some id)
      (hsteps : steps ≠ []) :
      Move control world [] { control with reserved := none }
        (world.mapSession fun s =>
          { s with operations := s.operations ++ [⟨id, target, goal, steps, .queued, 0⟩] })
  /-- Results are put down or handed out. -/
  | note {control : Control} {world : World} (results : List (Nat × Except Fault Outcome)) :
      Move control world [] { control with reserved := none }
        (world.mapSession ({ · with results }))
  /-- The features of the kernel become known or are forgotten. -/
  | probe {control : Control} {world : World} (probe : Probe) :
      Move control world [] { control with answers := [] } (world.mapSession ({ · with probe }))

/-- Moves one after the other, with their marks. -/
inductive Moves (control : Control) (world : World) : List Mark → Control → World → Prop where
  | nil : Moves control world [] control world
  | snoc {trace marks : List Mark} {middle next : Control} {place after : World}
      (hpath : Moves control world trace middle place)
      (hmove : Move middle place marks next after) :
      Moves control world (trace ++ marks) next after

namespace Moves

variable {control middle next : Control} {world place after : World} {trace more : List Mark}

theorem single (hmove : Move control world trace next after) :
    Moves control world trace next after :=
  Moves.snoc Moves.nil hmove

theorem append (hpath : Moves control world trace middle place)
    (hmore : Moves middle place more next after) :
    Moves control world (trace ++ more) next after := by
  induction hmore with
  | nil =>
      rw [List.append_nil]
      exact hpath
  | snoc _ hmove ih =>
      rw [← List.append_assoc]
      exact ih.snoc hmove

/-- What every move keeps, whatever was told before, holds at the end of all. -/
theorem keeps {holds : List Mark → Control → World → Prop} {earlier : List Mark}
    (hpath : Moves control world trace next after)
    (hmoves : ∀ {earlier marks : List Mark} {control next : Control} {world after : World},
      Move control world marks next after → holds earlier control world →
        holds (earlier ++ marks) next after)
    (hstart : holds earlier control world) : holds (earlier ++ trace) next after := by
  induction hpath with
  | nil =>
      rw [List.append_nil]
      exact hstart
  | snoc _ hmove ih =>
      rw [← List.append_assoc]
      exact hmoves hmove ih

end Moves

namespace Flow

variable {α β : Type}

/-- Whether a call goes by moves, and comes to a value, a control and a world as told if it ends
with a result, and to a control as told if it ends with a fault. -/
def Goes (flow : Flow α) (control : Control) (world : World)
    (done : α → Control → World → Prop) (failed : Control → Prop) : Prop :=
  Ends flow world
    (fun value after => ∃ trace next, Moves control world trace next after ∧ done value next after)
    (fun _ after => ∃ trace next, Moves control world trace next after ∧ failed next)

namespace Goes

variable {flow : Flow α} {control : Control} {world : World} {done : α → Control → World → Prop}
  {failed : Control → Prop}

theorem mono (h : Goes flow control world done failed) {other : α → Control → World → Prop}
    {otherFailed : Control → Prop}
    (hdone : ∀ value next after, done value next after → other value next after)
    (hfailed : ∀ next, failed next → otherFailed next) :
    Goes flow control world other otherFailed := by
  refine Ends.mono h ?_ ?_
  · rintro value after ⟨trace, next, hpath, hnext⟩
    exact ⟨trace, next, hpath, hdone value next after hnext⟩
  · rintro fault after ⟨trace, next, hpath, hnext⟩
    exact ⟨trace, next, hpath, hfailed next hnext⟩

theorem after {trace : List Mark} {middle : Control} {place : World}
    (hpath : Moves control world trace middle place) (h : Goes flow middle place done failed) :
    Ends flow place
      (fun value after =>
        ∃ trace next, Moves control world trace next after ∧ done value next after)
      (fun _ after => ∃ trace next, Moves control world trace next after ∧ failed next) := by
  refine Ends.mono h ?_ ?_
  · rintro value after ⟨more, next, hmore, hnext⟩
    exact ⟨trace ++ more, next, hpath.append hmore, hnext⟩
  · rintro fault after ⟨more, next, hmore, hnext⟩
    exact ⟨trace ++ more, next, hpath.append hmore, hnext⟩

theorem bind {next : α → Flow β} {done : β → Control → World → Prop}
    (h : Goes flow control world
      (fun value middle place => Goes (next value) middle place done failed) failed) :
    Goes (flow >>= next) control world done failed := by
  refine Ends.bind (Ends.mono h ?_ fun _ _ => id)
  rintro value place ⟨trace, middle, hpath, hnext⟩
  exact hnext.after hpath

theorem pure {value : α} (h : done value control world) :
    Goes (Pure.pure value) control world done failed :=
  ⟨[], control, Moves.nil, h⟩

theorem get {done : World → Control → World → Prop} (h : done world control world) :
    Goes MonadState.get control world done failed :=
  ⟨[], control, Moves.nil, h⟩

theorem change {update : World → World} {done : Unit → Control → World → Prop} {marks : List Mark}
    {next : Control} (hmove : Move control world marks next (update world))
    (h : done () next (update world)) : Goes (Flow.change update) control world done failed :=
  ⟨marks, next, Moves.single hmove, h⟩

theorem session {update : Session → Session} {done : Unit → Control → World → Prop}
    {marks : List Mark} {next : Control}
    (hmove : Move control world marks next (world.mapSession update))
    (h : done () next (world.mapSession update)) :
    Goes (Flow.session update) control world done failed :=
  ⟨marks, next, Moves.single hmove, h⟩

theorem pump {done : Unit → Control → World → Prop} (hlisting : control.listing = none)
    (h : done () control world.pump) : Goes Flow.pump control world done failed :=
  Ends.pump fun _ => ⟨_, control, Moves.single (Move.pump hlisting), h⟩

theorem throw_stalled : Goes (throw .stalled : Flow α) control world done failed :=
  trivial

theorem throw_fault (fault : Fault) (h : failed control) :
    Goes (throw (.fault fault) : Flow α) control world done failed :=
  ⟨[], control, Moves.nil, h⟩

theorem ofExcept {ended : Except Fault α}
    (hok : ∀ value, ended = .ok value → done value control world)
    (herror : failed control) : Goes (Flow.ofExcept ended) control world done failed :=
  Ends.ofExcept (fun value h => ⟨[], control, Moves.nil, hok value h⟩)
    fun _ _ => ⟨[], control, Moves.nil, herror⟩

theorem discard {done : Unit → Control → World → Prop}
    (h : Goes flow control world (fun _ => done ()) failed) :
    Goes (Functor.discard flow) control world done failed :=
  Ends.discard h

theorem recover {handle : Fault → Flow α} {caught : Control → Prop}
    (h : Goes flow control world done caught)
    (hhandle : ∀ fault middle place, caught middle →
      Goes (handle fault) middle place done failed) :
    Goes (Flow.recover flow handle) control world done failed := by
  refine Ends.recover (Ends.mono h (fun _ _ => id) ?_)
  rintro fault place ⟨trace, middle, hpath, hmiddle⟩
  exact (hhandle fault middle place hmiddle).after hpath

end Goes

theorem ends_await (world : World) (deadline : Option Nat) :
    Ends (await deadline) world
      (fun arrival after =>
        (∃ due, deadline = some due ∧ world.channel.receive? = none ∧ arrival = .elapsed ∧
          after = { world with now := max world.now due }) ∨
        ∃ received channel, world.channel.receive? = some (received, channel) ∧
          arrival = .received received ∧ after = { world with channel })
      (fun _ _ => False) := by
  rw [await]
  refine Ends.bind (Ends.get ?_)
  cases hreceived : world.channel.receive? with
  | some received => exact Or.inr ⟨received.1, received.2, rfl, rfl, rfl⟩
  | none =>
      simp only
      split
      · rename_i due hdue
        exact Or.inl ⟨due, (Option.filter_eq_some_iff.mp hdue).1, trivial, rfl, rfl⟩
      · trivial

theorem ends_absorb (world : World) (received : Except Fault Bytes) :
    Ends (absorb received) world
      (fun incoming after => ∃ exchange,
        world.session.exchange.receive received = .ok (exchange, incoming) ∧
          after = world.mapSession ({ · with exchange }))
      (fun fault after =>
        world.session.exchange.receive received = .error (.fault fault) ∧ after = world) := by
  rw [absorb]
  refine Ends.bind (Ends.get (Ends.bind (Ends.ofFailing ?_ fun fault hfailed => ⟨hfailed, rfl⟩)))
  rintro ⟨exchange, incoming⟩ hexchange
  exact Ends.bind (Ends.session (Ends.pure ⟨exchange, hexchange, rfl⟩))

end Flow

end NetState
