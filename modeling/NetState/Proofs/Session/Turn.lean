import NetState.Proofs.Session.Stage

/-!
Turns: what a call that drives a session waits for.

A turn waits until something comes in, or until the first time at which something is done about an
operation. It has such a time as long as an operation is under way. But bringing the inventory up to
date and sending what is due come before that and can end the last one; the turn then waits for
something to come in, though nothing need be coming.
-/

namespace NetState

/-- The worlds in which a call starts a turn. -/
inductive Turns : Call → World → World → Prop where
  | drive (world : World) : Turns .drive world world
  | wait {world start : World} {number : Nat}
      (hpoll : Flow.result (Flow.poll number) world = (.ok none, start)) :
      Turns (.wait number) world start
  | waitOn {world start middle next : World} {number : Nat} (h : Turns (.wait number) world start)
      (hdrive : Flow.result Flow.drive start = (.ok (), middle))
      (hpoll : Flow.result (Flow.poll number) middle = (.ok none, next)) :
      Turns (.wait number) world next
  | settle {world start : World} (hresync : Flow.result Flow.resync world = (.ok (), start)) :
      Turns .settle world start
  | settleOn {world start middle next : World} (h : Turns .settle world start)
      (hdrive : Flow.result Flow.drive start = (.ok (), middle))
      (hresync : Flow.result Flow.resync middle = (.ok (), next)) : Turns .settle world next
  | apply {world middle start : World} {desired : Object} {goal : Goal} {number : Nat}
      (hsubmit : Flow.result (Flow.submit desired goal) world = (.ok number, middle))
      (h : Turns (.wait number) middle start) : Turns (.apply desired goal) world start

namespace Operated

variable {trace : List Mark} {world after : World}

theorem exists_discard {α : Type} {flow : Flow α} {value : α} {call : Call}
    (h : Operated trace world) (hcall : call.flow = discard flow)
    (hresult : Flow.result flow world = (.ok value, after)) : ∃ more, Operated more after := by
  have hdiscard : Flow.result call.flow world = (.ok (), after) := by
    rw [hcall]
    show Flow.result (flow >>= fun _ => pure ()) world = _
    rw [Flow.result_bind, hresult]
    rfl
  obtain ⟨more, hmore⟩ := h.exists_called hdiscard rfl
  exact ⟨_, hmore⟩

theorem exists_resync (h : Operated trace world)
    (hresync : Flow.result Flow.resync world = (.ok (), after)) :
    ∃ more, Operated more after := by
  rw [Flow.resync, Flow.result_bind, Flow.result_get] at hresync
  simp only at hresync
  split at hresync
  · obtain ⟨more, hmore⟩ := @exists_called _ _ _ h .syncAll _ hresync rfl
    exact ⟨_, hmore⟩
  · cases hresync
    exact ⟨trace, h⟩

/-- A turn starts in a world that other calls lead to as well. -/
theorem exists_turns {call : Call} {start : World} (h : Operated trace world)
    (hturns : Turns call world start) : ∃ more, Operated more start := by
  induction hturns generalizing trace with
  | drive => exact ⟨trace, h⟩
  | @wait _ _ number hpoll => exact @exists_discard _ _ _ _ _ _ (.poll number) h rfl hpoll
  | @waitOn _ _ _ _ number _ hdrive hpoll ih =>
      obtain ⟨_, hstart⟩ := ih h
      obtain ⟨_, hmiddle⟩ := @exists_called _ _ _ hstart .drive _ hdrive rfl
      exact @exists_discard _ _ _ _ _ _ (.poll number) hmiddle rfl hpoll
  | settle hresync => exact h.exists_resync hresync
  | settleOn _ hdrive hresync ih =>
      obtain ⟨_, hstart⟩ := ih h
      obtain ⟨_, hmiddle⟩ := @exists_called _ _ _ hstart .drive _ hdrive rfl
      exact hmiddle.exists_resync hresync
  | @apply _ _ _ desired goal _ hsubmit _ ih =>
      obtain ⟨_, hmiddle⟩ := @exists_discard _ _ _ _ _ _ (.submit desired goal) h rfl hsubmit
      exact ih hmiddle

end Operated

/-- What a turn does before it waits. -/
def Flow.prepare : Flow Unit := do
  resync
  pump

theorem Flow.drive_eq :
    drive = (do
      prepare
      match ← await (← get).session.deadline? with
      | .received result =>
        let incoming ← absorb result
        change (·.takeAll incoming)
      | .elapsed => pure ()
      change World.expire
      pump) :=
  (bind_assoc resync (fun _ => pump) _).symm

theorem Session.deadline?_eq_none_iff {session : Session}
    (h : ∀ op ∈ session.operations, ∃ deadline, op.deadline? = some deadline) :
    session.deadline? = none ↔ session.operations = [] := by
  rw [Session.deadline?, List.min?_eq_none_iff, List.filterMap_eq_nil_iff]
  constructor
  · intro hnone
    rw [List.eq_nil_iff_forall_not_mem]
    intro op hop
    obtain ⟨deadline, hdeadline⟩ := h op hop
    rw [hnone op hop] at hdeadline
    exact absurd hdeadline (by simp)
  · intro hnil op hop
    rw [hnil] at hop
    exact absurd hop List.not_mem_nil

theorem Session.collect_eq_none {session : Session} {number : Nat}
    (h : (session.collect number).1 = none) :
    (session.collect number).2 = session ∧ ∃ op ∈ session.operations, op.id = number := by
  rw [collect] at h ⊢
  split at h
  · exact absurd h (by simp)
  · split at h
    · rename_i hany
      rw [if_pos hany]
      obtain ⟨op, hop, hid⟩ := List.any_eq_true.mp hany
      exact ⟨rfl, op, hop, by simpa using hid⟩
    · exact absurd h (by simp)

theorem Turns.collect_eq_none {world start : World} {number : Nat}
    (h : Turns (.wait number) world start) : (start.session.collect number).1 = none := by
  have hpoll {before after : World}
      (hpoll : Flow.result (Flow.poll number) before = (.ok none, after)) :
      (after.session.collect number).1 = none := by
    rw [Flow.poll, Flow.result_bind, Flow.result_get] at hpoll
    rcases hcollect : before.session.collect number with ⟨result, session⟩
    simp only [hcollect, Flow.result_bind, Flow.result_session, Flow.result_pure] at hpoll
    obtain ⟨hnone, rfl⟩ := Prod.mk.inj hpoll
    have hbefore : (before.session.collect number).1 = none := by
      rw [hcollect]
      exact Except.ok.inj hnone
    have hsame := (Session.collect_eq_none hbefore).1
    rw [hcollect] at hsame
    rw [show session = before.session from hsame] at hcollect ⊢
    exact hbefore
  cases h with
  | wait hfirst => exact hpoll hfirst
  | waitOn _ _ hagain => exact hpoll hagain

namespace Operated

variable {trace : List Mark} {world start waiting : World}

/-- Whenever a turn waits, there is a time for every operation under way at which something is done
about it. -/
theorem exists_deadline? {call : Call} (h : Operated trace world) (hturns : Turns call world start)
    (hprepare : Flow.result Flow.prepare start = (.ok (), waiting)) {op : Operation}
    (hop : op ∈ waiting.session.operations) : ∃ deadline, op.deadline? = some deadline := by
  obtain ⟨_, hstart⟩ := h.exists_turns hturns
  obtain ⟨_, middle, hresync, hpump⟩ := Flow.result_bind_ok_iff.mp hprepare
  obtain ⟨_, hmiddle⟩ := hstart.exists_resync hresync
  obtain ⟨-, rfl⟩ := Flow.of_result_pump hpump
  exact World.exists_deadline?_pump hmiddle.inOrder.staged hop

/-- A wait has no time to wait for just when its turn has ended every operation, its own among them,
before it waits. Where neither messages were lost nor anything is due when a turn starts, the
operation is still under way when it waits, and there is such a time. -/
theorem deadline?_of_wait {number : Nat} (h : Operated trace world)
    (hturns : Turns (.wait number) world start)
    (hprepare : Flow.result Flow.prepare start = (.ok (), waiting)) :
    (waiting.session.deadline? = none ↔ waiting.session.operations = []) ∧
      (waiting.session.deadline? = none → (waiting.session.collect number).1 ≠ none) ∧
      (start.session.stale = false → (∀ op ∈ start.session.operations, op.isDue start.now = false) →
        (waiting.session.collect number).1 = none ∧
          ∃ deadline, waiting.session.deadline? = some deadline) := by
  have hiff : waiting.session.deadline? = none ↔ waiting.session.operations = [] :=
    Session.deadline?_eq_none_iff fun op hop => h.exists_deadline? hturns hprepare hop
  have hended : waiting.session.deadline? = none → (waiting.session.collect number).1 ≠ none := by
    intro hnone hcollect
    obtain ⟨-, op, hop, -⟩ := Session.collect_eq_none hcollect
    rw [hiff.mp hnone] at hop
    exact absurd hop List.not_mem_nil
  refine ⟨hiff, hended, fun hstale hdue => ?_⟩
  have hsame : waiting = start := by
    rw [Flow.prepare, Flow.resync] at hprepare
    simp only [Flow.result_bind, Flow.result_get, hstale, Bool.false_eq_true, if_false,
      Flow.result_pure] at hprepare
    obtain ⟨-, rfl⟩ := Flow.of_result_pump hprepare
    exact World.pump_of_not_due hdue
  have hcollect := hturns.collect_eq_none
  rw [← hsame] at hcollect
  exact ⟨hcollect, Option.ne_none_iff_exists'.mp fun hnone => hended hnone hcollect⟩

end Operated

/-- A world in which a link was asked for, and messages are lost next. -/
def World.interrupted : World :=
  let world := (Call.submit (.link (.new "a" .dummy)) .present).after World.equipped
  { world with channel := { world.channel with peer := { world.channel.peer with overruns := 1 } } }

theorem Operated.exists_interrupted : ∃ trace, Operated trace World.interrupted := by
  obtain ⟨trace, h⟩ := Operated.equipped.exists_after (.submit (.link (.new "a" .dummy)) .present)
    (by decide +kernel)
  exact ⟨trace, h.disturbed _ _ _⟩

/-- The worlds in which waiting for the link starts its first two turns. -/
def World.firstTurn : World := (Flow.result (Flow.poll 1) interrupted).2

def World.secondTurn : World :=
  (Flow.result (Flow.poll 1) (Flow.result Flow.drive firstTurn).2).2

theorem Turns.firstTurn : Turns (.wait 1) World.interrupted World.firstTurn :=
  .wait (Prod.ext (by decide +kernel) rfl)

theorem Turns.secondTurn : Turns (.wait 1) World.interrupted World.secondTurn :=
  @Turns.waitOn _ _ (Flow.result Flow.drive World.firstTurn).2 _ _ .firstTurn
    (Prod.ext (by decide +kernel) rfl) (Prod.ext (by decide +kernel) rfl)

theorem Operated.deadline?_of_wait_firstTurn :
    ∃ waiting, Flow.result Flow.prepare World.firstTurn = (.ok (), waiting) ∧
      (waiting.session.collect 1).1 = none ∧
      ∃ deadline, waiting.session.deadline? = some deadline := by
  obtain ⟨trace, h⟩ := Operated.exists_interrupted
  have hprepare : Flow.result Flow.prepare World.firstTurn =
      (.ok (), (Flow.result Flow.prepare World.firstTurn).2) := Prod.ext (by decide +kernel) rfl
  exact ⟨_, hprepare, (h.deadline?_of_wait .firstTurn hprepare).2.2 (by decide +kernel)
    (by decide +kernel)⟩

/-- The second turn waits though the operation has ended: bringing the inventory up to date has
shown the link, so nothing is under way, and nothing will come in. -/
theorem Operated.exists_wait_without_deadline :
    ∃ trace world start waiting, Operated trace world ∧ Turns (.wait 1) world start ∧
      Flow.result Flow.prepare start = (.ok (), waiting) ∧
      waiting.session.deadline? = none ∧ (waiting.session.collect 1).1 ≠ none ∧
      waiting.channel.waiting = 0 := by
  obtain ⟨trace, h⟩ := Operated.exists_interrupted
  exact ⟨trace, _, _, (Flow.result Flow.prepare World.secondTurn).2, h, .secondTurn,
    Prod.ext (by decide +kernel) rfl, by decide +kernel, by decide +kernel, by decide +kernel⟩

end NetState
