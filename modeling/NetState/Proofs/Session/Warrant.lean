import NetState.Proofs.Session.Apply
import NetState.Proofs.Session.Moment

/-!
What warrants a result.

A result that an operation comes to is warranted by the history of the session: by what was planned,
asked, answered and seen until then. As long as an operation is under way, its history tells how far
it has come.
-/

namespace NetState

/-- Whether a plan is one that is made by what is known. -/
structure Planning.Sound (planning : Planning) (inventory : Inventory) : Prop where
  unchanged : planning.goal = .present → ∀ outcome, planning.plan = .done outcome →
    ∃ object, outcome = .unchanged object ∧ inventory.find? planning.desired = some object ∧
      object.satisfies planning.desired = true
  absent : planning.goal = .absent → ∀ outcome, planning.plan = .done outcome →
    outcome = .alreadyAbsent
  present : planning.goal = .present → ∀ step, planning.steps.getLast? = some step →
    step.verb ≠ .delete
  delete : planning.goal = .absent → ∀ steps, planning.plan = .steps steps →
    steps = [⟨planning.desired, .delete⟩]

theorem Session.Plans.sound {session : Session} {planning : Planning} {wanted : Object}
    (h : session.Plans planning.goal wanted planning.desired planning.plan) :
    planning.Sound session.inventory := by
  obtain ⟨id, goal, desired, plan⟩ := planning
  cases goal with
  | present =>
      obtain ⟨rfl, support, hadd⟩ := h
      refine ⟨fun _ outcome hdone => ?_, fun hgoal => absurd hgoal (by simp),
        fun _ step hlast => ?_, fun hgoal => absurd hgoal (by simp)⟩
      · obtain rfl : plan = .done outcome := hdone
        exact Plan.shown_of_toAdd hadd
      · cases plan with
        | done outcome => exact absurd hlast (by simp [Planning.steps])
        | steps steps => exact Plan.verb_getLast?_toAdd hadd hlast
  | absent =>
      refine ⟨fun hgoal => absurd hgoal (by simp), fun _ outcome hdone => ?_,
        fun hgoal => absurd hgoal (by simp), fun _ steps hsteps => ?_⟩
      · obtain rfl : plan = .done outcome := hdone
        exact Plan.done_of_toDelete h
      · obtain rfl : plan = .steps steps := hsteps
        exact Plan.eq_of_toDelete h

namespace Moment

variable {log : List Moment} {moment : Moment}

def plannings (log : List Moment) : List Planning :=
  log.filterMap planned

def answersTo (log : List Moment) (id : Nat) : List (Except Fault Reply) :=
  log.filterMap (·.answerTo? id)

def endings (log : List Moment) : List (Nat × Except Fault Outcome) :=
  log.flatMap ended

def handings (log : List Moment) : List (Nat × Except Fault Outcome) :=
  log.filterMap handed

/-- Whether something held in a moment of a history, and something else ever since. -/
def Since (log : List Moment) (once always : Moment → Prop) : Prop :=
  ∃ before moment since, log = before ++ moment :: since ∧ once moment ∧
    ∀ later ∈ since, always later

@[simp] theorem plannings_snoc (log : List Moment) (moment : Moment) :
    plannings (log ++ [moment]) = plannings log ++ moment.planned.toList := by
  rw [plannings, List.filterMap_append]
  cases hplanned : moment.planned <;> simp [plannings, hplanned]

@[simp] theorem answersTo_snoc (log : List Moment) (moment : Moment) (id : Nat) :
    answersTo (log ++ [moment]) id = answersTo log id ++ (moment.answerTo? id).toList := by
  rw [answersTo, List.filterMap_append]
  cases hanswer : moment.answerTo? id <;> simp [answersTo, hanswer]

@[simp] theorem endings_snoc (log : List Moment) (moment : Moment) :
    endings (log ++ [moment]) = endings log ++ moment.ended := by
  simp [endings]

@[simp] theorem handings_snoc (log : List Moment) (moment : Moment) :
    handings (log ++ [moment]) = handings log ++ moment.handed.toList := by
  rw [handings, List.filterMap_append]
  cases hhanded : moment.handed <;> simp [handings, hhanded]

namespace Since

variable {once always : Moment → Prop}

theorem last (h : once moment) : Since (log ++ [moment]) once always :=
  ⟨log, moment, [], rfl, h, fun _ hmem => absurd hmem List.not_mem_nil⟩

theorem snoc (h : Since log once always) (halways : always moment) :
    Since (log ++ [moment]) once always := by
  obtain ⟨before, first, since, rfl, hfirst, hsince⟩ := h
  refine ⟨before, first, since ++ [moment], by simp, hfirst, fun later hlater => ?_⟩
  rcases List.mem_append.mp hlater with hlater | hlater
  · exact hsince later hlater
  · exact List.mem_singleton.mp hlater ▸ halways

theorem mono (h : Since log once always) {other : Moment → Prop}
    (hother : ∀ moment, once moment → other moment) : Since log other always := by
  obtain ⟨before, first, since, hlog, hfirst, hsince⟩ := h
  exact ⟨before, first, since, hlog, hother first hfirst, hsince⟩

end Since

end Moment

namespace Planning

variable {planning : Planning} {config : Config} {log : List Moment} {moment : Moment}
  {op new : Operation}

/-- Whether every request that was planned is carried out: the kernel acknowledged it, or said of an
object to be deleted that it is gone already. -/
def IsCarriedOut (planning : Planning) (log : List Moment) : Prop :=
  (∃ steps, planning.plan = .steps steps) ∧
    (Moment.answersTo log planning.id).foldl Step.leave planning.steps = []

/-- Whether a moment does not show the result of an operation. -/
def IsUnseen (planning : Planning) (moment : Moment) : Prop :=
  Session.shown? moment.after planning.start = none

/-- Whether a moment brings the acknowledgement of a request. -/
def IsAcked (planning : Planning) (moment : Moment) : Prop :=
  ∃ reply, moment.answerTo? planning.id = some (.ok reply)

/-- Whether a moment brings no answer. -/
def IsUnanswered (planning : Planning) (moment : Moment) : Prop :=
  moment.answerTo? planning.id = none

/-- Whether what happened until a moment and in it warrants that an operation comes to a result. -/
def Warrants (planning : Planning) (config : Config) (past : List Moment) (moment : Moment) :
    Except Fault Outcome → Prop
  | .ok (.confirmed object) =>
    planning.goal = .present ∧ planning.IsCarriedOut (past ++ [moment]) ∧
      moment.after.find? planning.desired = some object ∧
      object.satisfies planning.desired = true
  | .ok (.unchanged object) =>
    planning.goal = .present ∧ moment.planned = some planning ∧
      planning.plan = .done (.unchanged object) ∧
      moment.before.find? planning.desired = some object ∧
      object.satisfies planning.desired = true
  | .ok .deleted =>
    planning.goal = .absent ∧ planning.plan = .steps [⟨planning.desired, .delete⟩] ∧
      (∃ reply, .ok reply ∈ Moment.answersTo (past ++ [moment]) planning.id) ∧
      (moment.after.find? planning.desired).all Plan.isDefaultDiscipline = true
  | .ok .alreadyAbsent =>
    planning.goal = .absent ∧
      (moment.planned = some planning ∧ planning.plan = .done .alreadyAbsent ∨
        planning.plan = .steps [⟨planning.desired, .delete⟩] ∧
          ∃ fault, moment.answerTo? planning.id = some (.error fault) ∧
            Step.isMoot ⟨planning.desired, .delete⟩ fault = true)
  | .ok .unconfirmed =>
    planning.IsCarriedOut (past ++ [moment]) ∧
      Moment.Since (past ++ [moment])
        (fun acked => planning.IsAcked acked ∧
          acked.now + config.confirmTimeout.nanos ≤ moment.now ∧ planning.IsUnseen acked)
        fun later => planning.IsUnanswered later ∧ planning.IsUnseen later
  | .ok .abandoned =>
    planning ∈ Moment.plannings past ∧
      ∃ index, planning.start.target? = some index ∧ moment.before.Loses index moment.after
  | .error fault =>
    fault.isTimeout = true →
      Moment.Since (past ++ [moment])
        (fun asked => planning.id ∈ asked.asked ∧
          asked.now + config.ackTimeout.nanos ≤ moment.now)
        planning.IsUnanswered

theorem Sound.warrants (h : planning.Sound moment.before)
    (hplanned : moment.planned = some planning) {outcome : Outcome}
    (hplan : planning.plan = .done outcome) :
    planning.Warrants config log moment (.ok outcome) := by
  cases hgoal : planning.goal with
  | present =>
      obtain ⟨object, rfl, hfind, hsatisfies⟩ := h.unchanged hgoal outcome hplan
      exact ⟨hgoal, hplanned, hplan, hfind, hsatisfies⟩
  | absent =>
      obtain rfl := h.absent hgoal outcome hplan
      exact ⟨hgoal, Or.inl ⟨hplanned, hplan⟩⟩

/-- Whether an operation under way is the one that was planned, as far as it has come. -/
structure Pursued (planning : Planning) (config : Config) (log : List Moment) (op : Operation) :
    Prop where
  plan : ∃ steps, planning.plan = .steps steps
  id : op.id = planning.id
  desired : op.desired = planning.desired
  goal : op.goal = planning.goal
  steps : op.steps = (Moment.answersTo log planning.id).foldl Step.leave planning.steps
  submitted : ∀ seq deadline, op.stage = .submitted seq deadline →
    Moment.Since log
      (fun asked => planning.id ∈ asked.asked ∧ asked.now + config.ackTimeout.nanos = deadline)
      planning.IsUnanswered
  acked : ∀ deadline, op.stage = .acked deadline → op.steps = [] ∧
    Moment.Since log
      (fun acked => planning.IsAcked acked ∧
        acked.now + config.confirmTimeout.nanos = deadline ∧ planning.IsUnseen acked)
      fun later => planning.IsUnanswered later ∧ planning.IsUnseen later

namespace Pursued

theorem shown?_eq (h : planning.Pursued config log op) (inventory : Inventory) :
    Session.shown? inventory op = Session.shown? inventory planning.start := by
  rw [Session.shown?, Session.shown?, h.desired, h.goal]
  rfl

theorem target?_eq (h : planning.Pursued config log op) : op.target? = planning.start.target? := by
  rw [Operation.target?, h.desired]
  rfl

theorem steps_goes (h : planning.Pursued config log op) (hgoes : op.Goes config moment new) :
    new.steps =
      (Moment.answersTo (log ++ [moment]) planning.id).foldl Step.leave planning.steps := by
  rw [hgoes.steps, h.steps, h.id, Moment.answersTo_snoc, List.foldl_append]

/-- An operation that goes on is pursued as before, as long as its result is not shown. -/
theorem goes (h : planning.Pursued config log op) (hgoes : op.Goes config moment new)
    (hunseen : new.isAcked = true → Session.shown? moment.after new = none) :
    planning.Pursued config (log ++ [moment]) new where
  plan := h.plan
  id := hgoes.id.trans h.id
  desired := hgoes.desired.trans h.desired
  goal := hgoes.goal.trans h.goal
  steps := h.steps_goes hgoes
  submitted seq deadline hstage := by
    rcases hgoes.submitted seq deadline hstage with ⟨hasked, hdeadline⟩ | ⟨hbefore, hanswer⟩
    · exact .last ⟨h.id ▸ hasked, hdeadline.symm⟩
    · rw [h.id] at hanswer
      exact (h.submitted seq deadline hbefore).snoc hanswer
  acked deadline hstage := by
    have hshown : planning.IsUnseen moment := by
      rw [IsUnseen, ← h.shown?_eq, Session.shown?, ← hgoes.desired, ← hgoes.goal]
      exact hunseen (by rw [Operation.isAcked, hstage])
    rcases hgoes.acked deadline hstage with ⟨hsteps, hacked, hdeadline⟩ | ⟨hbefore, hanswer⟩
    · rw [h.id] at hacked
      exact ⟨hsteps, .last ⟨hacked, hdeadline.symm, hshown⟩⟩
    · obtain ⟨hsteps, hsince⟩ := h.acked deadline hbefore
      refine ⟨?_, hsince.snoc ⟨?_, hshown⟩⟩
      · rw [hgoes.steps, hanswer, hsteps]
        rfl
      · rw [h.id] at hanswer
        exact hanswer

theorem start {steps : List Step} (hplan : planning.plan = .steps steps)
    (hanswers : Moment.answersTo log planning.id = []) :
    planning.Pursued config log planning.start where
  plan := ⟨steps, hplan⟩
  id := rfl
  desired := rfl
  goal := rfl
  steps := by
    rw [hanswers]
    rfl
  submitted _ _ hstage := absurd hstage (by simp [Planning.start])
  acked _ hstage := absurd hstage (by simp [Planning.start])

/-- What is acknowledged is carried out, and the kernel said so. -/
theorem carriedOut (h : planning.Pursued config log op) (hgoes : op.Goes config moment new)
    (hacked : new.isAcked = true) : planning.IsCarriedOut (log ++ [moment]) ∧
      ∃ reply, .ok reply ∈ Moment.answersTo (log ++ [moment]) planning.id := by
  obtain ⟨deadline, hstage⟩ : ∃ deadline, new.stage = .acked deadline := by
    rw [Operation.isAcked] at hacked
    split at hacked
    · exact ⟨_, ‹_›⟩
    · exact absurd hacked (by simp)
  have hnewSteps := h.steps_goes hgoes
  rcases hgoes.acked deadline hstage with ⟨hsteps, ⟨reply, hreply⟩, -⟩ | ⟨hbefore, hanswer⟩
  · refine ⟨⟨h.plan, hnewSteps ▸ hsteps⟩, reply, ?_⟩
    rw [h.id] at hreply
    simp [hreply]
  · obtain ⟨hsteps, before, acked, since, hlog, ⟨⟨reply, hreply⟩, -⟩, -⟩ :=
      h.acked deadline hbefore
    refine ⟨⟨h.plan, ?_⟩, reply, List.mem_filterMap.mpr ⟨acked, by simp [hlog], hreply⟩⟩
    rw [← hnewSteps, hgoes.steps, hanswer, hsteps]
    rfl

theorem warrants_shown (h : planning.Pursued config log op) {inventory : Inventory}
    (hsound : planning.Sound inventory) (hgoes : op.Goes config moment new)
    (hacked : new.isAcked = true) {outcome : Outcome}
    (hshown : Session.shown? moment.after new = some outcome) :
    planning.Warrants config log moment (.ok outcome) := by
  obtain ⟨hcarriedOut, hreply⟩ := h.carriedOut hgoes hacked
  rw [Session.shown?, hgoes.desired, hgoes.goal, h.desired, h.goal] at hshown
  split at hshown
  · rename_i hgoal
    obtain ⟨object, hobject, rfl⟩ := Option.map_eq_some_iff.mp hshown
    obtain ⟨hfind, hsatisfies⟩ := Option.filter_eq_some_iff.mp hobject
    exact ⟨hgoal, hcarriedOut, hfind, hsatisfies⟩
  · rename_i hgoal
    obtain ⟨hdefault, houtcome⟩ := Option.ite_none_right_eq_some.mp hshown
    obtain ⟨steps, hplan⟩ := h.plan
    obtain rfl := hsound.delete hgoal steps hplan
    rw [← Option.some.inj houtcome]
    exact ⟨hgoal, hplan, hreply, hdefault⟩

theorem eq_of_isMoot (h : planning.Pursued config log op) {inventory : Inventory}
    (hsound : planning.Sound inventory) {fault : Fault} (hmoot : op.isMoot fault = true)
    (hlast : op.steps.tail = []) : planning.goal = .absent ∧
      planning.plan = .steps [⟨planning.desired, .delete⟩] ∧
      Step.isMoot ⟨planning.desired, .delete⟩ fault = true := by
  obtain ⟨step, hsteps, hstep⟩ : ∃ step, op.steps = [step] ∧ step.isMoot fault = true := by
    rw [Operation.isMoot_eq] at hmoot
    cases hsteps : op.steps with
    | nil =>
        rw [hsteps] at hmoot
        exact absurd hmoot (by simp)
    | cons step rest =>
        rw [hsteps] at hmoot hlast
        obtain rfl : rest = [] := hlast
        exact ⟨step, rfl, hmoot⟩
  have hsuffix : [step] <:+ planning.steps := by
    rw [← hsteps, h.steps]
    exact Step.foldl_leave_suffix _ _
  obtain ⟨steps, hplan⟩ := h.plan
  have hall : planning.steps = steps := by rw [Planning.steps, hplan]
  cases hgoal : planning.goal with
  | present =>
      have hverb : step.verb ≠ .delete := by
        obtain ⟨before, hbefore⟩ := hsuffix
        exact hsound.present hgoal step (by rw [← hbefore, List.getLast?_concat])
      rw [Step.isMoot, Bool.and_eq_true, beq_iff_eq] at hstep
      exact absurd hstep.1 hverb
  | absent =>
      obtain rfl := hsound.delete hgoal steps hplan
      rw [hall] at hsuffix
      obtain rfl : step = ⟨planning.desired, .delete⟩ := by
        simpa using hsuffix.subset (List.mem_singleton_self step)
      exact ⟨rfl, hplan, hstep⟩

theorem warrants_gone (h : planning.Pursued config log op) {inventory : Inventory}
    (hsound : planning.Sound inventory) {fault : Fault}
    (hanswer : moment.answerTo? op.id = some (.error fault)) (hmoot : op.isMoot fault = true)
    (hlast : op.steps.tail = []) : planning.Warrants config log moment (.ok .alreadyAbsent) := by
  obtain ⟨hgoal, hplan, hstep⟩ := h.eq_of_isMoot hsound hmoot hlast
  rw [h.id] at hanswer
  exact ⟨hgoal, Or.inr ⟨hplan, fault, hanswer, hstep⟩⟩

theorem warrants_late (h : planning.Pursued config log op)
    (hanswer : moment.answerTo? op.id = none) {seq : UInt32} {deadline : Nat}
    (hstage : op.stage = .submitted seq deadline) (hnow : deadline ≤ moment.now) (fault : Fault) :
    planning.Warrants config log moment (.error fault) := by
  intro _
  rw [h.id] at hanswer
  refine ((h.submitted seq deadline hstage).snoc hanswer).mono fun asked hasked => ?_
  exact ⟨hasked.1, hasked.2 ▸ hnow⟩

theorem warrants_unseen (h : planning.Pursued config log op)
    (hanswer : moment.answerTo? op.id = none) {deadline : Nat}
    (hstage : op.stage = .acked deadline) (hnow : deadline ≤ moment.now)
    (hshown : Session.shown? moment.after op = none) :
    planning.Warrants config log moment (.ok .unconfirmed) := by
  have hacked : op.isAcked = true := by rw [Operation.isAcked, hstage]
  refine ⟨(h.carriedOut (.refl hanswer) hacked).1, ?_⟩
  rw [h.id] at hanswer
  rw [h.shown?_eq] at hshown
  refine ((h.acked deadline hstage).2.snoc ⟨hanswer, hshown⟩).mono fun acked hacked => ?_
  exact ⟨hacked.1, hacked.2.1 ▸ hnow, hacked.2.2⟩

end Pursued

end Planning

end NetState
