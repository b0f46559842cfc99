import NetState.Proofs.Session.Chronicle

namespace NetState

namespace Step

/-- Whether a refusal means that the object which a step is to delete is gone already. -/
def isMoot (step : Step) (fault : Fault) : Bool :=
  step.verb == .delete &&
    (fault.isNotFound || match step.object with
      | .filter _ => fault.errno? == some Errno.invalid
      | _ => false)

/-- Whether a step is done with by an answer to its request. -/
def isDoneBy (step : Step) : Except Fault Reply → Bool
  | .ok _ => true
  | .error fault => step.isMoot fault

/-- What is left of some steps by an answer to the request of the first one. -/
def leave : List Step → Except Fault Reply → List Step
  | [], _ => []
  | step :: rest, answer => if step.isDoneBy answer then rest else step :: rest

theorem leave_ok (steps : List Step) (reply : Reply) : leave steps (.ok reply) = steps.tail := by
  cases steps <;> rfl

theorem leave_suffix (steps : List Step) (answer : Except Fault Reply) :
    leave steps answer <:+ steps := by
  cases steps with
  | nil => exact List.suffix_refl _
  | cons step rest =>
      rw [leave]
      split
      · exact List.suffix_cons step rest
      · exact List.suffix_refl _

theorem foldl_leave_suffix (answers : List (Except Fault Reply)) (steps : List Step) :
    answers.foldl leave steps <:+ steps := by
  induction answers generalizing steps with
  | nil => exact List.suffix_refl _
  | cons answer rest ih => exact (ih _).trans (leave_suffix steps answer)

end Step

namespace Operation

variable {op : Operation} {fault : Fault}

theorem isMoot_eq (op : Operation) (fault : Fault) :
    op.isMoot fault = op.steps.head?.any (·.isMoot fault) :=
  rfl

theorem leave_of_isMoot (h : op.isMoot fault = true) :
    Step.leave op.steps (.error fault) = op.steps.tail := by
  rw [isMoot_eq] at h
  cases hsteps : op.steps with
  | nil => rfl
  | cons step rest =>
      rw [hsteps] at h
      exact if_pos h

theorem leave_of_not_isMoot (h : op.isMoot fault = false) :
    Step.leave op.steps (.error fault) = op.steps := by
  rw [isMoot_eq] at h
  cases hsteps : op.steps with
  | nil => rfl
  | cons step rest =>
      rw [hsteps] at h
      exact if_neg (Bool.not_eq_true _ ▸ h)

end Operation

/-- The answer to the request of an operation in a moment, if one came. -/
def Moment.answerTo? (moment : Moment) (id : Nat) : Option (Except Fault Reply) :=
  (moment.answered.filter (·.1 == id)).map (·.2)

/-- Whether an operation is another one after a moment. -/
structure Operation.Goes (config : Config) (moment : Moment) (op after : Operation) : Prop where
  id : after.id = op.id
  desired : after.desired = op.desired
  goal : after.goal = op.goal
  steps : after.steps = (moment.answerTo? op.id).toList.foldl Step.leave op.steps
  submitted : ∀ seq deadline, after.stage = .submitted seq deadline →
    op.id ∈ moment.asked ∧ deadline = moment.now + config.ackTimeout.nanos ∨
      op.stage = .submitted seq deadline ∧ moment.answerTo? op.id = none
  acked : ∀ deadline, after.stage = .acked deadline →
    after.steps = [] ∧ (∃ reply, moment.answerTo? op.id = some (.ok reply)) ∧
        deadline = moment.now + config.confirmTimeout.nanos ∨
      op.stage = .acked deadline ∧ moment.answerTo? op.id = none

namespace Operation.Goes

variable {config : Config} {moment : Moment} {op : Operation} {fault : Fault}

theorem refl (h : moment.answerTo? op.id = none) : op.Goes config moment op where
  id := rfl
  desired := rfl
  goal := rfl
  steps := by rw [h]; rfl
  submitted _ _ hstage := Or.inr ⟨hstage, h⟩
  acked _ hstage := Or.inr ⟨hstage, h⟩

theorem submit (h : moment.answerTo? op.id = none) (hasked : op.id ∈ moment.asked) (seq : UInt32) :
    op.Goes config moment
      { op with stage := .submitted seq (moment.now + config.ackTimeout.nanos) } where
  id := rfl
  desired := rfl
  goal := rfl
  steps := by rw [h]; rfl
  submitted _ _ hstage := Or.inl ⟨hasked, (Stage.submitted.inj hstage).2.symm⟩
  acked _ hstage := absurd hstage (by simp)

theorem advance {reply : Reply} (h : moment.answerTo? op.id = some (.ok reply)) :
    op.Goes config moment (op.advance (moment.now + config.confirmTimeout.nanos)) where
  id := rfl
  desired := rfl
  goal := rfl
  steps := by
    rw [h]
    exact (Step.leave_ok op.steps reply).symm
  submitted _ _ hstage := by
    rw [Operation.advance] at hstage
    simp only at hstage
    split at hstage <;> exact absurd hstage (by simp)
  acked deadline hstage := by
    rw [Operation.advance] at hstage
    simp only at hstage
    split at hstage
    · rename_i hlast
      exact Or.inl ⟨List.isEmpty_iff.mp hlast, ⟨reply, h⟩, (Stage.acked.inj hstage).symm⟩
    · exact absurd hstage (by simp)

theorem skip (h : moment.answerTo? op.id = some (.error fault)) (hmoot : op.isMoot fault = true)
    (hmore : op.steps.tail.isEmpty = false) (now : Nat) :
    op.Goes config moment (op.advance now) := by
  have hstage : (op.advance now).stage = .queued := by
    rw [Operation.advance, hmore]
    rfl
  refine ⟨rfl, rfl, rfl, ?_, fun _ _ hother => ?_, fun _ hother => ?_⟩
  · rw [h]
    exact (leave_of_isMoot hmoot).symm
  · exact absurd (hstage.symm.trans hother) (by simp)
  · exact absurd (hstage.symm.trans hother) (by simp)

theorem backOff (h : moment.answerTo? op.id = some (.error fault)) (hmoot : op.isMoot fault = false)
    (attempt : UInt32) (till : Nat) :
    op.Goes config moment { op with attempt, stage := .backoff till } where
  id := rfl
  desired := rfl
  goal := rfl
  steps := by
    rw [h]
    exact (leave_of_not_isMoot hmoot).symm
  submitted _ _ hstage := absurd hstage (by simp)
  acked _ hstage := absurd hstage (by simp)

end Operation.Goes

namespace Session

/-- The causes for which operations end in a moment, each with what it comes to. -/
inductive Ends (session : Session) (moment : Moment) : Nat → Except Fault Outcome → Prop where
  /-- The inventory shows what was carried out. -/
  | shown {op after : Operation} {outcome : Outcome} (hop : op ∈ session.operations)
      (hgoes : op.Goes session.config moment after) (hacked : after.isAcked = true)
      (hshown : shown? moment.after after = some outcome) : Ends session moment op.id (.ok outcome)
  /-- The link went away. -/
  | abandoned {op : Operation} {index : UInt32} (hop : op ∈ session.operations)
      (htarget : op.target? = some index) (hlost : moment.before.Loses index moment.after) :
      Ends session moment op.id (.ok .abandoned)
  /-- What was to be deleted at last is gone already. -/
  | gone {op : Operation} {fault : Fault} (hop : op ∈ session.operations)
      (hanswer : moment.answerTo? op.id = some (.error fault)) (hmoot : op.isMoot fault = true)
      (hlast : op.steps.tail = []) : Ends session moment op.id (.ok .alreadyAbsent)
  /-- The request was refused, or could not be sent. -/
  | failed {op : Operation} {fault : Fault} (hop : op ∈ session.operations)
      (htimely : fault.isTimeout = false) : Ends session moment op.id (.error fault)
  /-- No answer came in time. -/
  | late {op : Operation} {seq : UInt32} {deadline : Nat} {fault : Fault}
      (hop : op ∈ session.operations) (hanswer : moment.answerTo? op.id = none)
      (hstage : op.stage = .submitted seq deadline) (hnow : deadline ≤ moment.now) :
      Ends session moment op.id (.error fault)
  /-- No news came in time. -/
  | unseen {op : Operation} {deadline : Nat} (hop : op ∈ session.operations)
      (hanswer : moment.answerTo? op.id = none) (hstage : op.stage = .acked deadline)
      (hnow : deadline ≤ moment.now) (hshown : shown? moment.after op = none) :
      Ends session moment op.id (.ok .unconfirmed)
  /-- There is nothing to be asked. -/
  | done {planning : Planning} {outcome : Outcome} (hplanned : moment.planned = some planning)
      (hplan : planning.plan = .done outcome) : Ends session moment planning.id (.ok outcome)

/-- Whether a moment tells all that happened to the operations of a session: which end, and how the
others go on. -/
structure Passes (session : Session) (moment : Moment) (ended : List (Nat × Except Fault Outcome))
    (after : Session) : Prop where
  config : after.config = session.config
  results : after.results = session.results ++ ended
  ids : (ended.map Prod.fst ++ after.operations.map Operation.id).Perm
    ((moment.planned.map Planning.id).toList ++ session.operations.map Operation.id)
  kept : ∀ new ∈ after.operations,
    (∃ op ∈ session.operations, op.Goes session.config moment new) ∨
      ∃ planning steps, moment.planned = some planning ∧ planning.plan = .steps steps ∧
        new = planning.start
  ended : ∀ entry ∈ ended, session.Ends moment entry.1 entry.2

/-- Whether operations of a session end, each for a reason. -/
structure Drops (session : Session) (reason : Operation → Except Fault Outcome → Prop)
    (ended : List (Nat × Except Fault Outcome)) (after : Session) : Prop where
  config : after.config = session.config
  results : after.results = session.results ++ ended
  ids : (ended.map Prod.fst ++ after.operations.map Operation.id).Perm
    (session.operations.map Operation.id)
  kept : ∀ op ∈ after.operations, op ∈ session.operations
  ended : ∀ entry ∈ ended, ∃ op ∈ session.operations, op.id = entry.1 ∧ reason op entry.2

namespace Drops

variable {session middle after : Session} {reason other : Operation → Except Fault Outcome → Prop}
  {ended more : List (Nat × Except Fault Outcome)}

theorem refl (session : Session) : session.Drops reason [] session where
  config := rfl
  results := (List.append_nil _).symm
  ids := .refl _
  kept _ hop := hop
  ended _ hentry := absurd hentry List.not_mem_nil

theorem trans (h : session.Drops reason ended middle) (hmore : middle.Drops reason more after) :
    session.Drops reason (ended ++ more) after where
  config := hmore.config.trans h.config
  results := by rw [hmore.results, h.results, List.append_assoc]
  ids := by
    rw [List.map_append, List.append_assoc]
    exact (hmore.ids.append_left _).trans h.ids
  kept op hop := h.kept op (hmore.kept op hop)
  ended entry hentry := by
    rcases List.mem_append.mp hentry with hentry | hentry
    · exact h.ended entry hentry
    · obtain ⟨op, hop, hreason⟩ := hmore.ended entry hentry
      exact ⟨op, h.kept op hop, hreason⟩

theorem mono (h : session.Drops reason ended after)
    (hreason : ∀ op ∈ session.operations, ∀ result, reason op result → other op result) :
    session.Drops other ended after where
  config := h.config
  results := h.results
  ids := h.ids
  kept := h.kept
  ended entry hentry := by
    obtain ⟨op, hop, hid, hentry⟩ := h.ended entry hentry
    exact ⟨op, hop, hid, hreason op hop _ hentry⟩

end Drops

theorem perm_conclude (verdict : Operation → Option (Except Fault Outcome))
    (operations : List Operation) :
    ((operations.filterMap fun op => (verdict op).map fun result => (op.id, result)).map Prod.fst ++
      (operations.filter fun op => (verdict op).isNone).map Operation.id).Perm
      (operations.map Operation.id) := by
  induction operations with
  | nil => exact .nil
  | cons op rest ih =>
      cases hverdict : verdict op with
      | none =>
          simp only [List.filterMap_cons, hverdict, Option.map_none, List.filter_cons,
            Option.isNone_none, if_true, List.map_cons]
          exact List.perm_middle.trans (ih.cons op.id)
      | some result =>
          simp only [List.filterMap_cons, hverdict, Option.map_some, List.filter_cons,
            Option.isNone_some, Bool.false_eq_true, if_false, List.map_cons, List.cons_append]
          exact ih.cons op.id

theorem drops_conclude (session : Session)
    (verdict : Operation → Option (Except Fault Outcome)) :
    ∃ ended, session.Drops (fun op result => verdict op = some result) ended
      (session.conclude verdict) := by
  refine ⟨_, rfl, rfl, perm_conclude verdict session.operations,
    fun op hop => (mem_operations_conclude.mp hop).1, fun entry hentry => ?_⟩
  obtain ⟨op, hop, hverdict⟩ := List.mem_filterMap.mp hentry
  obtain ⟨result, hresult, rfl⟩ := Option.map_eq_some_iff.mp hverdict
  exact ⟨op, hop, rfl, hresult⟩

theorem drops_finish {session : Session} {op : Operation} (hop : op ∈ session.operations)
    (hids : (session.operations.map Operation.id).Nodup) (result : Except Fault Outcome) :
    session.Drops (fun other ended => other = op ∧ ended = result) [(op.id, result)]
      (session.finish op result) where
  config := rfl
  results := rfl
  ids := by
    have hkept : (session.operations.filter fun other => other.id != op.id).map Operation.id =
        (session.operations.map Operation.id).erase op.id := by
      rw [hids.erase_eq_filter, List.filter_map]
      rfl
    show (op.id :: List.map _ (List.filter _ _)).Perm _
    rw [hkept]
    exact (List.perm_cons_erase (List.mem_map_of_mem hop)).symm
  kept _ hother := List.mem_of_mem_filter hother
  ended _ hentry := by
    rw [List.mem_singleton.mp hentry]
    exact ⟨op, hop, rfl, rfl, rfl⟩

theorem drops_confirm (session : Session) :
    ∃ ended, session.Drops (fun op result => ∃ outcome, op.isAcked = true ∧
      shown? session.inventory op = some outcome ∧ result = .ok outcome) ended
      session.confirm := by
  obtain ⟨ended, h⟩ := drops_conclude session fun op => (session.confirmation? op).map .ok
  refine ⟨ended, h.mono fun op _ result hverdict => ?_⟩
  obtain ⟨outcome, hshown, rfl⟩ := Option.map_eq_some_iff.mp hverdict
  rw [confirmation?] at hshown
  split at hshown
  · rename_i hacked
    exact ⟨outcome, hacked, hshown, rfl⟩
  · exact absurd hshown (by simp)

theorem drops_abandon (session : Session) (index : UInt32) :
    ∃ ended, session.Drops (fun op result => op.target? = some index ∧ result = .ok .abandoned)
      ended (session.abandon index) := by
  obtain ⟨ended, h⟩ := drops_conclude
    (session.cancelAll (session.operations.filter (·.target? == some index))) fun op =>
      if op.target? == some index then some (.ok .abandoned) else none
  refine ⟨ended, ⟨h.config, h.results, h.ids, h.kept, fun entry hentry => ?_⟩⟩
  obtain ⟨op, hop, hid, hverdict⟩ := h.ended entry hentry
  split at hverdict
  · rename_i htarget
    exact ⟨op, hop, hid, beq_iff_eq.mp htarget, (Option.some.inj hverdict).symm⟩
  · exact absurd hverdict (by simp)

theorem drops_foldl_abandon (session : Session) (lost : List UInt32) :
    ∃ ended, session.Drops (fun op result => ∃ index ∈ lost, op.target? = some index ∧
      result = .ok .abandoned) ended (lost.foldl abandon session) := by
  induction lost generalizing session with
  | nil => exact ⟨[], .refl session⟩
  | cons first rest ih =>
      obtain ⟨ended, h⟩ := drops_abandon session first
      obtain ⟨more, hmore⟩ := ih (session.abandon first)
      refine ⟨ended ++ more, .trans (h.mono fun _ _ _ hreason => ?_)
        (hmore.mono fun _ _ _ hreason => ?_)⟩
      · exact ⟨first, List.mem_cons_self, hreason⟩
      · obtain ⟨index, hindex, hreason⟩ := hreason
        exact ⟨index, List.mem_cons_of_mem first hindex, hreason⟩

end Session

namespace Moment

variable {moment : Moment}

theorem answerTo?_of_none (h : moment.answered = none) (id : Nat) : moment.answerTo? id = none := by
  rw [answerTo?, h]
  rfl

theorem answerTo?_eq_some_iff {id : Nat} {answer : Except Fault Reply} :
    moment.answerTo? id = some answer ↔ moment.answered = some (id, answer) := by
  rw [answerTo?, Option.map_eq_some_iff]
  constructor
  · rintro ⟨entry, hentry, rfl⟩
    obtain ⟨hanswered, hid⟩ := Option.filter_eq_some_iff.mp hentry
    rw [hanswered, ← beq_iff_eq.mp hid]
  · intro hanswered
    exact ⟨(id, answer), Option.filter_eq_some_iff.mpr ⟨hanswered, beq_self_eq_true id⟩, rfl⟩

theorem answerTo?_of_some {id : Nat} {answer : Except Fault Reply}
    (h : moment.answered = some (id, answer)) : moment.answerTo? id = some answer :=
  answerTo?_eq_some_iff.mpr h

theorem answerTo?_of_ne {id other : Nat} {answer : Except Fault Reply}
    (h : moment.answered = some (id, answer)) (hother : other ≠ id) :
    moment.answerTo? other = none := by
  simp [answerTo?, h, Ne.symm hother]

end Moment

namespace Session

variable {session middle after : Session} {moment : Moment}
  {ended : List (Nat × Except Fault Outcome)}

theorem Passes.quiet (hplanned : moment.planned = none) (hanswered : moment.answered = none)
    (hconfig : after.config = session.config) (hresults : after.results = session.results)
    (hoperations : after.operations = session.operations) : session.Passes moment [] after where
  config := hconfig
  results := by rw [hresults, List.append_nil]
  ids := by
    rw [hplanned, hoperations]
    exact .refl _
  kept op hop :=
    Or.inl ⟨op, hoperations ▸ hop, .refl (Moment.answerTo?_of_none hanswered op.id)⟩
  ended _ hentry := absurd hentry List.not_mem_nil

theorem Passes.drops (h : session.Passes moment ended middle) (hplanned : moment.planned = none)
    {reason : Operation → Except Fault Outcome → Prop} {more : List (Nat × Except Fault Outcome)}
    (hdrops : middle.Drops reason more after)
    (hreason : ∀ op ∈ session.operations, ∀ new, op.Goes session.config moment new →
      ∀ result, reason new result → session.Ends moment op.id result) :
    session.Passes moment (ended ++ more) after where
  config := hdrops.config.trans h.config
  results := by rw [hdrops.results, h.results, List.append_assoc]
  ids := by
    rw [List.map_append, List.append_assoc]
    exact (hdrops.ids.append_left _).trans h.ids
  kept op hop := h.kept op (hdrops.kept op hop)
  ended entry hentry := by
    rcases List.mem_append.mp hentry with hentry | hentry
    · exact h.ended entry hentry
    · obtain ⟨new, hnew, hid, hended⟩ := hdrops.ended entry hentry
      rcases h.kept new hnew with ⟨op, hop, hgoes⟩ | ⟨_, _, hsome, -⟩
      · rw [← hid, hgoes.id]
        exact hreason op hop new hgoes _ hended
      · rw [hplanned] at hsome
        exact absurd hsome (by simp)

theorem Passes.confirm (h : session.Passes moment ended middle) (hplanned : moment.planned = none)
    (hafter : moment.after = middle.inventory) :
    ∃ ended, session.Passes moment ended middle.confirm := by
  obtain ⟨more, hdrops⟩ := drops_confirm middle
  refine ⟨ended ++ more, h.drops hplanned hdrops fun op hop new hgoes result hreason => ?_⟩
  obtain ⟨outcome, hacked, hshown, rfl⟩ := hreason
  exact .shown hop hgoes hacked (hafter ▸ hshown)

theorem Passes.abandon (h : session.Passes moment ended middle) (hplanned : moment.planned = none)
    {lost : List UInt32} (hlost : ∀ index ∈ lost, moment.before.Loses index moment.after) :
    ∃ ended, session.Passes moment ended (lost.foldl Session.abandon middle) := by
  obtain ⟨more, hdrops⟩ := drops_foldl_abandon middle lost
  refine ⟨ended ++ more, h.drops hplanned hdrops fun op hop new hgoes result hreason => ?_⟩
  obtain ⟨index, hindex, htarget, rfl⟩ := hreason
  refine .abandoned hop ?_ (hlost index hindex)
  rw [Operation.target?, ← hgoes.desired]
  exact htarget

theorem Passes.update {op new : Operation} {answer : Except Fault Reply}
    (hop : op ∈ session.operations)
    (hplanned : moment.planned = none) (hanswered : moment.answered = some (op.id, answer))
    (hgoes : op.Goes session.config moment new) :
    session.Passes moment [] (session.update new) where
  config := rfl
  results := (List.append_nil _).symm
  ids := by
    rw [Session.update, Operation.map_id_update, hplanned]
    exact .refl _
  kept other hother := by
    obtain ⟨old, hold, rfl⟩ := List.mem_map.mp hother
    split
    · exact Or.inl ⟨op, hop, hgoes⟩
    · rename_i hid
      rw [hgoes.id] at hid
      exact Or.inl ⟨old, hold, .refl (Moment.answerTo?_of_ne hanswered hid)⟩
  ended _ hentry := absurd hentry List.not_mem_nil

theorem Passes.finish {op : Operation} {answer : Except Fault Reply}
    (hids : (session.operations.map Operation.id).Nodup) (hop : op ∈ session.operations)
    (hplanned : moment.planned = none) (hanswered : moment.answered = some (op.id, answer))
    {result : Except Fault Outcome} (hends : session.Ends moment op.id result)
    (watched : Watched) :
    session.Passes moment [(op.id, result)]
      (({ session with watched } : Session).finish op result) := by
  have hdrops := @drops_finish { session with watched } op hop hids result
  refine ⟨rfl, rfl, ?_, fun other hother => ?_, fun entry hentry => ?_⟩
  · rw [hplanned]
    exact hdrops.ids
  · obtain ⟨hold, hid⟩ := List.mem_filter.mp hother
    exact Or.inl ⟨other, hold, .refl (Moment.answerTo?_of_ne hanswered (bne_iff_ne.mp hid))⟩
  · rw [List.mem_singleton.mp hentry]
    exact hends

theorem Replied.passes {now : Nat} {seq : UInt32} {result : Except Fault Reply}
    (h : session.Replied now seq result after)
    (hids : (session.operations.map Operation.id).Nodup) (hnow : moment.now = now)
    (hplanned : moment.planned = none)
    (hanswered : moment.answered = session.answeredBy (.taken (.reply seq result)))
    (htimely : Timely result) : ∃ ended, session.Passes moment ended after := by
  rw [answeredBy] at hanswered
  cases h with
  | ignored hfind =>
      rw [hfind] at hanswered
      exact ⟨[], .quiet hplanned hanswered rfl rfl rfl⟩
  | acked hfind =>
      rw [hfind] at hanswered
      rw [← hnow]
      exact ⟨[], .update (List.mem_of_find?_eq_some hfind) hplanned hanswered
        (.advance (Moment.answerTo?_of_some hanswered))⟩
  | gone hfind hmoot hlast =>
      have hop := List.mem_of_find?_eq_some hfind
      rw [hfind] at hanswered
      exact ⟨_, .finish hids hop hplanned hanswered
        (.gone hop (Moment.answerTo?_of_some hanswered) hmoot hlast) _⟩
  | skipped hfind hmoot hmore =>
      rw [hfind] at hanswered
      exact ⟨[], .update (List.mem_of_find?_eq_some hfind) hplanned hanswered
        (.skip (Moment.answerTo?_of_some hanswered) hmoot (List.isEmpty_eq_false_iff.mpr hmore)
          now)⟩
  | postponed hfind hmoot =>
      rw [hfind] at hanswered
      exact ⟨[], .update (List.mem_of_find?_eq_some hfind) hplanned hanswered
        (.backOff (Moment.answerTo?_of_some hanswered) hmoot _ _)⟩
  | @failed op fault hfind =>
      have hop := List.mem_of_find?_eq_some hfind
      rw [hfind] at hanswered
      refine ⟨_, .finish hids hop hplanned hanswered (.failed hop ?_) session.watched⟩
      rw [Fault.isTimeout_during]
      exact htimely fault rfl

theorem passes_takeRemoval (h : session.inventory.Consistent) {slot : Slot}
    (hbefore : moment.before = session.inventory)
    (hafter : moment.after = (session.takeRemoval slot).inventory)
    (hplanned : moment.planned = none) (hanswered : moment.answered = none) :
    ∃ ended, session.Passes moment ended (session.takeRemoval slot) := by
  rw [(follows_takeRemoval session slot).inventory] at hafter
  have hquiet : session.Passes moment []
      { session with watched := (session.watched.remove slot).2 } :=
    .quiet hplanned hanswered rfl rfl rfl
  obtain ⟨ended, hconfirm⟩ := hquiet.confirm hplanned hafter
  rcases session.takeRemoval_cases slot with ⟨-, hkept⟩ | ⟨l, hremoved, hgone⟩
  · rw [hkept]
    exact ⟨ended, hconfirm⟩
  · have hlookup : session.inventory.lookup slot = some (.link l) :=
      (Inventory.remove_fst _ _).symm.trans hremoved
    have hlost : moment.before.Loses l.index moment.after := by
      rw [hbefore, hafter]
      exact h.loses_remove hlookup
    rw [hgone]
    exact hconfirm.abandon hplanned (List.forall_mem_singleton.mpr hlost)

theorem passes_reconcile (h : session.inventory.Consistent) {kind : Kind} {objects : List Object}
    (hbefore : moment.before = session.inventory)
    (hafter : moment.after = (session.reconcile kind objects).2.inventory)
    (hplanned : moment.planned = none) (hanswered : moment.answered = none) :
    ∃ ended, session.Passes moment ended (session.reconcile kind objects).2 := by
  rw [(follows_reconcile session kind objects).inventory] at hafter
  have hquiet : session.Passes moment []
      { session with watched := (session.watched.reconcile kind objects).2 } :=
    .quiet hplanned hanswered rfl rfl rfl
  obtain ⟨ended, hconfirm⟩ := hquiet.confirm hplanned hafter
  refine hconfirm.abandon hplanned fun index hindex => ?_
  obtain ⟨howner, hgone⟩ := List.mem_filter.mp hindex
  obtain ⟨object, hobject, howner⟩ := List.mem_filterMap.mp howner
  rw [hbefore, hafter]
  split at hobject
  · exact h.loses_of_owner? hobject howner (Option.isNone_iff_eq_none.mp hgone)
  · exact absurd hobject List.not_mem_nil

/-- A turn does what its moment tells. -/
theorem passes_turn (h : session.inventory.Consistent)
    (hids : (session.operations.map Operation.id).Nodup) {now : Nat} {turn : Turn}
    (htimely : turn.IsTimely) (hnow : moment.now = now)
    (hbefore : moment.before = session.inventory)
    (hafter : moment.after = (session.turn now turn).inventory)
    (hplanned : moment.planned = none) (hanswered : moment.answered = session.answeredBy turn) :
    ∃ ended, session.Passes moment ended (session.turn now turn) := by
  have hconfirm {middle : Session} (hend : session.turn now turn = middle.confirm)
      (hpasses : ∃ ended, session.Passes moment ended middle) :
      ∃ ended, session.Passes moment ended (session.turn now turn) := by
    obtain ⟨ended, hpasses⟩ := hpasses
    rw [hend] at hafter ⊢
    exact hpasses.confirm hplanned hafter
  cases turn with
  | reconciled kind objects => exact passes_reconcile h hbefore hafter hplanned hanswered
  | taken incoming =>
      cases incoming with
      | notice kind change object =>
          cases change with
          | new => exact hconfirm rfl ⟨[], .quiet hplanned hanswered rfl rfl rfl⟩
          | del => exact passes_takeRemoval h hbefore hafter hplanned hanswered
      | reply seq result =>
          exact hconfirm rfl ((session.replied_takeReply now seq result).passes hids hnow hplanned
            hanswered htimely)
      | part seq objects => exact hconfirm rfl ⟨[], .quiet hplanned hanswered rfl rfl rfl⟩
      | overrun =>
          exact @hconfirm { session with stale := true } rfl
            ⟨[], .quiet hplanned hanswered rfl rfl rfl⟩

theorem passes_expire (hhidden : session.Hidden) {now : Nat} (hnow : moment.now = now)
    (hafter : moment.after = session.inventory) (hplanned : moment.planned = none)
    (hanswered : moment.answered = none) :
    ∃ ended, session.Passes moment ended (session.expire now) := by
  obtain ⟨ended, hdrops⟩ := drops_conclude (session.cancelAll
    (session.operations.filter fun op => (session.expired? now op).isSome)) (session.expired? now)
  have hanswer (op : Operation) := Moment.answerTo?_of_none hanswered op.id
  refine ⟨ended, ⟨hdrops.config, hdrops.results, ?_, fun op hop => ?_, fun entry hentry => ?_⟩⟩
  · rw [hplanned]
    exact hdrops.ids
  · exact Or.inl ⟨op, hdrops.kept op hop, .refl (hanswer op)⟩
  · obtain ⟨op, hop, hid, hexpired⟩ := hdrops.ended entry hentry
    rw [← hid]
    rw [expired?] at hexpired
    split at hexpired
    · rename_i seq deadline hstage
      obtain ⟨hdeadline, hresult⟩ := Option.ite_none_right_eq_some.mp hexpired
      rw [← Option.some.inj hresult]
      exact .late hop (hanswer op) hstage (hnow ▸ hdeadline)
    · rename_i deadline hstage
      obtain ⟨hdeadline, hresult⟩ := Option.ite_none_right_eq_some.mp hexpired
      rw [← Option.some.inj hresult]
      refine .unseen hop (hanswer op) hstage (hnow ▸ hdeadline) ?_
      have hnone := hhidden op hop
      rw [confirmation?, if_pos (by rw [Operation.isAcked, hstage])] at hnone
      rw [hafter]
      exact hnone
    · exact absurd hexpired (by simp)

theorem passes_undertake {planning : Planning} (hplanned : moment.planned = some planning)
    (hanswered : moment.answered = none) :
    ∃ ended, session.Passes moment ended (session.undertake planning) := by
  have hkept (op : Operation) (hop : op ∈ session.operations) :
      ∃ old ∈ session.operations, old.Goes session.config moment op :=
    ⟨op, hop, .refl (Moment.answerTo?_of_none hanswered op.id)⟩
  rw [undertake]
  split
  · rename_i outcome hplan
    refine ⟨[(planning.id, .ok outcome)], rfl, rfl, ?_, fun op hop => Or.inl (hkept op hop), ?_⟩
    · rw [hplanned]
      exact .refl _
    · rw [List.forall_mem_singleton]
      exact .done hplanned hplan
  · rename_i steps hplan
    refine ⟨[], rfl, (List.append_nil _).symm, ?_, fun op hop => ?_,
      fun _ hentry => absurd hentry List.not_mem_nil⟩
    · rw [hplanned, List.map_append]
      exact List.perm_append_singleton planning.id _
    · rcases List.mem_append.mp hop with hop | hop
      · exact Or.inl (hkept op hop)
      · exact Or.inr ⟨planning, steps, hplanned, hplan, List.mem_singleton.mp hop⟩

end Session

namespace World

variable {world middle : World} {op : Operation}

theorem submitted_of_pumpOne {pumped : Operation} (h : world.pumpOne op = (middle, .ok pumped)) :
    pumped = op ∨ op.isDue world.now = true ∧ ∃ seq,
      pumped = { op with
        stage := .submitted seq (world.now + world.session.config.ackTimeout.nanos) } := by
  rcases world.pumpOne_cases op with ⟨-, hrest⟩ | ⟨step, -, hdue, hsend⟩
  · exact Or.inl (Except.ok.inj (congrArg Prod.snd (h.symm.trans hrest)))
  · obtain ⟨seq, -, rfl⟩ := map_eq_ok_iff.mp (congrArg Prod.snd (hsend.symm.trans h))
    exact Or.inr ⟨hdue, seq, rfl⟩

theorem passes_pumpEach {moment : Moment} (operations : List Operation)
    (htimely : world.channel.IsTimely) (hnow : moment.now = world.now)
    (hasked : ∀ op ∈ operations, op.isDue world.now = true → op.id ∈ moment.asked)
    (hanswered : moment.answered = none) :
    ((world.pumpEach operations).2.2.map Prod.fst ++
        (world.pumpEach operations).2.1.map Operation.id).Perm (operations.map Operation.id) ∧
      (∀ new ∈ (world.pumpEach operations).2.1, ∃ op ∈ operations,
        op.Goes world.session.config moment new) ∧
      ∀ entry ∈ (world.pumpEach operations).2.2, ∃ op ∈ operations, op.id = entry.1 ∧
        ∃ fault, entry.2 = .error fault ∧ fault.isTimeout = false := by
  induction operations generalizing world with
  | nil => exact ⟨.nil, fun _ hnew => absurd hnew List.not_mem_nil,
      fun _ hentry => absurd hentry List.not_mem_nil⟩
  | cons op rest ih =>
      have hone := timely_pumpOne htimely op
      have hsends := sends_pumpOne world op
      have hanswer := Moment.answerTo?_of_none hanswered op.id
      obtain ⟨hids, hkept, hfailed⟩ := @ih (world.pumpOne op).1 hone.1
        (hnow.trans hsends.now.symm) fun other hother hdue =>
          hasked other (List.mem_cons_of_mem op hother) (hsends.now ▸ hdue)
      rw [show (world.pumpOne op).1.session.config = _ by rw [hsends.session]] at hkept
      have hmem {holds : Operation → Prop} (h : ∃ other ∈ rest, holds other) :
          ∃ other ∈ op :: rest, holds other := by
        obtain ⟨other, hother, hholds⟩ := h
        exact ⟨other, List.mem_cons_of_mem op hother, hholds⟩
      rcases hpump : world.pumpOne op with ⟨middle, fault | pumped⟩
      · rw [hpump] at hone hids hkept hfailed
        rw [pumpEach_cons_error hpump]
        refine ⟨hids.cons op.id, fun new hnew => hmem (hkept new hnew), fun entry hentry => ?_⟩
        rcases List.mem_cons.mp hentry with rfl | hentry
        · exact ⟨op, List.mem_cons_self, rfl, fault, rfl, hone.2 fault rfl⟩
        · exact hmem (hfailed entry hentry)
      · rw [hpump] at hids hkept hfailed
        rw [pumpEach_cons_ok hpump]
        refine ⟨?_, fun new hnew => ?_, fun entry hentry => hmem (hfailed entry hentry)⟩
        · rw [List.map_cons, (pumped_pumpOne hpump).id]
          exact List.perm_middle.trans (hids.cons op.id)
        · rcases List.mem_cons.mp hnew with rfl | hnew
          · rcases submitted_of_pumpOne hpump with rfl | ⟨hdue, seq, rfl⟩
            · exact ⟨new, List.mem_cons_self, .refl hanswer⟩
            · rw [← hnow]
              exact ⟨op, List.mem_cons_self,
                .submit hanswer (hasked op List.mem_cons_self hdue) seq⟩
          · exact hmem (hkept new hnew)

theorem passes_pump {moment : Moment} (htimely : world.channel.IsTimely)
    (hnow : moment.now = world.now) (hasked : moment.asked = world.due)
    (hplanned : moment.planned = none) (hanswered : moment.answered = none) :
    ∃ ended, world.session.Passes moment ended world.pump.session := by
  have hsends := (exists_pumped world world.session.operations).1.session
  obtain ⟨hids, hkept, hfailed⟩ := passes_pumpEach world.session.operations htimely hnow
    (fun op hop hdue => hasked ▸ List.mem_map_of_mem (List.mem_filter.mpr ⟨hop, hdue⟩)) hanswered
  refine ⟨(world.pumpEach world.session.operations).2.2, ⟨?_, ?_, ?_, fun new hnew => ?_,
    fun entry hentry => ?_⟩⟩
  · rw [pump_eq, mapSession, hsends]
  · rw [pump_eq, mapSession, hsends]
  · rw [hplanned]
    exact hids
  · exact Or.inl (hkept new hnew)
  · obtain ⟨op, hop, hid, fault, hfault, hisTimeout⟩ := hfailed entry hentry
    rw [← hid, hfault]
    exact .failed hop hisTimeout

end World

end NetState
