import Mathlib.Data.List.Induction
import NetState.Proofs.Session.Moment

namespace NetState

theorem cases_of_snoc_eq {α : Type} {list before after : List α} {last element : α}
    (h : list ++ [last] = before ++ element :: after) :
    (after = [] ∧ list = before ∧ last = element) ∨
      ∃ rest, after = rest ++ [last] ∧ list = before ++ element :: rest := by
  rcases List.eq_nil_or_concat after with rfl | ⟨rest, other, rfl⟩
  · obtain ⟨rfl, hsame⟩ := List.append_inj' h rfl
    exact Or.inl ⟨rfl, rfl, List.singleton_inj.mp hsame⟩
  · rw [List.concat_eq_append, ← List.cons_append, ← List.append_assoc] at h
    obtain ⟨hlist, hsame⟩ := List.append_inj' h rfl
    obtain rfl := List.singleton_inj.mp hsame
    exact Or.inr ⟨rest, List.concat_eq_append, hlist⟩

/-- What passes between an operation and the kernel's side. -/
inductive Dealing where
  /-- The request of the first step is made under a number, of those that are left. -/
  | asked (now : Nat) (seq : UInt32) (left : List Step)
  /-- The request with a number is answered. -/
  | answered (now : Nat) (seq : UInt32) (answer : Except Fault Reply)

namespace Dealing

/-- Whether it is a request made when these steps are left. -/
def asks (left : List Step) : Dealing → Bool
  | .asked _ _ other => other == left
  | .answered _ _ _ => false

/-- How often the request of the first step was made, of these that are left. -/
def attempts (dealings : List Dealing) (left : List Step) : Nat :=
  dealings.countP (asks left)

/-- Whether a dealing is in order after others, for an operation with a plan. -/
inductive IsInOrder (config : Config) (plan : List Step) : List Dealing → Dealing → Prop where
  /-- The first request is that of the first step. -/
  | first {now : Nat} {seq : UInt32} : IsInOrder config plan [] (.asked now seq plan)
  /-- The next request comes once the step before is acknowledged, or deletes what is gone. -/
  | next {before : List Dealing} {sent heard now : Nat} {seq other : UInt32} {step : Step}
      {left : List Step} {answer : Except Fault Reply} (hdone : step.isDoneBy answer = true) :
      IsInOrder config plan
        (before ++ [.asked sent seq (step :: left), .answered heard seq answer])
        (.asked now other left)
  /-- The same request comes again once it failed for the moment, as long as that is allowed; so
  many requests made, so many times they failed, and so long is the delay. -/
  | again {before : List Dealing} {sent heard now : Nat} {seq other : UInt32} {step : Step}
      {left : List Step} {fault : Fault} (hmoot : step.isMoot fault = false)
      (htransient : ∃ errno ∈ [Errno.again, Errno.busy, Errno.interrupted],
        fault.errno? = some errno)
      (hbudget : attempts (before ++ [.asked sent seq (step :: left)]) (step :: left) ≤
        config.maxRetries.toNat)
      (hlater : heard + (config.backoffFor (.ofNat (attempts
        (before ++ [.asked sent seq (step :: left)]) (step :: left)))).nanos ≤ now) :
      IsInOrder config plan
        (before ++ [.asked sent seq (step :: left), .answered heard seq (.error fault)])
        (.asked now other (step :: left))
  /-- An answer follows its request, and has its number. -/
  | answer {before : List Dealing} {sent heard : Nat} {seq : UInt32} {left : List Step}
      {answer : Except Fault Reply} :
      IsInOrder config plan (before ++ [.asked sent seq left]) (.answered heard seq answer)

/-- Whether each dealing is in order after those before it. -/
def InOrder (config : Config) (plan : List Step) (dealings : List Dealing) : Prop :=
  ∀ before dealing after, dealings = before ++ dealing :: after →
    dealing.IsInOrder config plan before

def lastLeft (dealings : List Dealing) : Option (List Step) :=
  dealings.reverse.findSome? fun
    | .asked _ _ left => some left
    | .answered _ _ _ => none

@[simp] theorem lastLeft_asked (dealings : List Dealing) (now : Nat) (seq : UInt32)
    (left : List Step) : lastLeft (dealings ++ [.asked now seq left]) = some left := by
  simp [lastLeft]

@[simp] theorem lastLeft_answered (dealings : List Dealing) (now : Nat) (seq : UInt32)
    (answer : Except Fault Reply) :
    lastLeft (dealings ++ [.answered now seq answer]) = lastLeft dealings := by
  simp [lastLeft]

theorem lastLeft_pair {before : List Dealing} {sent heard : Nat} {seq other : UInt32}
    {left : List Step} {answer : Except Fault Reply} :
    lastLeft (before ++ [.asked sent seq left, .answered heard other answer]) = some left := by
  simp [lastLeft]

theorem attempts_snoc (dealings : List Dealing) (dealing : Dealing) (left : List Step) :
    attempts (dealings ++ [dealing]) left =
      attempts dealings left + if dealing.asks left then 1 else 0 := by
  rw [attempts, List.countP_append, List.countP_singleton]
  rfl

theorem attempts_answered (dealings : List Dealing) (dealing : Dealing) (now : Nat) (seq : UInt32)
    (answer : Except Fault Reply) (left : List Step) :
    attempts (dealings ++ [dealing, .answered now seq answer]) left =
      attempts (dealings ++ [dealing]) left := by
  rw [List.append_cons dealings dealing, attempts_snoc _ (.answered now seq answer)]
  rfl

theorem isTransient_iff {fault : Fault} : fault.isTransient = true ↔
    ∃ errno ∈ [Errno.again, Errno.busy, Errno.interrupted], fault.errno? = some errno := by
  rw [Fault.isTransient]
  cases fault.errno? with
  | none => simp
  | some errno => simp

namespace InOrder

variable {config : Config} {plan : List Step} {dealings before : List Dealing} {dealing : Dealing}

theorem nil : InOrder config plan [] := by
  intro before dealing after h
  exact absurd h (by simp)

theorem snoc (h : InOrder config plan dealings) (hlast : dealing.IsInOrder config plan dealings) :
    InOrder config plan (dealings ++ [dealing]) := by
  intro before other after hsplit
  rcases cases_of_snoc_eq hsplit with ⟨-, rfl, rfl⟩ | ⟨rest, -, hbefore⟩
  · exact hlast
  · exact h before other rest hbefore

theorem init (h : InOrder config plan (before ++ dealings)) : InOrder config plan before := by
  rintro earlier dealing after rfl
  exact h earlier dealing (after ++ dealings) (by simp)

theorem last (h : InOrder config plan (before ++ [dealing])) :
    dealing.IsInOrder config plan before :=
  h before dealing [] rfl

theorem suffix (h : InOrder config plan dealings) {left : List Step}
    (hlast : lastLeft dealings = some left) {now : Nat} {seq : UInt32} {other : List Step}
    (hother : .asked now seq other ∈ dealings) : left <:+ other := by
  -- On the dealings from their end: the last of them leaves a part of what those before it left.
  induction dealings using List.reverseRecOn generalizing left with
  | nil => exact absurd hother List.not_mem_nil
  | append_singleton before dealing ih =>
      cases dealing with
      | answered heard seq answer =>
          rw [lastLeft_answered] at hlast
          refine ih h.init hlast ?_
          simpa using hother
      | asked sent seq last =>
          rw [lastLeft_asked, Option.some.injEq] at hlast
          subst hlast
          rcases List.mem_append.mp hother with hearlier | hself
          · cases h.last with
            | first => exact absurd hearlier List.not_mem_nil
            | @next _ _ _ _ _ _ step _ _ hdone =>
                exact (List.suffix_cons step last).trans (ih h.init lastLeft_pair hearlier)
            | again hmoot htransient hbudget hlater =>
                exact ih h.init lastLeft_pair hearlier
          · obtain ⟨rfl, rfl, rfl⟩ := Dealing.asked.inj (List.mem_singleton.mp hself)
            exact List.suffix_refl _

theorem attempts_eq_zero (h : InOrder config plan dealings) {step : Step} {left : List Step}
    (hlast : lastLeft dealings = some (step :: left)) : attempts dealings left = 0 := by
  rw [attempts, List.countP_eq_zero]
  rintro (⟨now, seq, other⟩ | ⟨now, seq, answer⟩) hmem hasks
  · have hsuffix := h.suffix hlast hmem
    rw [asks, beq_iff_eq] at hasks
    have hlength := hsuffix.length_le
    rw [hasks, List.length_cons] at hlength
    omega
  · exact absurd hasks (by simp [asks])

/-- The request of each step is made once, and repeated as often as allowed at most. -/
theorem attempts_le (h : InOrder config plan dealings) (left : List Step) :
    attempts dealings left ≤ 1 + config.maxRetries.toNat := by
  -- Only the last request can be one more for the same step, and then a retry was left for it.
  induction dealings using List.reverseRecOn with
  | nil => exact Nat.zero_le _
  | append_singleton before dealing ih =>
      rw [attempts_snoc]
      split
      · rename_i hasks
        cases dealing with
        | answered heard seq answer => exact absurd hasks (by simp [asks])
        | asked now seq other =>
            obtain rfl : other = left := beq_iff_eq.mp hasks
            cases h.last with
            | first => simp [attempts]
            | next hdone =>
                rw [h.init.attempts_eq_zero lastLeft_pair]
                omega
            | again hmoot htransient hbudget hlater =>
                rw [attempts_answered]
                omega
      · exact ih h.init

end InOrder

end Dealing

namespace Operation

/-- Whether the dealings of an operation have brought it to where it is. -/
structure Stands (config : Config) (plan : List Step) (dealings : List Dealing) (op : Operation) :
    Prop where
  budget : op.attempt.toNat ≤ config.maxRetries.toNat
  /-- Its next request is in order as soon as it is due. -/
  due : ∀ now seq, op.isDue now = true →
    (Dealing.asked now seq op.steps).IsInOrder config plan dealings
  /-- If it waits for an answer, then to what was last asked. -/
  waiting : ∀ seq, op.seq? = some seq → ∃ before sent step rest, op.steps = step :: rest ∧
    dealings = before ++ [.asked sent seq (step :: rest)]
  /-- Each repetition is counted, and the request that waits has been made once more. -/
  attempts : Dealing.attempts dealings op.steps =
    op.attempt.toNat + if op.seq?.isSome then 1 else 0

/-- What becomes of an operation by the answer to its request, unless that ends it. -/
def answered? (config : Config) (now : Nat) (op : Operation) :
    Except Fault Reply → Option Operation
  | .ok _ => some (op.advance (now + config.confirmTimeout.nanos))
  | .error fault =>
    if op.isMoot fault then if op.steps.tail.isEmpty then none else some (op.advance now)
    else if fault.isTransient && op.attempt < config.maxRetries then
      let attempt := op.attempt + 1
      some { op with attempt, stage := .backoff (now + (config.backoffFor attempt).nanos) }
    else none

namespace Stands

variable {config : Config} {plan : List Step} {dealings : List Dealing} {op new : Operation}

theorem start {planning : Planning} : planning.start.Stands config planning.steps [] where
  budget := Nat.zero_le _
  due _ _ _ := .first
  waiting _ hseq := absurd hseq (by simp [seq?, Planning.start])
  attempts := rfl

theorem ask (h : op.Stands config plan dealings) {now : Nat} (hdue : op.isDue now = true)
    (hsteps : op.steps ≠ []) (seq : UInt32) (deadline : Nat) :
    { op with stage := .submitted seq deadline }.Stands config plan
      (dealings ++ [Dealing.asked now seq op.steps]) where
  budget := h.budget
  due _ _ hother := absurd hother (by simp [isDue])
  waiting other hother := by
    obtain ⟨step, rest, hcons⟩ := List.exists_cons_of_ne_nil hsteps
    obtain rfl := Option.some.inj hother
    exact ⟨dealings, now, step, rest, hcons, by rw [hcons]⟩
  attempts := by
    have hbefore := h.attempts
    rw [seq?_of_isDue hdue] at hbefore
    rw [Dealing.attempts_snoc, hbefore]
    simp [Dealing.asks, seq?]

theorem advance (h : op.Stands config plan dealings)
    (horder : Dealing.InOrder config plan dealings) {seq : UInt32} (hseq : op.seq? = some seq)
    {answer : Except Fault Reply} (hdone : ∀ step ∈ op.steps.head?, step.isDoneBy answer = true)
    (now deadline : Nat) :
    (op.advance deadline).Stands config plan (dealings ++ [.answered now seq answer]) := by
  obtain ⟨before, sent, step, rest, hsteps, rfl⟩ := h.waiting seq hseq
  rw [hsteps, List.head?_cons] at hdone
  have hleft : (op.advance deadline).steps = rest := by rw [Operation.advance, hsteps]; rfl
  refine ⟨Nat.zero_le _, fun later _ _ => ?_, fun other hother => ?_, ?_⟩
  · rw [hleft, List.append_assoc]
    exact .next (hdone step rfl)
  · rw [seq?_advance] at hother
    exact absurd hother (by simp)
  · rw [hleft, seq?_advance, Dealing.attempts_snoc,
      horder.attempts_eq_zero (Dealing.lastLeft_asked before sent seq (step :: rest))]
    rfl

theorem backOff (h : op.Stands config plan dealings) {seq : UInt32} (hseq : op.seq? = some seq)
    {fault : Fault} (hmoot : op.isMoot fault = false) (htransient : fault.isTransient = true)
    (hbudget : op.attempt < config.maxRetries) (now : Nat) :
    { op with
      attempt := op.attempt + 1
      stage := .backoff (now + (config.backoffFor (op.attempt + 1)).nanos) }.Stands config plan
      (dealings ++ [Dealing.answered now seq (.error fault)]) := by
  obtain ⟨before, sent, step, rest, hsteps, rfl⟩ := h.waiting seq hseq
  have hlt : op.attempt.toNat < config.maxRetries.toNat := UInt32.lt_iff_toNat_lt.mp hbudget
  have hnext : (op.attempt + 1).toNat = op.attempt.toNat + 1 := by
    have hmax := config.maxRetries.toNat_lt
    rw [UInt32.toNat_add, UInt32.toNat_one, Nat.mod_eq_of_lt (by omega)]
  have hcount := h.attempts
  rw [hsteps, hseq, Option.isSome_some, if_pos rfl, ← hnext] at hcount
  rw [isMoot_eq, hsteps] at hmoot
  refine ⟨?_, fun later _ hlater => ?_, fun other hother => ?_, ?_⟩
  · rw [hnext]
    exact hlt
  · rw [isDue, decide_eq_true_iff] at hlater
    rw [hsteps, List.append_assoc]
    refine .again hmoot (Dealing.isTransient_iff.mp htransient) ?_ ?_
    · rw [hcount, hnext]
      exact hlt
    · rw [hcount, UInt32.ofNat_toNat]
      exact hlater
  · exact absurd hother (by simp [seq?])
  · show Dealing.attempts _ op.steps = _
    rw [hsteps, Dealing.attempts_snoc, hcount]
    rfl

theorem answer (h : op.Stands config plan dealings)
    (horder : Dealing.InOrder config plan dealings) {seq : UInt32} (hseq : op.seq? = some seq)
    {now : Nat} {answer : Except Fault Reply} (hnew : op.answered? config now answer = some new) :
    new.Stands config plan (dealings ++ [.answered now seq answer]) := by
  cases answer with
  | ok reply =>
      rw [← Option.some.inj hnew]
      exact h.advance horder hseq (fun _ _ => rfl) now _
  | error fault =>
      rw [answered?] at hnew
      split at hnew
      · rename_i hmoot
        obtain ⟨-, hadvance⟩ := Option.ite_none_left_eq_some.mp hnew
        rw [← Option.some.inj hadvance]
        rw [isMoot_eq, Option.any_eq_true] at hmoot
        refine h.advance horder hseq (fun step hstep => ?_) now now
        obtain ⟨head, hhead, hmoot⟩ := hmoot
        obtain rfl := Option.some.inj (hhead.symm.trans hstep)
        exact hmoot
      · rename_i hmoot
        obtain ⟨hagain, hbackOff⟩ := Option.ite_none_right_eq_some.mp hnew
        rw [Bool.and_eq_true, decide_eq_true_iff] at hagain
        rw [← Option.some.inj hbackOff]
        exact h.backOff hseq (Bool.not_eq_true _ ▸ hmoot) hagain.1 hagain.2 now

theorem isInOrder_answered (h : op.Stands config plan dealings) {seq : UInt32}
    (hseq : op.seq? = some seq) (now : Nat) (answer : Except Fault Reply) :
    (Dealing.answered now seq answer).IsInOrder config plan dealings := by
  obtain ⟨before, sent, step, rest, -, rfl⟩ := h.waiting seq hseq
  exact .answer

end Stands

end Operation

end NetState
