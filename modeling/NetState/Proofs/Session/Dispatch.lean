import NetState.Proofs.Session.Moment
import NetState.Proofs.Session.Notify

namespace NetState

/-- Whether the next request of an operation is to be sent now. -/
def Operation.isAsking (op : Operation) (now : Nat) : Bool :=
  op.isDue now && !op.steps.isEmpty

/-- A request of an operation: its number, the steps that are left with its own, and what was
sent. -/
structure Dispatch where
  id : Nat
  seq : UInt32
  left : List Step
  datagrams : List Bytes

namespace World

/-- What was sent from one world to another, in order. -/
def sentUntil (world after : World) : List Bytes :=
  (after.channel.sent.take (after.channel.sent.length - world.channel.sent.length)).reverse

def nextSeq (world : World) : UInt32 :=
  Exchange.seqAfter world.session.exchange.seq

/-- The request of an operation, if it is to be sent now. -/
def dispatch? (world : World) (op : Operation) : Option Dispatch :=
  if op.isAsking world.now then
    some ⟨op.id, world.nextSeq, op.steps, world.sentUntil (world.pumpOne op).1⟩
  else none

def dispatchEach (world : World) : List Operation → List Dispatch
  | [] => []
  | op :: rest => (world.dispatch? op).toList ++ (world.pumpOne op).1.dispatchEach rest

def dispatches (world : World) : List Dispatch :=
  world.dispatchEach world.session.operations

theorem sentUntil_eq {world after : World} {datagrams : List Bytes}
    (h : after.channel.sent = datagrams.reverse ++ world.channel.sent) :
    world.sentUntil after = datagrams := by
  rw [sentUntil, h, List.length_append, Nat.add_sub_cancel, List.take_left, List.reverse_reverse]

/-- What can be sent for a step under a number: nothing, or its request in one datagram. -/
def Writes (world : World) (seq : UInt32) (step : Step) (datagrams : List Bytes) : Prop :=
  datagrams = [] ∨
    ∃ draft, world.requestOf step = .ok draft ∧ draft.seq = seq ∧ datagrams = [draft.toBytes]

theorem sent_transmit (world : World) (draft : Draft) (awaited : Awaited) :
    ((world.transmit draft awaited).1.channel.sent = world.channel.sent ∧
        ∃ fault, (world.transmit draft awaited).2 = .error fault) ∨
      (world.transmit draft awaited).1.channel.sent =
        (world.stamped draft).toBytes :: world.channel.sent := by
  cases hfaults : world.channel.sendFaults with
  | nil =>
      have hsend : (world.channel.send (world.stamped draft).toBytes).1.sent =
          (world.stamped draft).toBytes :: world.channel.sent := by
        rw [Channel.send, hfaults]
      refine Or.inr (Eq.trans ?_ hsend)
      rw [transmit, show world.session.exchange.advance.stamp draft =
        (world.stamped draft).toBytes from rfl]
      rcases world.channel.send (world.stamped draft).toBytes with ⟨channel, fault | done⟩ <;> rfl
  | cons fault rest =>
      rw [transmit_of_cons hfaults]
      exact Or.inl ⟨rfl, fault, rfl⟩

theorem exists_sent_transmitStep (world : World) (step : Step) :
    ∃ datagrams, world.Writes world.nextSeq step datagrams ∧
      (world.transmitStep step).1.channel.sent = datagrams.reverse ++ world.channel.sent ∧
      (datagrams = [] → ∃ fault, (world.transmitStep step).2 = .error fault) := by
  rcases world.transmitStep_cases step with ⟨fault, -, -, hsend⟩ | ⟨draft, -, hrequest, hsend⟩
  · rw [hsend]
    exact ⟨[], Or.inl rfl, rfl, fun _ => ⟨fault, rfl⟩⟩
  · rw [hsend]
    rcases world.sent_transmit (world.marked draft) .ack with ⟨hsent, hfault⟩ | hsent
    · exact ⟨[], Or.inl rfl, hsent, fun _ => hfault⟩
    · exact ⟨[_], Or.inr ⟨_, hrequest, rfl, rfl⟩, hsent, fun hnil => absurd hnil (by simp)⟩

theorem eq_nextSeq_of_transmitStep {world : World} {step : Step} {seq : UInt32}
    (h : (world.transmitStep step).2 = .ok seq) : seq = world.nextSeq := by
  rcases world.transmitStep_cases step with ⟨fault, -, -, hsend⟩ | ⟨draft, -, -, hsend⟩
  · rw [hsend] at h
    exact absurd h (by simp)
  · rw [hsend] at h
    exact (transmit_eq_ok (Prod.ext rfl h)).2

theorem pumpOne_of_not_asking {world : World} {op : Operation}
    (h : op.isAsking world.now = false) : world.pumpOne op = (world, .ok op) := by
  rw [Operation.isAsking, Bool.and_eq_false_iff, Bool.not_eq_false'] at h
  rcases h with hdue | hsteps
  · exact pumpOne_of_not_due hdue
  · rw [pumpOne, Operation.current?, List.isEmpty_iff.mp hsteps]
    rfl

/-- Whether the request of an operation is sent: the operation waits for the answer, or fails. -/
structure Issues (world : World) (op : Operation) (datagrams : List Bytes) (after : World)
    (result : Except Fault Operation) : Prop where
  writes : ∃ step rest, op.steps = step :: rest ∧ world.Writes world.nextSeq step datagrams
  sent : after.channel.sent = datagrams.reverse ++ world.channel.sent
  unsent : datagrams = [] → ∃ fault, result = .error fault
  waits : ∀ new, result = .ok new →
    ∃ deadline, new = { op with stage := .submitted world.nextSeq deadline }

theorem issues_pumpOne {world : World} {op : Operation} (h : op.isAsking world.now = true) :
    world.Issues op (world.sentUntil (world.pumpOne op).1) (world.pumpOne op).1
      (world.pumpOne op).2 := by
  obtain ⟨hdue, hsteps⟩ := Bool.and_eq_true_iff.mp h
  rw [Bool.not_eq_true', List.isEmpty_eq_false_iff] at hsteps
  obtain ⟨step, rest, hsteps⟩ := List.exists_cons_of_ne_nil hsteps
  obtain ⟨datagrams, hwrites, hsent, hunsent⟩ := world.exists_sent_transmitStep step
  have hpump : world.pumpOne op = ((world.transmitStep step).1,
      (world.transmitStep step).2.map fun seq =>
        { op with
          stage := .submitted seq (world.now + world.session.config.ackTimeout.nanos) }) := by
    refine pumpOne_of_due ?_ hdue
    rw [Operation.current?, hsteps]
    rfl
  rw [hpump, sentUntil_eq hsent]
  refine ⟨⟨step, rest, hsteps, hwrites⟩, hsent, fun hnil => ?_, fun new hnew => ?_⟩
  · obtain ⟨fault, hfault⟩ := hunsent hnil
    exact ⟨fault, by rw [hfault]; rfl⟩
  · obtain ⟨seq, hseq, rfl⟩ := map_eq_ok_iff.mp hnew
    rw [← eq_nextSeq_of_transmitStep hseq]
    exact ⟨_, rfl⟩

theorem pumpEach_cons_fst (world : World) (op : Operation) (rest : List Operation) :
    (world.pumpEach (op :: rest)).1 = ((world.pumpOne op).1.pumpEach rest).1 := by
  rw [pumpEach]
  rcases world.pumpOne op with ⟨middle, fault | pumped⟩ <;> rfl

theorem sent_pumpEach (world : World) (operations : List Operation) :
    (world.pumpEach operations).1.channel.sent =
      ((world.dispatchEach operations).flatMap Dispatch.datagrams).reverse ++
        world.channel.sent := by
  induction operations generalizing world with
  | nil => rfl
  | cons op rest ih =>
      have hfirst : (world.pumpOne op).1.channel.sent =
          ((world.dispatch? op).toList.flatMap Dispatch.datagrams).reverse ++
            world.channel.sent := by
        cases hasking : op.isAsking world.now with
        | false =>
            rw [pumpOne_of_not_asking hasking, dispatch?, hasking]
            rfl
        | true =>
            rw [(issues_pumpOne hasking).sent, dispatch?, if_pos hasking]
            simp
      rw [pumpEach_cons_fst, ih, hfirst, dispatchEach, List.flatMap_append, List.reverse_append,
        List.append_assoc]

theorem map_dispatchEach (world : World) (operations : List Operation) :
    (world.dispatchEach operations).map (fun dispatch => (dispatch.id, dispatch.left)) =
      (operations.filter (·.isAsking world.now)).map fun op => (op.id, op.steps) := by
  induction operations generalizing world with
  | nil => rfl
  | cons op rest ih =>
      rw [dispatchEach, List.map_append, ih, (sends_pumpOne world op).now, dispatch?,
        List.filter_cons]
      cases op.isAsking world.now <;> rfl

/-- Each request is written for the first step that is left to its operation; where nothing is sent,
the operation ends with a fault. -/
theorem writes_dispatchEach (world : World) (operations : List Operation) :
    ∀ dispatch ∈ world.dispatchEach operations,
      (∃ place step rest, world.Sends place ∧ dispatch.left = step :: rest ∧
        place.Writes dispatch.seq step dispatch.datagrams) ∧
      (dispatch.datagrams = [] →
        ∃ fault, (dispatch.id, .error fault) ∈ (world.pumpEach operations).2.2) := by
  induction operations generalizing world with
  | nil => exact fun _ hdispatch => absurd hdispatch List.not_mem_nil
  | cons op rest ih =>
      intro dispatch hdispatch
      rcases List.mem_append.mp hdispatch with hfirst | hmore
      · obtain ⟨hasking, hsame⟩ := Option.ite_none_right_eq_some.mp (Option.mem_toList.mp hfirst)
        obtain rfl := Option.some.inj hsame
        have hissues := issues_pumpOne hasking
        obtain ⟨step, left, hsteps, hwrites⟩ := hissues.writes
        refine ⟨⟨world, step, left, .refl world, hsteps, hwrites⟩, fun hnil => ?_⟩
        obtain ⟨fault, hfault⟩ := hissues.unsent hnil
        rw [pumpEach_cons_error (Prod.ext rfl hfault)]
        exact ⟨fault, List.mem_cons_self⟩
      · obtain ⟨⟨place, step, left, hsends, hwrites⟩, hunsent⟩ := ih _ dispatch hmore
        refine ⟨⟨place, step, left, (sends_pumpOne world op).trans hsends, hwrites⟩, fun hnil => ?_⟩
        obtain ⟨fault, hfault⟩ := hunsent hnil
        refine ⟨fault, ?_⟩
        rw [pumpEach]
        rcases hpump : world.pumpOne op with ⟨middle, _ | pumped⟩
        · rw [hpump] at hfault
          exact List.mem_cons_of_mem _ hfault
        · rw [hpump] at hfault
          exact hfault

theorem exists_of_mem_pumpEach (world : World) (operations : List Operation) :
    ∀ new ∈ (world.pumpEach operations).2.1, ∃ op ∈ operations,
      op.isAsking world.now = false ∧ new = op ∨
      op.isAsking world.now = true ∧ ∃ dispatch ∈ world.dispatchEach operations,
        dispatch.id = op.id ∧
          ∃ deadline, new = { op with stage := .submitted dispatch.seq deadline } := by
  induction operations generalizing world with
  | nil => exact fun _ hnew => absurd hnew List.not_mem_nil
  | cons op rest ih =>
      intro new hnew
      -- The requests of the others are made from the world that the first one leaves.
      have hmore (hnew : new ∈ ((world.pumpOne op).1.pumpEach rest).2.1) :
          ∃ other ∈ op :: rest, other.isAsking world.now = false ∧ new = other ∨
            other.isAsking world.now = true ∧ ∃ dispatch ∈ world.dispatchEach (op :: rest),
              dispatch.id = other.id ∧
                ∃ deadline, new = { other with stage := .submitted dispatch.seq deadline } := by
        obtain ⟨other, hother, hcases⟩ := ih _ new hnew
        rw [(sends_pumpOne world op).now] at hcases
        refine ⟨other, List.mem_cons_of_mem op hother, hcases.imp_right fun ⟨hasking, hasked⟩ => ?_⟩
        obtain ⟨dispatch, hdispatch, hwaits⟩ := hasked
        exact ⟨hasking, dispatch, List.mem_append_right _ hdispatch, hwaits⟩
      rcases hresult : (world.pumpOne op).2 with fault | pumped
      · rw [pumpEach_cons_error (Prod.ext rfl hresult)] at hnew
        exact hmore hnew
      · rw [pumpEach_cons_ok (Prod.ext rfl hresult)] at hnew
        rcases List.mem_cons.mp hnew with rfl | hnew
        · refine ⟨op, List.mem_cons_self, ?_⟩
          cases hasking : op.isAsking world.now with
          | false =>
              rw [pumpOne_of_not_asking hasking] at hresult
              exact Or.inl ⟨rfl, (Except.ok.inj hresult).symm⟩
          | true =>
              have hdispatch := List.mem_append_left ((world.pumpOne op).1.dispatchEach rest)
                (Option.mem_toList.mpr (if_pos hasking : world.dispatch? op = some _))
              exact Or.inr ⟨rfl, _, hdispatch, rfl, (issues_pumpOne hasking).waits new hresult⟩
        · exact hmore hnew

end World

end NetState
