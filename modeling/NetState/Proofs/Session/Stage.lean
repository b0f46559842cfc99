import NetState.Proofs.Session.Call
import NetState.Proofs.Session.Transmit

namespace NetState

namespace Operation

/-- Whether operations have numbers of their own below a limit, and those that have nothing left to
ask are the acknowledged ones. -/
structure Staged (limit : Nat) (operations : List Operation) : Prop where
  distinct : (operations.map Operation.id).Nodup
  below : ∀ op ∈ operations, op.id < limit
  acked : ∀ op ∈ operations, op.steps = [] ↔ op.isAcked = true

theorem acked_advance (op : Operation) (deadline : Nat) :
    (op.advance deadline).steps = [] ↔ (op.advance deadline).isAcked = true := by
  rw [advance, isAcked]
  cases htail : op.steps.tail <;> simp

theorem isAcked_of_seq? {op : Operation} {seq : UInt32} (h : op.seq? = some seq) :
    op.isAcked = false := by
  rw [seq?] at h
  rw [isAcked]
  split at h
  · rename_i hstage
    rw [hstage]
  · exact absurd h (by simp)

theorem seq?_of_isAcked {op : Operation} (h : op.isAcked = true) : op.seq? = none := by
  cases hseq : op.seq? with
  | none => rfl
  | some seq =>
      rw [isAcked_of_seq? hseq] at h
      exact absurd h (by simp)

theorem exists_deadline? {op : Operation} (now : Nat) (hdue : op.isDue now = false) :
    ∃ deadline, op.deadline? = some deadline := by
  rw [isDue] at hdue
  rw [deadline?]
  cases hstage : op.stage with
  | queued =>
      rw [hstage] at hdue
      exact absurd hdue (by simp)
  | submitted seq deadline => exact ⟨deadline, rfl⟩
  | backoff till => exact ⟨till, rfl⟩
  | acked deadline => exact ⟨deadline, rfl⟩

theorem map_id_update (operations : List Operation) (new : Operation) :
    (operations.map fun op => if op.id = new.id then new else op).map Operation.id =
      operations.map Operation.id := by
  rw [List.map_map]
  refine List.map_congr_left fun op _ => ?_
  simp only [Function.comp_apply]
  split
  · rename_i hid
    exact hid.symm
  · rfl

namespace Staged

variable {limit : Nat} {operations : List Operation}

theorem nil (limit : Nat) : Staged limit [] :=
  ⟨List.nodup_nil, fun _ hmem => absurd hmem List.not_mem_nil,
    fun _ hmem => absurd hmem List.not_mem_nil⟩

theorem mono (h : Staged limit operations) {higher : Nat} (hhigher : limit ≤ higher) :
    Staged higher operations :=
  ⟨h.distinct, fun op hop => Nat.lt_of_lt_of_le (h.below op hop) hhigher, h.acked⟩

theorem filter (h : Staged limit operations) (keep : Operation → Bool) :
    Staged limit (operations.filter keep) where
  distinct := h.distinct.sublist (List.filter_sublist.map _)
  below op hop := h.below op (List.mem_of_mem_filter hop)
  acked op hop := h.acked op (List.mem_of_mem_filter hop)

theorem update (h : Staged limit operations) {new : Operation}
    (hacked : new.steps = [] ↔ new.isAcked = true) :
    Staged limit (operations.map fun op => if op.id = new.id then new else op) where
  distinct := by
    rw [map_id_update]
    exact h.distinct
  below op hop := by
    obtain ⟨old, hold, rfl⟩ := List.mem_map.mp hop
    split
    · rename_i hid
      exact hid ▸ h.below old hold
    · exact h.below old hold
  acked op hop := by
    obtain ⟨old, hold, rfl⟩ := List.mem_map.mp hop
    split
    · exact hacked
    · exact h.acked old hold

theorem append {id : Nat} (h : Staged id operations) (target : Object) (goal : Goal)
    {steps : List Step} (hsteps : steps ≠ []) :
    Staged (id + 1) (operations ++ [⟨id, target, goal, steps, .queued, 0⟩]) where
  distinct := by
    rw [List.map_append, List.nodup_append]
    refine ⟨h.distinct, by simp, ?_⟩
    intro number hnumber other hother
    obtain ⟨op, hop, rfl⟩ := List.mem_map.mp hnumber
    have hbelow := h.below op hop
    simp only [List.map_cons, List.map_nil, List.mem_singleton] at hother
    omega
  below op hop := by
    rcases List.mem_append.mp hop with hop | hop
    · exact Nat.lt_succ_of_lt (h.below op hop)
    · rw [List.mem_singleton.mp hop]
      exact Nat.lt_succ_self id
  acked op hop := by
    rcases List.mem_append.mp hop with hop | hop
    · exact h.acked op hop
    · rw [List.mem_singleton.mp hop]
      exact iff_of_false hsteps (by simp [isAcked])

end Staged

end Operation

namespace Session

/-- Whether a session comes from another one in that operations ended or went on. -/
structure Progresses (session after : Session) : Prop where
  nextId : after.nextId = session.nextId
  staged : ∀ {limit}, Operation.Staged limit session.operations →
    Operation.Staged limit after.operations

namespace Progresses

variable {session middle after : Session}

theorem refl (session : Session) : session.Progresses session :=
  ⟨rfl, id⟩

theorem trans (h : session.Progresses middle) (hmore : middle.Progresses after) :
    session.Progresses after :=
  ⟨hmore.nextId.trans h.nextId, fun hstaged => hmore.staged (h.staged hstaged)⟩

theorem of_filter {keep : Operation → Bool} (hnext : after.nextId = session.nextId)
    (hoperations : after.operations = session.operations.filter keep) :
    session.Progresses after :=
  ⟨hnext, fun hstaged => hoperations ▸ hstaged.filter keep⟩

end Progresses

theorem progresses_conclude (session : Session)
    (verdict : Operation → Option (Except Fault Outcome)) :
    session.Progresses (session.conclude verdict) :=
  .of_filter rfl rfl

theorem progresses_confirm (session : Session) : session.Progresses session.confirm :=
  progresses_conclude session _

theorem progresses_expire (session : Session) (now : Nat) :
    session.Progresses (session.expire now) :=
  .of_filter rfl rfl

theorem progresses_abandon (session : Session) (interface : UInt32) :
    session.Progresses (session.abandon interface) :=
  .of_filter rfl rfl

theorem progresses_update (session : Session) {op : Operation}
    (hacked : op.steps = [] ↔ op.isAcked = true) : session.Progresses (session.update op) :=
  ⟨rfl, fun hstaged => hstaged.update hacked⟩

theorem Replied.progresses {session after : Session} {now : Nat} {seq : UInt32}
    {result : Except Fault Reply} (h : session.Replied now seq result after) :
    session.Progresses after := by
  cases h with
  | ignored => exact .refl session
  | acked | skipped => exact progresses_update session (Operation.acked_advance _ _)
  | gone | failed => exact .of_filter rfl rfl
  | postponed hfind =>
      refine ⟨rfl, fun hstaged => hstaged.update ?_⟩
      have hnot := hstaged.acked _ (List.mem_of_find?_eq_some hfind)
      rw [Operation.isAcked_of_seq? (seq?_of_find? hfind)] at hnot
      exact hnot

theorem progresses_takeRemoval (session : Session) (slot : Slot) :
    session.Progresses (session.takeRemoval slot) := by
  have hconfirm : session.Progresses
      ({ session with watched := (session.watched.remove slot).2 } : Session).confirm :=
    .of_filter rfl rfl
  rcases session.takeRemoval_cases slot with ⟨-, hkept⟩ | ⟨l, -, hgone⟩
  · rw [hkept]
    exact hconfirm
  · rw [hgone]
    exact hconfirm.trans (progresses_abandon _ _)

theorem progresses_take (session : Session) (now : Nat) (incoming : Incoming) :
    session.Progresses (session.take now incoming) := by
  cases incoming with
  | notice kind change object =>
      cases change with
      | new => exact .of_filter rfl rfl
      | del => exact progresses_takeRemoval session _
  | reply seq result =>
      exact (session.replied_takeReply now seq result).progresses.trans (progresses_confirm _)
  | part seq objects => exact progresses_confirm session
  | overrun => exact .of_filter rfl rfl

theorem progresses_takeAll (session : Session) (now : Nat) (incoming : List Incoming) :
    session.Progresses (incoming.foldl (Session.take · now) session) := by
  induction incoming generalizing session with
  | nil => exact .refl session
  | cons first rest ih => exact (progresses_take session now first).trans (ih _)

theorem progresses_foldl_abandon (session : Session) (interfaces : List UInt32) :
    session.Progresses (interfaces.foldl abandon session) := by
  induction interfaces generalizing session with
  | nil => exact .refl session
  | cons first rest ih => exact (progresses_abandon session first).trans (ih _)

theorem progresses_reconcile (session : Session) (kind : Kind) (objects : List Object) :
    session.Progresses (session.reconcile kind objects).2 := by
  rw [reconcile]
  refine Progresses.trans ?_ (progresses_foldl_abandon _ _)
  exact .of_filter rfl rfl

/-- Whether no operation waits for news that the inventory shows. -/
def Hidden (session : Session) : Prop :=
  ∀ op ∈ session.operations, session.confirmation? op = none

namespace Hidden

variable {session after : Session}

theorem mono (h : session.Hidden) (hinventory : after.inventory = session.inventory)
    (hoperations : ∀ op ∈ after.operations, op.isAcked = true → op ∈ session.operations) :
    after.Hidden := by
  intro op hop
  rw [confirmation?]
  split
  · rename_i hacked
    have hbefore := h op (hoperations op hop hacked)
    rw [confirmation?, if_pos hacked] at hbefore
    rw [hinventory]
    exact hbefore
  · rfl

theorem filter (h : session.Hidden) {keep : Operation → Bool}
    (hinventory : after.inventory = session.inventory)
    (hoperations : after.operations = session.operations.filter keep) : after.Hidden := by
  refine h.mono hinventory fun op hop _ => ?_
  rw [hoperations] at hop
  exact List.mem_of_mem_filter hop

theorem abandon (h : session.Hidden) (interface : UInt32) : (session.abandon interface).Hidden :=
  h.filter rfl rfl

theorem expire (h : session.Hidden) (now : Nat) : (session.expire now).Hidden :=
  h.filter rfl rfl

end Hidden

theorem hidden_confirm (session : Session) : session.confirm.Hidden := by
  intro op hop
  have hnone := (List.mem_filter.mp hop).2
  rw [Option.isNone_map, Option.isNone_iff_eq_none] at hnone
  exact hnone

theorem hidden_takeRemoval (session : Session) (slot : Slot) :
    (session.takeRemoval slot).Hidden := by
  rcases session.takeRemoval_cases slot with ⟨-, hkept⟩ | ⟨l, -, hgone⟩
  · rw [hkept]
    exact hidden_confirm _
  · rw [hgone]
    exact (hidden_confirm _).abandon _

theorem hidden_take (session : Session) (now : Nat) (incoming : Incoming) :
    (session.take now incoming).Hidden := by
  cases incoming with
  | notice kind change object =>
      cases change with
      | new => exact hidden_confirm _
      | del => exact hidden_takeRemoval session _
  | reply seq result => exact hidden_confirm _
  | part seq objects => exact hidden_confirm _
  | overrun => exact hidden_confirm _

theorem Hidden.takeAll {session : Session} (h : session.Hidden) (now : Nat)
    (incoming : List Incoming) : (incoming.foldl (Session.take · now) session).Hidden :=
  List.foldlRecOn incoming _ h fun _ _ _ _ => hidden_take _ _ _

theorem hidden_reconcile (session : Session) (kind : Kind) (objects : List Object) :
    (session.reconcile kind objects).2.Hidden := by
  rw [reconcile]
  exact List.foldlRecOn _ _ (hidden_confirm _) fun _ hbefore _ _ => hbefore.abandon _

end Session

namespace World

/-- Whether a world differs from another one in the socket and the exchange alone. -/
structure Sends (world after : World) : Prop where
  now : after.now = world.now
  session : after.session = { world.session with exchange := after.session.exchange }

namespace Sends

variable {world middle after : World}

theorem refl (world : World) : world.Sends world :=
  ⟨rfl, rfl⟩

theorem trans (h : world.Sends middle) (hmore : middle.Sends after) : world.Sends after := by
  refine ⟨hmore.now.trans h.now, ?_⟩
  rw [hmore.session, h.session]

end Sends

theorem sends_transmit {world after : World} {draft : Draft} {awaited : Awaited}
    {result : Except Fault UInt32} (h : world.transmit draft awaited = (after, result)) :
    world.Sends after := by
  rw [transmit] at h
  simp only at h
  split at h <;> cases h <;> exact ⟨rfl, rfl⟩

theorem sends_transmitStep (world : World) (step : Step) :
    world.Sends (world.transmitStep step).1 := by
  rcases world.transmitStep_cases step with ⟨fault, -, -, hsend⟩ | ⟨draft, -, -, hsend⟩
  · rw [hsend]
    exact .refl world
  · rw [hsend]
    exact sends_transmit rfl

theorem sends_pumpOne (world : World) (op : Operation) : world.Sends (world.pumpOne op).1 := by
  rcases world.pumpOne_cases op with ⟨-, hrest⟩ | ⟨step, -, -, hsend⟩
  · rw [hrest]
    exact .refl world
  · rw [hsend]
    exact sends_transmitStep world step

end World

/-- Whether an operation is another one after its request was sent if that was due. -/
structure Operation.Pumped (now : Nat) (op after : Operation) : Prop where
  id : after.id = op.id
  steps : after.steps = op.steps
  acked : after.isAcked = op.isAcked
  same : after.isAcked = true → after = op
  rests : after.steps = [] ∨ after.isDue now = false

theorem Operation.exists_of_forall₂ {now : Nat} {operations kept : List Operation}
    (h : List.Forall₂ (Pumped now) operations kept) {op : Operation} (hop : op ∈ kept) :
    ∃ old ∈ operations, old.Pumped now op := by
  induction h with
  | nil => exact absurd hop List.not_mem_nil
  | @cons old first _ _ hpump _ ih =>
      rcases List.mem_cons.mp hop with rfl | hop
      · exact ⟨old, List.mem_cons_self, hpump⟩
      · obtain ⟨found, hfound, hpump⟩ := ih hop
        exact ⟨found, List.mem_cons_of_mem old hfound, hpump⟩

theorem Operation.ids_of_forall₂ {now : Nat} {operations kept : List Operation}
    (h : List.Forall₂ (Pumped now) operations kept) :
    kept.map Operation.id = operations.map Operation.id := by
  induction h with
  | nil => rfl
  | cons hpump _ ih => rw [List.map_cons, List.map_cons, hpump.id, ih]

namespace World

theorem pumped_pumpOne {world after : World} {op pumped : Operation}
    (h : world.pumpOne op = (after, .ok pumped)) : op.Pumped world.now pumped := by
  rcases world.pumpOne_cases op with ⟨hidle, hrest⟩ | ⟨step, -, hdue, hsend⟩
  · cases hrest.symm.trans h
    exact ⟨rfl, rfl, rfl, fun _ => rfl, hidle.imp_left List.head?_eq_none_iff.mp⟩
  · obtain ⟨seq, -, rfl⟩ := map_eq_ok_iff.mp (congrArg Prod.snd (hsend.symm.trans h))
    have hnot : op.isAcked = false := by
      rw [Operation.isDue] at hdue
      rw [Operation.isAcked]
      split
      · rename_i hstage
        rw [hstage] at hdue
        exact absurd hdue (by simp)
      · rfl
    exact ⟨rfl, rfl, hnot.symm, fun hacked => absurd hacked (by simp [Operation.isAcked]),
      Or.inr rfl⟩

theorem pumpEach_cons_ok {world middle : World} {op pumped : Operation}
    (h : world.pumpOne op = (middle, .ok pumped)) (rest : List Operation) :
    world.pumpEach (op :: rest) =
      ((middle.pumpEach rest).1, pumped :: (middle.pumpEach rest).2.1,
        (middle.pumpEach rest).2.2) := by
  rw [pumpEach, h]

theorem pumpEach_cons_error {world middle : World} {op : Operation} {fault : Fault}
    (h : world.pumpOne op = (middle, .error fault)) (rest : List Operation) :
    world.pumpEach (op :: rest) =
      ((middle.pumpEach rest).1, (middle.pumpEach rest).2.1,
        (op.id, .error fault) :: (middle.pumpEach rest).2.2) := by
  rw [pumpEach, h]

theorem exists_pumped (world : World) (operations : List Operation) :
    world.Sends (world.pumpEach operations).1 ∧
      ∃ left, left.Sublist operations ∧
        List.Forall₂ (Operation.Pumped world.now) left (world.pumpEach operations).2.1 := by
  -- On the operations still to be pumped; sending changes neither the time nor the other
  -- operations.
  induction operations generalizing world with
  | nil => exact ⟨.refl world, [], List.Sublist.slnil, List.Forall₂.nil⟩
  | cons op rest ih =>
      have hsends := sends_pumpOne world op
      rcases hone : world.pumpOne op with ⟨middle, fault | pumped⟩
      · rw [hone] at hsends
        obtain ⟨hmore, left, hleft, hpumped⟩ := ih middle
        rw [hsends.now] at hpumped
        rw [pumpEach_cons_error hone]
        exact ⟨hsends.trans hmore, left, hleft.cons op, hpumped⟩
      · rw [hone] at hsends
        obtain ⟨hmore, left, hleft, hpumped⟩ := ih middle
        rw [hsends.now] at hpumped
        rw [pumpEach_cons_ok hone]
        exact ⟨hsends.trans hmore, op :: left, hleft.cons_cons op,
          List.Forall₂.cons (pumped_pumpOne hone) hpumped⟩

theorem pump_eq (world : World) :
    world.pump = (world.pumpEach world.session.operations).1.mapSession fun s =>
      { s with
        operations := (world.pumpEach world.session.operations).2.1
        results := s.results ++ (world.pumpEach world.session.operations).2.2 } :=
  rfl

theorem pumpEach_of_not_due {world : World} {operations : List Operation}
    (h : ∀ op ∈ operations, op.isDue world.now = false) :
    world.pumpEach operations = (world, operations, []) := by
  induction operations with
  | nil => rfl
  | cons op rest ih =>
      rw [pumpEach_cons_ok (pumpOne_of_not_due (h op List.mem_cons_self)),
        ih fun other hother => h other (List.mem_cons_of_mem op hother)]

theorem pump_of_not_due {world : World}
    (h : ∀ op ∈ world.session.operations, op.isDue world.now = false) : world.pump = world := by
  rw [pump_eq, pumpEach_of_not_due h]
  simp only [List.append_nil]
  rfl

/-- Pumping changes nothing of a session but its exchange, its operations and the results. -/
theorem session_pump (world : World) :
    ∃ exchange results, world.pump.session =
      { world.session with
        exchange, results, operations := (world.pumpEach world.session.operations).2.1 } := by
  have hsends := (exists_pumped world world.session.operations).1
  refine ⟨(world.pumpEach world.session.operations).1.session.exchange,
    (world.pumpEach world.session.operations).1.session.results ++
      (world.pumpEach world.session.operations).2.2, ?_⟩
  rw [pump_eq, mapSession, hsends.session]

theorem nextId_pump (world : World) : world.pump.session.nextId = world.session.nextId := by
  obtain ⟨exchange, results, hsession⟩ := session_pump world
  rw [hsession]

theorem inventory_pump (world : World) :
    world.pump.session.inventory = world.session.inventory := by
  obtain ⟨exchange, results, hsession⟩ := session_pump world
  rw [hsession]
  rfl

theorem exists_pumped_pump (world : World) :
    ∃ left, left.Sublist world.session.operations ∧
      List.Forall₂ (Operation.Pumped world.now) left world.pump.session.operations := by
  obtain ⟨exchange, results, hsession⟩ := session_pump world
  rw [hsession]
  exact (exists_pumped world world.session.operations).2

theorem exists_pumped_of_mem {world : World} {op : Operation}
    (hop : op ∈ world.pump.session.operations) :
    ∃ old ∈ world.session.operations, old.Pumped world.now op := by
  obtain ⟨left, hleft, hpumped⟩ := exists_pumped_pump world
  obtain ⟨old, hold, hpump⟩ := Operation.exists_of_forall₂ hpumped hop
  exact ⟨old, hleft.subset hold, hpump⟩

theorem staged_pump {world : World} {limit : Nat}
    (h : Operation.Staged limit world.session.operations) :
    Operation.Staged limit world.pump.session.operations where
  distinct := by
    obtain ⟨left, hleft, hpumped⟩ := exists_pumped_pump world
    rw [Operation.ids_of_forall₂ hpumped]
    exact h.distinct.sublist (hleft.map _)
  below op hop := by
    obtain ⟨old, hold, hpump⟩ := exists_pumped_of_mem hop
    exact hpump.id ▸ h.below old hold
  acked op hop := by
    obtain ⟨old, hold, hpump⟩ := exists_pumped_of_mem hop
    rw [hpump.steps, hpump.acked]
    exact h.acked old hold

theorem hidden_pump {world : World} (h : world.session.Hidden) : world.pump.session.Hidden := by
  refine h.mono (inventory_pump world) fun op hop hacked => ?_
  obtain ⟨old, hold, hpump⟩ := exists_pumped_of_mem hop
  rw [hpump.same hacked]
  exact hold

/-- After pumping, there is a time for every operation at which something is done about it. -/
theorem exists_deadline?_pump {world : World} {limit : Nat}
    (h : Operation.Staged limit world.session.operations) {op : Operation}
    (hop : op ∈ world.pump.session.operations) : ∃ deadline, op.deadline? = some deadline := by
  obtain ⟨old, -, hpump⟩ := exists_pumped_of_mem hop
  rcases hpump.rests with hsteps | hdue
  · refine Operation.exists_deadline? world.now ?_
    have hacked := ((staged_pump h).acked op hop).mp hsteps
    rw [Operation.isAcked] at hacked
    rw [Operation.isDue]
    split at hacked
    · rename_i hstage
      rw [hstage]
    · exact absurd hacked (by simp)
  · exact Operation.exists_deadline? world.now hdue

end World

/-- What is known of the operations under way while a call is made. -/
structure World.InOrder (control : Control) (world : World) : Prop where
  staged : Operation.Staged (control.reserved.getD world.session.nextId) world.session.operations
  reserved : ∀ id, control.reserved = some id → id < world.session.nextId
  hidden : world.session.Hidden

theorem Control.reserved_answered (control : Control) (kind : Kind)
    (answer : Option (Except Fault Reply)) :
    (control.answered kind answer).reserved = control.reserved := by
  rcases answer with _ | _ | _ | _ <;> rfl

namespace World.InOrder

variable {control next : Control} {world after : World}

theorem progress (h : world.InOrder control) (hreserved : next.reserved = control.reserved)
    (hprogresses : world.session.Progresses after.session) (hhidden : after.session.Hidden) :
    after.InOrder next := by
  refine ⟨?_, ?_, hhidden⟩
  · rw [hreserved, hprogresses.nextId]
    exact hprogresses.staged h.staged
  · rw [hreserved, hprogresses.nextId]
    exact h.reserved

theorem same (h : world.InOrder control) (hreserved : next.reserved = control.reserved)
    (hinventory : after.session.inventory = world.session.inventory)
    (hoperations : after.session.operations = world.session.operations)
    (hnext : after.session.nextId = world.session.nextId) : after.InOrder next := by
  refine h.progress hreserved ⟨hnext, fun hstaged => hoperations ▸ hstaged⟩ ?_
  exact h.hidden.mono hinventory fun op hop _ => hoperations ▸ hop

theorem sends (h : world.InOrder control) (hreserved : next.reserved = control.reserved)
    (hsends : world.Sends after) : after.InOrder next := by
  have hsession := hsends.session
  exact h.same hreserved (by rw [hsession]; rfl) (by rw [hsession]) (by rw [hsession])

theorem release (h : world.InOrder control) : world.InOrder { control with reserved := none } := by
  refine ⟨h.staged.mono ?_, fun _ hsome => absurd hsome (by simp), h.hidden⟩
  cases hreserved : control.reserved with
  | none => exact Nat.le_refl _
  | some id => exact Nat.le_of_lt (h.reserved id hreserved)

theorem absorbed (h : world.InOrder control) (hreserved : next.reserved = control.reserved)
    {channel : Channel} {exchange : Exchange} {incoming : List Incoming} :
    (world.absorbed channel exchange incoming).InOrder next := by
  have hsame : ({ world.session with exchange } : Session).Hidden := h.hidden
  have hprogresses :=
    Session.progresses_takeAll { world.session with exchange } world.now incoming
  exact h.progress hreserved ⟨hprogresses.nextId, hprogresses.staged⟩
    (hsame.takeAll world.now incoming)

theorem expire (h : world.InOrder control) (hreserved : next.reserved = control.reserved) :
    world.expire.InOrder next :=
  h.progress hreserved (Session.progresses_expire _ _) (h.hidden.expire _)

theorem move {marks : List Mark} (hmove : Move control world marks next after)
    (h : world.InOrder control) : after.InOrder next := by
  cases hmove with
  | ask hlisting htransmit => exact h.sends rfl (sends_transmit htransmit)
  | askInVain hlisting htransmit => exact h.sends rfl (sends_transmit htransmit)
  | hear hlisting hreceived hexchange =>
      exact (@absorbed control control world h rfl _ _ _).expire (control.reserved_answered _ _)
  | cutOff => exact h.same rfl rfl rfl rfl
  | giveUp => exact h.same rfl rfl rfl rfl
  | @sync kind objects hlisting hgathers hround =>
      exact h.progress rfl (Session.progresses_reconcile _ kind objects)
        (Session.hidden_reconcile _ kind objects)
  | begin => exact h.same rfl rfl rfl rfl
  | take hlisting hreceived hexchange => exact h.absorbed rfl
  | miss => exact h.same rfl rfl rfl rfl
  | pass => exact h.same rfl rfl rfl rfl
  | expire => exact h.expire rfl
  | pump =>
      refine h.progress rfl ⟨nextId_pump world, fun hstaged => staged_pump hstaged⟩ ?_
      exact hidden_pump h.hidden
  | reserve =>
      refine ⟨h.release.staged, ?_, h.hidden.mono rfl fun _ hop _ => hop⟩
      rintro _ ⟨rfl⟩
      exact Nat.lt_succ_self _
  | start target goal hlisting hreserved hsteps =>
      have hstaged := h.staged
      rw [hreserved] at hstaged
      refine ⟨(hstaged.append target goal hsteps).mono (h.reserved _ hreserved),
        fun _ hsome => absurd hsome (by simp), h.hidden.mono rfl fun op hop hacked => ?_⟩
      rcases List.mem_append.mp hop with hop | hop
      · exact hop
      · rw [List.mem_singleton.mp hop] at hacked
        exact absurd hacked (by simp [Operation.isAcked])
  | note results => exact h.release.same rfl rfl rfl rfl
  | probe probe => exact h.same rfl rfl rfl rfl

end World.InOrder

/-- After every call, whatever befalls the socket, the operations under way are in order. -/
theorem Operated.inOrder {trace : List Mark} {world : World} (h : Operated trace world) :
    world.InOrder .idle := by
  refine @keeps _ _ (fun _ control world => world.InOrder control) h ?opened ?disturbed ?watched
    ?moved ?failed
  case opened =>
    intro config files channel
    exact ⟨.nil _, fun _ hsome => absurd hsome (by simp [Control.idle]),
      fun _ hop => absurd hop List.not_mem_nil⟩
  case disturbed =>
    intro _ world now horizon channel hworld
    exact hworld.same rfl rfl rfl rfl
  case watched =>
    intro _ world watched hsame hworld
    exact hworld.same rfl hsame rfl rfl
  case moved =>
    intro _ _ control next world after hmove hworld
    exact hworld.move hmove
  case failed =>
    intro _ control world _ hworld
    exact hworld.release.same rfl rfl rfl rfl

end NetState
