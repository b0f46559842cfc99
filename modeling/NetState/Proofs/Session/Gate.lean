import NetState.Proofs.Session.Apply
import NetState.Proofs.Session.Lasting
import NetState.Proofs.Session.Numbering

namespace NetState

/-- The features of the kernel allow a step: whatever is there may be deleted. -/
def Step.IsPermitted (support : Support) (step : Step) : Prop :=
  step.verb ≠ .delete → support.permit step.object = .ok ()

/-- A datagram is the request of a step that puts something in place, and the features of the kernel
allow that. -/
def Config.Requests (config : Config) (support : Support) (datagram : Bytes) : Prop :=
  ∃ (step : Step) (draft : Draft) (seq pid : UInt32),
    step.verb ≠ .delete ∧ support.permit step.object = .ok () ∧
    step.object.request step.verb = .ok draft ∧
    datagram =
      ((if config.echo then draft.addFlags Flag.echo else draft).addressed seq pid).toBytes

namespace Plan

variable {support : Support} {existing desired : Object} {steps : List Step}

theorem isPermitted_adapt (h : support.permit desired = .ok ())
    (hadapt : adapt support existing desired = .ok steps) :
    ∀ step ∈ steps, step.IsPermitted support := by
  have hwanted (verb : Verb) : (Step.mk desired verb).IsPermitted support := fun _ => h
  have hroom : (Step.mk existing .delete).IsPermitted support := fun hverb => absurd rfl hverb
  rcases adapt_cases hadapt with ⟨known, wanted, -, rfl, -, rfl⟩ | ⟨-, rfl | rfl | rfl⟩
  · exact List.forall_mem_singleton.mpr fun _ => h
  · exact List.forall_mem_singleton.mpr (hwanted .create)
  · exact List.forall_mem_singleton.mpr (hwanted .replace)
  · exact List.forall_mem_cons.mpr ⟨hroom, List.forall_mem_singleton.mpr (hwanted .create)⟩

theorem isPermitted_toAdd {inventory : Inventory} (h : support.permit desired = .ok ())
    (hplan : toAdd inventory support desired = .ok (.steps steps)) :
    ∀ step ∈ steps, step.IsPermitted support := by
  rcases toAdd_cases hplan with ⟨-, hnew⟩ | ⟨existing, -, ⟨-, hnone⟩ | ⟨found, hadapt, hold⟩⟩
  · cases hnew
    exact List.forall_mem_singleton.mpr fun _ => h
  · cases hnone
  · cases hold
    exact isPermitted_adapt h hadapt

theorem isPermitted_toDelete {inventory : Inventory} {target : Object}
    (hplan : toDelete inventory desired = (target, .steps steps)) :
    ∀ step ∈ steps, step.IsPermitted support := by
  rw [eq_of_toDelete hplan]
  exact List.forall_mem_singleton.mpr fun hverb => absurd rfl hverb

end Plan

/-- What is to be done for a wanted object, if the features of the kernel are known. -/
def Session.plan (session : Session) (support : Support) (desired : Object) :
    Goal → Except Fault (Object × Plan)
  | .present => do
    support.permit desired
    return (desired, ← Plan.toAdd session.inventory support desired)
  | .absent => return Plan.toDelete session.inventory desired

theorem Session.isPermitted_plan {session : Session} {support : Support} {desired target : Object}
    {goal : Goal} {steps : List Step}
    (h : session.plan support desired goal = .ok (target, .steps steps)) :
    ∀ step ∈ steps, step.IsPermitted support := by
  cases goal with
  | present =>
      obtain ⟨⟨⟩, hpermit, h⟩ := bind_eq_ok_iff.mp h
      obtain ⟨plan, hplan, h⟩ := bind_eq_ok_iff.mp h
      cases h
      exact Plan.isPermitted_toAdd hpermit hplan
  | absent => exact Plan.isPermitted_toDelete (Except.ok.inj h)

namespace Flow

variable {world : World} {support : Support}

theorem result_plan (desired : Object) {goal : Goal}
    (hknown : goal = .absent ∨ world.session.probe.answer = some support) :
    result (plan desired goal) world =
      ((world.session.plan support desired goal).mapError .fault, world) := by
  cases goal with
  | present =>
      have hanswer := hknown.resolve_left (by simp)
      rw [plan, result_bind, result_support hanswer]
      cases hpermit : support.permit desired with
      | error fault =>
          simp only [result_bind, result_ofExcept, hpermit, Session.plan]
          rfl
      | ok _ =>
          cases hplan : Plan.toAdd world.session.inventory support desired <;>
            simp only [result_bind, result_ofExcept, result_get, hpermit, hplan, Except.mapError,
              Session.plan] <;>
            rfl
  | absent => rfl

/-- What a call to submit an operation comes to, if the features of the kernel are known or nothing
is to be put in place. -/
theorem result_submit (desired : Object) {goal : Goal}
    (hknown : goal = .absent ∨ world.session.probe.answer = some support) :
    result (submit desired goal) world =
      match desired.validate with
      | .error fault => (.error (.fault fault), world)
      | .ok () =>
        let reserved := world.mapSession ({ · with nextId := world.session.nextId + 1 })
        match world.session.plan support desired goal with
        | .error fault => (.error (.fault fault), reserved)
        | .ok (_, .done outcome) =>
          (.ok world.session.nextId, reserved.mapSession fun s =>
            { s with results := s.results ++ [(world.session.nextId, .ok outcome)] })
        | .ok (target, .steps steps) =>
          let pumped := (world.started target goal steps).pump
          (if pumped.channel.peer.crashed then .error .crash else .ok world.session.nextId,
            pumped) := by
  rw [submit, result_bind, result_ofExcept]
  cases desired.validate with
  | error fault => rfl
  | ok _ =>
      have hreserved := @result_plan (world.mapSession
        ({ · with nextId := world.session.nextId + 1 })) support desired goal hknown
      have hplan : (world.mapSession ({ · with nextId := world.session.nextId + 1 })).session.plan
          support desired goal = world.session.plan support desired goal := by cases goal <;> rfl
      simp only [Except.mapError, result_bind, result_get, result_session, hreserved, hplan]
      rcases world.session.plan support desired goal with fault | ⟨target, outcome | steps⟩
      · rfl
      · rfl
      · show result (pump >>= fun _ => pure world.session.nextId)
          (world.started target goal steps) = _
        simp only [result_bind, result_pump]
        cases hcrashed : (world.started target goal steps).pump.channel.peer.crashed <;> rfl

end Flow

/-- A datagram is the request of a step that the features of the kernel allow, or it asks for
nothing to be put in place. -/
def Config.Admits (config : Config) (support : Support) (datagram : Bytes) : Prop :=
  config.Requests support datagram ∨ ∀ message ∈ Exchange.messages datagram,
    Object.newTypes.contains message.header.kind = false

theorem Config.admits_of_kind (config : Config) (support : Support) {draft : Draft}
    (hmeasured : draft.IsMeasured) (htype : Object.newTypes.contains draft.kind = false) :
    config.Admits support draft.toBytes := by
  refine Or.inr fun message hmessage => ?_
  rw [Exchange.messages_toBytes hmeasured, List.mem_singleton] at hmessage
  rw [hmessage]
  exact htype

theorem Object.newTypes_of_changeOf? {type : UInt16} (h : changeOf? type = none) :
    newTypes.contains type = false := by
  rw [← Bool.not_eq_true]
  intro hnew
  rw [changeOf?, if_pos hnew] at h
  exact absurd h (by simp)

theorem Object.newTypes_delType (object : Object) :
    newTypes.contains object.kind.delType = false := by
  cases object.kind <;> decide

namespace World

theorem left_started (world : World) (target : Object) (goal : Goal) (steps : List Step) :
    (world.started target goal steps).session.left = world.session.left ++ steps := by
  rw [Session.left, Session.left, started, mapSession, List.flatMap_append, List.flatMap_singleton]

/-- Everything that was sent and everything that operations have left is allowed. -/
structure Gated (config : Config) (support : Support) (world : World) : Prop where
  configured : world.session.config = config
  answer : world.session.probe.answer = some support
  left : ∀ step ∈ world.session.left, step.IsPermitted support
  sent : ∀ datagram ∈ world.channel.sent, config.Admits support datagram

namespace Gated

variable {config : Config} {support : Support} {world : World}

theorem channel (h : world.Gated config support) {channel : Channel}
    (hsent : channel.sent = world.channel.sent) (now horizon : Nat) :
    Gated config support { world with now, horizon, channel } :=
  ⟨h.configured, h.answer, h.left, hsent ▸ h.sent⟩

theorem relieve (h : world.Gated config support) {after : Session}
    (hafter : world.session.Relieves after) :
    Gated config support { world with session := after } :=
  ⟨hafter.config.trans h.configured, (congrArg _ hafter.probe).trans h.answer,
    fun step hstep => h.left step (hafter.left hstep), h.sent⟩

theorem transmit (h : world.Gated config support) {draft : Draft} (awaited : Awaited)
    (hadmits : config.Admits support (world.stamped draft).toBytes) :
    Gated config support (world.transmit draft awaited).1 := by
  have hsession := (sends_transmit (Prod.eta (world.transmit draft awaited)).symm).session
  refine ⟨?_, ?_, ?_, ?_⟩
  · rw [hsession]
    exact h.configured
  · rw [hsession]
    exact h.answer
  · rw [hsession]
    exact h.left
  · rw [channel_transmit]
    rcases world.channel.send_cases (world.stamped draft).toBytes with ⟨-, hsent⟩ | ⟨-, hsent⟩ <;>
      rw [hsent]
    · exact h.sent
    · exact List.forall_mem_cons.mpr ⟨hadmits, h.sent⟩

theorem transmitStep (h : world.Gated config support) {step : Step}
    (hstep : step.IsPermitted support) : Gated config support (world.transmitStep step).1 := by
  rcases world.transmitStep_cases step with ⟨fault, -, -, hsend⟩ | ⟨draft, hrequest, hof, hsend⟩
  · rw [hsend]
    exact h
  · rw [hsend]
    refine h.transmit .ack ?_
    by_cases hverb : step.verb = .delete
    · obtain ⟨fields, -, -, hdraft⟩ := requestOf_eq_ok hof
      refine config.admits_of_kind support (isMeasured_requestOf hof) ?_
      rw [hdraft, hverb]
      exact step.object.newTypes_delType
    · rw [marked, h.configured]
      exact Or.inl ⟨step, draft, _, _, hverb, hstep hverb, hrequest, rfl⟩

theorem started (h : world.Gated config support) {target : Object} {goal : Goal} {steps : List Step}
    (hsteps : ∀ step ∈ steps, step.IsPermitted support) :
    Gated config support (world.started target goal steps) := by
  refine ⟨h.configured, h.answer, fun step hstep => ?_, h.sent⟩
  rw [left_started] at hstep
  exact (List.mem_append.mp hstep).elim (h.left step) (hsteps step)

end Gated

theorem lasting_gated (config : Config) (support : Support) :
    Flow.Lasting (Gated config support) where
  socket hreceived h := h.channel (Channel.of_receive? hreceived).1 _ _
  clock now h := h.channel rfl now _
  ask awaited hdraft h :=
    h.transmit awaited (config.admits_of_kind support hdraft.measured
      (Object.newTypes_of_changeOf? hdraft.unchanging))
  relieve hafter h := h.relieve hafter
  transmitStep hstep h := h.transmitStep (h.left _ hstep)

theorem Gated.submit {config : Config} {support : Support} {world : World}
    (h : world.Gated config support) (desired : Object) (goal : Goal) :
    Gated config support (Flow.result (Flow.submit desired goal) world).2 := by
  rw [Flow.result_submit desired (Or.inr h.answer)]
  split
  · exact h
  · have hreserved : Gated config support
        (world.mapSession ({ · with nextId := world.session.nextId + 1 })) :=
      h.relieve (.of_operations rfl rfl fun _ => id)
    simp only
    split
    · exact hreserved
    · exact hreserved.relieve (.of_operations rfl rfl fun _ => id)
    · rename_i hplan
      exact (lasting_gated config support).pump (h.started (Session.isPermitted_plan hplan))

/-- No call does anything that is not allowed, if the features of the kernel are fixed. -/
theorem Gated.call {config : Config} {support : Support} {world : World}
    (h : world.Gated config support) (hsupport : config.support = some support) (call : Call) :
    (call.after world).Gated config support := by
  refine (lasting_gated config support).call ?_ ?_ (fun desired goal world h => ?_) call world h
  · intro world h
    rw [Flow.result_support h.answer]
    exact h
  · refine Flow.Keeps.session fun world h => h.relieve ?_
    simp only
    rw [h.configured, hsupport]
    exact .refl _
  · exact h.submit desired goal

end World

/-- What a session under a configuration comes to by calls, each of which ends in whatever way. In
between, time passes, anything can befall its socket, and others subscribe to its news. -/
inductive Conducted (config : Config) : World → Prop where
  | opened (files : Files) {channel : Channel} (hsent : channel.sent = []) :
      Conducted config (.new config files channel)
  | disturbed {world : World} (h : Conducted config world) (now horizon : Nat) {channel : Channel}
      (hsent : channel.sent = world.channel.sent) :
      Conducted config { world with now, horizon, channel }
  | watched {world : World} (h : Conducted config world) {watched : Watched}
      (hsame : watched.inventory = world.session.inventory) :
      Conducted config (world.mapSession ({ · with watched }))
  | called {world : World} (h : Conducted config world) (call : Call) :
      Conducted config (call.after world)

namespace Conducted

variable {config : Config} {world : World} {support : Support}

theorem gated (h : Conducted config world) (hsupport : config.support = some support) :
    world.Gated config support := by
  induction h with
  | opened files hsent =>
      refine ⟨rfl, ?_, fun step hstep => absurd hstep List.not_mem_nil,
        fun datagram hdatagram => ?_⟩
      · rw [World.new, Session.new, hsupport]
        rfl
      · rw [World.new, hsent] at hdatagram
        exact absurd hdatagram List.not_mem_nil
  | disturbed _ now horizon hsent ih => exact ih.channel hsent now horizon
  | watched _ _ ih => exact ih.relieve (.of_operations rfl rfl fun _ => id)
  | called _ call ih => exact ih.call hsupport call

/-- Every message that was sent to put something in place is the request of a step that the features
of the kernel allow. And an operation that is refused when it is submitted has sent nothing and left
everything as it was but the number of the next one, unless sending it ended the program. -/
theorem gate (h : Conducted config world) (hsupport : config.support = some support) :
    (∀ datagram ∈ world.channel.sent, ∀ message ∈ Exchange.messages datagram,
      Object.newTypes.contains message.header.kind = true → config.Requests support datagram) ∧
    ∀ desired goal halt after, halt ≠ .crash →
      Flow.result (Flow.submit desired goal) world = (.error halt, after) →
        after = world.mapSession ({ · with nextId := after.session.nextId }) := by
  have hgated := h.gated hsupport
  refine ⟨?_, ?_⟩
  · intro datagram hdatagram message hmessage htype
    refine (hgated.sent datagram hdatagram).resolve_right fun hnone => ?_
    rw [hnone message hmessage] at htype
    exact absurd htype (by simp)
  · intro desired goal halt after hreturns hresult
    rw [Flow.result_submit desired (Or.inr hgated.answer)] at hresult
    split at hresult
    · cases hresult
      rfl
    · simp only at hresult
      split at hresult
      · cases hresult
        rfl
      · cases hresult
      · obtain ⟨hended, -⟩ := Prod.mk.inj hresult
        split at hended
        · exact absurd (Except.error.inj hended).symm hreturns
        · cases hended

/-- The standard configuration, for a kernel that has dummy links and nothing else. -/
def sparse : Config :=
  { Config.standard with support := some Support.firstLink }

def dummyAsked : World :=
  (Call.submit (.link (.new "a" .dummy)) .present).after
    (.new sparse .nothing (.new Peer.initial true true))

theorem gate_dummyAsked :
    Conducted sparse dummyAsked ∧
      (∃ datagram ∈ dummyAsked.channel.sent, sparse.Requests Support.firstLink datagram) ∧
      ∃ fault after, Flow.result (Flow.submit (.discipline (Peer.defaultDiscipline 1)) .present)
          dummyAsked = (.error (.fault fault), after) ∧
        after = dummyAsked.mapSession ({ · with nextId := after.session.nextId }) := by
  have hconducted : Conducted sparse dummyAsked := (Conducted.opened .nothing rfl).called _
  obtain ⟨hsent, hrefused⟩ :=
    hconducted.gate (show sparse.support = some Support.firstLink from rfl)
  refine ⟨hconducted, ?_, ?_⟩
  · have hput : (dummyAsked.channel.sent.any fun datagram => (Exchange.messages datagram).any
        fun message => Object.newTypes.contains message.header.kind) = true := by decide +kernel
    obtain ⟨datagram, hdatagram, hany⟩ := List.any_eq_true.mp hput
    obtain ⟨message, hmessage, htype⟩ := List.any_eq_true.mp hany
    exact ⟨datagram, hdatagram, hsent datagram hdatagram message hmessage htype⟩
  · have hended : (Flow.result (Flow.submit (.discipline (Peer.defaultDiscipline 1)) .present)
        dummyAsked).1.toOption = none ∧
        Halt.returns ((Flow.result (Flow.submit (.discipline (Peer.defaultDiscipline 1)) .present)
          dummyAsked).1.map fun _ => ()) = true := by decide +kernel
    rcases hresult : Flow.result (Flow.submit (.discipline (Peer.defaultDiscipline 1)) .present)
        dummyAsked with ⟨(fault | _ | _) | number, after⟩
    · exact ⟨fault, after, rfl, hrefused _ _ _ after (by simp) hresult⟩
    all_goals
      rw [hresult] at hended
      exact absurd hended (by simp [Except.toOption, Except.map, Halt.returns])

end Conducted

end NetState
