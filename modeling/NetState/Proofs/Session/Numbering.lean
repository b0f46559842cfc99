import NetState.Proofs.Peer.Offer
import NetState.Proofs.Session.Ledger
import NetState.Proofs.Session.Turn

namespace NetState

/-- After every call, whatever befalls the socket, operations have numbers of their own below the
next one; each has nothing left to ask just when it is acknowledged, and then the inventory does not
show its result yet; and whenever a turn waits, there is a time for each. As long as there are
numbers left and the socket has delivered no other failure than lost messages while a listing was
awaited, those that wait for an answer do so under numbers of their own, and no other answers are
waited for. -/
theorem Operated.operations_accounted {trace : List Mark} {world : World}
    (h : Operated trace world) :
    (world.session.operations.map Operation.id).Nodup ∧
      (∀ op ∈ world.session.operations, op.id < world.session.nextId ∧
        (op.steps = [] ↔ op.isAcked = true) ∧ world.session.confirmation? op = none) ∧
      (∀ call start waiting, Turns call world start →
        Flow.result Flow.prepare start = (.ok (), waiting) →
          ∀ op ∈ waiting.session.operations, ∃ deadline, op.deadline? = some deadline) ∧
      (Mark.total trace < 2 ^ 32 → Mark.Unfailing trace →
        world.session.tokens.Nodup ∧
          ∀ seq, seq ∈ world.session.exchange.awaited.keys ↔ seq ∈ world.session.tokens) := by
  have horder := h.inOrder
  refine ⟨horder.staged.distinct, fun op hop => ?_, ?_, fun hroom hunfailing => ?_⟩
  · exact ⟨horder.staged.below op hop, horder.staged.acked op hop, horder.hidden op hop⟩
  · intro call start waiting hturns hprepare op hop
    exact h.exists_deadline? hturns hprepare hop
  · have hledger := (h.accounted hroom hunfailing).ledger
    refine ⟨hledger.distinct, fun seq => ⟨fun hkey => ?_, fun hmem => ?_⟩⟩
    · exact (hledger.owned seq hkey).resolve_right (by simp [Control.idle])
    · exact (hledger.backed seq hmem).resolve_right List.not_mem_nil

/-- Receiving from the peer fails by lost messages only; another failure was put in front of it. -/
theorem Channel.isOverrun_of_receive? {channel after : Channel} {fault : Fault}
    (h : channel.receive? = some (.error fault, after)) :
    .error fault ∈ channel.injected ∨ fault.isOverrun = true := by
  rcases receive?_eq_some h with ⟨rest, hinjected, -⟩ | ⟨-, peer, hpeer, -⟩
  · exact Or.inl (by simp [hinjected])
  · rcases Peer.receive?_eq_some hpeer with ⟨-, hfault, -⟩ | ⟨datagram, rest, -, -, hok, -⟩
    · obtain rfl := Except.error.inj hfault
      exact Or.inr rfl
    · exact absurd hok (by simp)

/-- A world with one more operation under way. -/
def World.started (world : World) (target : Object) (goal : Goal) (steps : List Step) : World :=
  world.mapSession fun s =>
    { s with
      nextId := s.nextId + 1
      operations := s.operations ++ [⟨s.nextId, target, goal, steps, .queued, 0⟩] }

section

variable {trace : List Mark} {world : World} {desired target : Object} {steps : List Step}
  (hvalid : desired.validate = .ok ())
  (hplan : Plan.toDelete world.session.inventory desired = (target, .steps steps))
  (hrunning : (world.started target .absent steps).pump.channel.peer.crashed = false)

include hvalid hplan hrunning

theorem Flow.result_submit_absent :
    result (submit desired .absent) world =
      (.ok world.session.nextId, (world.started target .absent steps).pump) := by
  have hplanned : Plan.toDelete (world.mapSession
      ({ · with nextId := world.session.nextId + 1 })).session.inventory desired =
        (target, .steps steps) := hplan
  have hpump : result pump (world.started target .absent steps) =
      (.ok (), (world.started target .absent steps).pump) := by
    rw [result_pump, if_neg (by simp [hrunning])]
  simp only [submit, plan, result_bind, result_ofExcept, hvalid, Except.mapError, result_get,
    result_session, result_pure, hplanned]
  rw [show (world.mapSession ({ · with nextId := world.session.nextId + 1 })).mapSession _ =
    world.started target .absent steps from rfl, hpump]

theorem Operated.submit_absent (h : Operated trace world) :
    Operated (trace ++ [.requested ((world.started target .absent steps).session.operations.countP
        (·.takesNumber world.now))])
      (world.started target .absent steps).pump := by
  have hresult : Flow.result (Call.submit desired .absent).flow world =
      (.ok (), (world.started target .absent steps).pump) := by
    show Flow.result (Flow.submit desired .absent >>= fun _ => pure ()) world = _
    rw [Flow.result_bind, Flow.result_submit_absent hvalid hplan hrunning]
    rfl
  have hmoves := ((Moves.single (@Move.reserve .idle world rfl)).snoc
    (Move.start target .absent rfl rfl (Plan.toDelete_ne_nil hplan))).snoc (Move.pump rfl)
  have hcalled := h.called hresult hmoves rfl
  rw [Mark.ending, List.append_nil] at hcalled
  exact hcalled

end

/-- A new world with a kernel that says nothing at all. -/
def World.speechless : World :=
  { equipped with
    channel :=
      { equipped.channel with
        peer := { equipped.channel.peer with repliesDropped := true, ipv6 := false } } }

/-- The world after a link was to be deleted there. -/
def World.unanswered : World :=
  (speechless.started (.link (.new "a" .dummy)) .absent [⟨.link (.new "a" .dummy), .delete⟩]).pump

theorem Operated.unanswered : Operated [.requested 1] World.unanswered := by
  have hspeechless : Operated [] World.speechless := Operated.equipped.disturbed _ _ _
  have hplan : Plan.toDelete World.speechless.session.inventory (.link (.new "a" .dummy)) =
      (.link (.new "a" .dummy), .steps [⟨.link (.new "a" .dummy), .delete⟩]) := by decide +kernel
  have hcount : (World.speechless.started (.link (.new "a" .dummy)) .absent
      [⟨.link (.new "a" .dummy), .delete⟩]).session.operations.countP
        (·.takesNumber World.speechless.now) = 1 := by decide +kernel
  have hsubmit := hspeechless.submit_absent (by decide +kernel) hplan (by decide +kernel)
  rw [hcount] at hsubmit
  exact hsubmit

theorem Operated.operations_accounted_unanswered :
    World.unanswered.session.tokens = [1] ∧
      ∀ seq, seq ∈ World.unanswered.session.exchange.awaited.keys ↔
        seq ∈ World.unanswered.session.tokens :=
  ⟨by decide +kernel, (Operated.unanswered.operations_accounted.2.2.2 (by decide)
    (by simp [Mark.Unfailing])).2⟩

/-- Whether nothing is to be received, and a request to list addresses of version 6 brings nothing
either. -/
structure World.Silent (world : World) : Prop where
  injected : world.channel.injected = []
  sendFaults : world.channel.sendFaults = []
  failures : world.channel.peer.failures = []
  overruns : world.channel.peer.overruns = 0
  outbox : world.channel.peer.outbox = []
  repliesDropped : world.channel.peer.repliesDropped = true
  ipv6 : world.channel.peer.ipv6 = false
  running : world.channel.peer.crashed = false

/-- The world after a listing of addresses of version 6 was asked for in vain. -/
def World.ignored (world : World) : World :=
  let asked := world.sent Kind.address6.listing (Exchange.fresh .address6 .whole)
  ({ asked with now := max world.now (world.now + world.session.config.ackTimeout.nanos) } : World
    ).mapSession fun s =>
      { s with exchange := s.exchange.cancel (Exchange.seqAfter world.session.exchange.seq) }

namespace World.Silent

variable {world : World}

theorem waiting_eq_zero (h : world.Silent) : world.channel.waiting = 0 := by
  rw [Channel.waiting, Peer.waiting, h.injected, h.overruns, h.outbox]
  rfl

theorem measured_listing : Kind.address6.listing.IsMeasured := by
  rw [Draft.IsMeasured]
  decide

theorem peer_sent (h : world.Silent) (awaited : Awaited) :
    ∃ requests, (world.sent Kind.address6.listing awaited).channel.peer =
      { world.channel.peer with requests } := by
  let request : Message :=
    ⟨(world.stamped Kind.address6.listing).header, (world.stamped Kind.address6.listing).body⟩
  have hasks : Peer.asksForListing request.header = true :=
    show Peer.asksForListing Kind.address6.listing.header = true by decide
  have hlisted : (world.channel.peer.noted request).listed request =
      .error Errno.familyNotSupported := by
    show (if world.channel.peer.ipv6 then Except.ok _ else Except.error _) = _
    rw [h.ipv6]
    rfl
  have hmute : (world.channel.peer.noted request).repliesDropped = true := h.repliesDropped
  have hcalm : world.channel.peer.crashes request = false :=
    (Peer.crashes_addressed _ _ _ _).trans (Peer.crashes_listing h.failures (by decide))
  rw [World.peer_sent world measured_listing,
    Peer.answer_of_unlisted h.failures hcalm hasks hlisted, Peer.report, if_pos hmute]
  exact ⟨_, rfl⟩

theorem sent (h : world.Silent) (awaited : Awaited) :
    (world.sent Kind.address6.listing awaited).Silent := by
  obtain ⟨requests, hpeer⟩ := h.peer_sent awaited
  refine ⟨h.injected, h.sendFaults, ?_, ?_, ?_, ?_, ?_, ?_⟩
  all_goals rw [hpeer]
  · exact h.failures
  · exact h.overruns
  · exact h.outbox
  · exact h.repliesDropped
  · exact h.ipv6
  · exact h.running

theorem same {after : World} (h : world.Silent) (hchannel : after.channel = world.channel) :
    after.Silent := by
  constructor
  all_goals rw [hchannel]
  exacts [h.injected, h.sendFaults, h.failures, h.overruns, h.outbox, h.repliesDropped, h.ipv6,
    h.running]

theorem ignored (h : world.Silent) : world.ignored.Silent :=
  (h.sent (Exchange.fresh .address6 .whole)).same rfl

end World.Silent

namespace Flow

variable {world : World}

theorem result_await_elapsed {due : Nat} (hreceive : world.channel.receive? = none)
    (hdue : due ≤ world.horizon) :
    result (await (some due)) world = (.ok .elapsed, { world with now := max world.now due }) := by
  rw [await, result_bind, result_get]
  simp only [hreceive, Option.filter_some, hdue, decide_true, if_true]
  rfl

theorem result_awaitNext_elapsed {kind : Kind} {seq : UInt32} {due : Nat}
    (hreceive : world.channel.receive? = none) (hdue : due ≤ world.horizon) :
    result (awaitNext kind seq due) world =
      (.error (.fault (.timeout (listingText kind) world.session.config.ackTimeout)),
        ({ world with now := max world.now due } : World).mapSession
          fun s => { s with exchange := s.exchange.cancel seq }) := by
  rw [awaitNext, result_bind, result_await_elapsed hreceive hdue]
  simp only [giveUp, result_bind, result_session, result_get, result_throw]
  rfl

theorem result_listOnce_ignored (h : world.Silent)
    (hpatient : world.now + world.session.config.ackTimeout.nanos ≤ world.horizon) :
    result (listOnce .address6 Kind.address6.listing) world =
      (.error (.fault (.timeout (listingText .address6) world.session.config.ackTimeout)),
        world.ignored) := by
  have hwaiting := (h.sent (Exchange.fresh .address6 .whole)).waiting_eq_zero
  have hreceive := Channel.receive?_eq_none hwaiting
  have htransmit := World.transmit_of_nil h.sendFaults World.Silent.measured_listing
    (Exchange.fresh .address6 .whole)
  have hnext :=
    @result_awaitNext_elapsed _ .address6 (Exchange.seqAfter world.session.exchange.seq) _
    hreceive hpatient
  have hrunning := (h.sent (Exchange.fresh .address6 .whole)).running
  simp only [listOnce, result_bind, result_sending, htransmit, hrunning, Except.mapError,
    result_get, hwaiting, awaitListing, Bool.false_eq_true, if_false]
  rw [show (world.sent Kind.address6.listing (Exchange.fresh .address6 .whole)).now +
    (world.sent Kind.address6.listing
        (Exchange.fresh .address6 .whole)).session.config.ackTimeout.nanos =
      world.now + world.session.config.ackTimeout.nanos from rfl, hnext]
  rfl

theorem result_list_ignored (h : world.Silent)
    (hpatient : world.now + world.session.config.ackTimeout.nanos ≤ world.horizon) (retries : Nat) :
    result (list .address6 Kind.address6.listing retries) world =
      (.error (.fault (.timeout (listingText .address6) world.session.config.ackTimeout)),
        world.ignored) := by
  cases retries with
  | zero => rw [list, result_bind, result_listOnce_ignored h hpatient]
  | succ left => rw [list, result_bind, result_listOnce_ignored h hpatient]

theorem result_syncKind_ignored (h : world.Silent)
    (hpatient : world.now + world.session.config.ackTimeout.nanos ≤ world.horizon) :
    result (syncKind .address6) world =
      (.error (.fault (.timeout (listingText .address6) world.session.config.ackTimeout)),
        world.ignored) := by
  have hlisted : result (listed .address6 Kind.address6.listing) world =
      (.error (.fault (.timeout (listingText .address6) world.session.config.ackTimeout)),
        world.ignored) := by
    rw [listed, result_bind, result_get]
    exact result_list_ignored h hpatient _
  have hkind : result (listKind .address6) world =
      (.error (.fault (.timeout (listingText .address6) world.session.config.ackTimeout)),
        world.ignored) := by
    rw [listKind, if_neg (by decide), listedUnless, result_recover, hlisted]
    rfl
  rw [syncKind, result_bind, hkind]

end Flow

theorem World.exists_unanswered : ∃ first, World.unanswered.session.operations = [first] ∧
    first.seq? = some 1 ∧ ∀ now, first.isDue now = false := by
  obtain ⟨first, hoperations⟩ : ∃ first, World.unanswered.session.operations = [first] :=
    List.length_eq_one_iff.mp (by decide +kernel)
  have hseqs : World.unanswered.session.operations.map Operation.seq? = [some 1] := by
    decide +kernel
  have hseq : first.seq? = some 1 := by simpa [hoperations] using hseqs
  refine ⟨first, hoperations, hseq, fun now => Bool.eq_false_iff.mpr fun hdue => ?_⟩
  simp [Operation.seq?_of_isDue hdue] at hseq

/-- An operation that asks for another link to be gone. -/
def Operation.second (id : Nat) : Operation :=
  ⟨id, .link (.new "b" .dummy), .absent, [⟨.link (.new "b" .dummy), .delete⟩], .queued, 0⟩

theorem World.pumpOne_second {world : World} (hecho : world.session.config.echo = false)
    (hfaults : world.channel.sendFaults = []) (id : Nat) :
    ∃ draft deadline, draft.IsMeasured ∧ draft.header.kind = Kind.link.delType ∧
      Failure.isCrash (Object.decode draft.header.kind draft.body) = false ∧
      world.pumpOne (.second id) = (world.sent draft .ack, .ok { Operation.second id with
        stage := .submitted (Exchange.seqAfter world.session.exchange.seq) deadline }) := by
  obtain ⟨draft, hdraft, hmeasured, hkind, hread⟩ :
      ∃ draft, (Object.link (.new "b" .dummy)).request .delete = .ok draft ∧ draft.IsMeasured ∧
        draft.header.kind = Kind.link.delType ∧
        Failure.isCrash (Object.decode draft.header.kind draft.body) = false := by
    refine ⟨_, rfl, ?_, rfl, by decide +kernel⟩
    rw [Draft.IsMeasured]
    decide +kernel
  refine ⟨draft, world.now + world.session.config.ackTimeout.nanos, hmeasured, hkind, hread, ?_⟩
  rw [pumpOne_of_due (show (Operation.second id).current? = some _ from rfl) rfl, transmitStep]
  simp only [hdraft, hecho, Bool.false_eq_true, if_false, transmit_of_nil hfaults hmeasured]
  rfl

theorem World.pump_started {world : World}
    (hsession : world.session =
      { World.unanswered.session with exchange := world.session.exchange })
    (hfaults : world.channel.sendFaults = []) (hrunning : world.channel.peer.crashed = false)
    (hfailures : world.channel.peer.failures = [(Kind.link.delType, 5)]) :
    let pumped := (world.started (.link (.new "b" .dummy)) .absent
      [⟨.link (.new "b" .dummy), .delete⟩]).pump
    pumped.channel.peer.crashed = false ∧
      pumped.session.tokens = [1, Exchange.seqAfter world.session.exchange.seq] := by
  let started := world.started (.link (.new "b" .dummy)) .absent
    [⟨.link (.new "b" .dummy), .delete⟩]
  obtain ⟨first, hoperations, hseq, hdue⟩ := World.exists_unanswered
  have hstarted : started.session.operations = [first, .second world.session.nextId] := by
    show world.session.operations ++ _ = _
    rw [show world.session.operations = World.unanswered.session.operations by rw [hsession],
      hoperations]
    rfl
  have hecho : started.session.config.echo = false := by
    show world.session.config.echo = false
    rw [hsession]
    exact show World.unanswered.session.config.echo = false by decide +kernel
  obtain ⟨draft, deadline, hmeasured, hkind, hread, hsecond⟩ :=
    @pumpOne_second started hecho hfaults world.session.nextId
  show started.pump.channel.peer.crashed = false ∧ started.pump.session.tokens = _
  rw [Session.tokens, World.pump_eq]
  show (started.pumpEach started.session.operations).1.channel.peer.crashed = false ∧
    (started.pumpEach started.session.operations).2.1.filterMap Operation.seq? = _
  rw [hstarted, World.pumpEach_cons_ok (World.pumpOne_of_not_due (hdue _)),
    World.pumpEach_cons_ok hsecond]
  constructor
  · show (started.sent draft .ack).channel.peer.crashed = false
    rw [World.peer_sent started hmeasured]
    have hfailure :
        Peer.takeFailure draft.header.kind world.channel.peer.failures = some (5, []) := by
      rw [hfailures, hkind]
      rfl
    exact (Peer.crashed_answer_of_failure hfailure hread (by decide)).trans hrunning
  · show List.filterMap Operation.seq? [first, _] = _
    rw [List.filterMap_cons, hseq]
    rfl

namespace Operated

variable {trace : List Mark} {world : World}

theorem ignored (h : Operated trace world) (hsilent : world.Silent)
    (hpatient : world.now + world.session.config.ackTimeout.nanos ≤ world.horizon) :
    Operated (trace ++ [.requested 1] ++ [.failed]) world.ignored := by
  have hresult : Flow.result (Call.syncKind .address6).flow world =
      (.error (.fault (.timeout (Flow.listingText .address6) world.session.config.ackTimeout)),
        world.ignored) := by
    show Flow.result (Flow.syncKind .address6 >>= fun _ => pure ()) world = _
    rw [Flow.result_bind, Flow.result_syncKind_ignored hsilent hpatient]
  have hask := @Move.ask .idle world _ _ .address6 _ rfl (World.transmit_of_nil hsilent.sendFaults
    World.Silent.measured_listing (Exchange.fresh .address6 .whole))
  have hpass := Nat.le_max_left world.now (world.now + world.session.config.ackTimeout.nanos)
  exact h.called hresult (((Moves.single hask).snoc (Move.pass hpass)).snoc (Move.giveUp rfl)) rfl

/-- Any number short of the last can come to be the number of the last request while the first one
is still waited for. -/
theorem exists_ignored (count : Nat) (hcount : count + 1 < 2 ^ 32) :
    ∃ trace world, Operated trace world ∧ Mark.Unfailing trace ∧ world.Silent ∧
      world.session.exchange.seq.toNat = count + 1 ∧
      world.session = { World.unanswered.session with exchange := world.session.exchange } := by
  -- Each listing that is never answered uses up one number more.
  induction count with
  | zero =>
      have hsilent : World.unanswered.Silent := by
        constructor
        case outbox => exact List.eq_nil_of_length_eq_zero (by decide +kernel)
        all_goals decide +kernel
      exact ⟨_, World.unanswered, .unanswered, by simp [Mark.Unfailing], hsilent,
        by decide +kernel, rfl⟩
  | succ count ih =>
      obtain ⟨trace, world, h, hunfailing, hsilent, hseq, hsession⟩ := ih (by omega)
      have hpatient := h.disturbed world.now
        (world.now + world.session.config.ackTimeout.nanos) world.channel
      have hpatientSilent : ({ world with
          horizon := world.now + world.session.config.ackTimeout.nanos } : World).Silent :=
        hsilent.same rfl
      refine ⟨_, _, hpatient.ignored hpatientSilent (Nat.le_refl _),
        by simpa [Mark.Unfailing] using hunfailing, hpatientSilent.ignored, ?_, ?_⟩
      · rw [← hseq]
        exact Exchange.toNat_seqAfter (show world.session.exchange.seq.toNat + 1 < 2 ^ 32 by omega)
      · conv_lhs => rw [World.ignored]
        show ({ world.session with exchange := _ } : Session) = _
        rw [hsession]
        rfl

/-- Two things upset the accounts: receiving that fails while a listing is awaited leaves its answer
waited for, and numbers that begin anew make two operations wait under the same one. -/
theorem exists_unaccounted :
    (∃ trace world seq, Operated trace world ∧ seq ∈ world.session.exchange.awaited.keys ∧
        seq ∉ world.session.tokens) ∧
      ∃ trace world, Operated trace world ∧ Mark.Unfailing trace ∧
        ¬ world.session.tokens.Nodup := by
  constructor
  · have hdeaf : Operated [] { World.equipped with
        channel := { World.equipped.channel with injected := [.error (.io 5)] } } :=
      Operated.equipped.disturbed _ _ _
    obtain ⟨trace, h⟩ := hdeaf.exists_after (.syncKind .link) (by decide +kernel)
    exact ⟨trace, _, 1, h, by decide +kernel, by decide +kernel⟩
  · obtain ⟨trace, world, h, hunfailing, hsilent, hseq, hsession⟩ :=
      exists_ignored (2 ^ 32 - 2) (by decide)
    let refused : World :=
      { world with
        channel :=
          { world.channel with
            peer := { world.channel.peer with failures := [(Kind.link.delType, 5)] } } }
    have hrefused : Operated trace refused := h.disturbed world.now world.horizon refused.channel
    obtain ⟨hrunning, htokens⟩ :=
      @World.pump_started refused hsession hsilent.sendFaults hsilent.running rfl
    have hplan : Plan.toDelete refused.session.inventory (.link (.new "b" .dummy)) =
        (.link (.new "b" .dummy), .steps [⟨.link (.new "b" .dummy), .delete⟩]) := by
      have hinventory : refused.session.inventory = World.unanswered.session.inventory := by
        show world.session.inventory = _
        rw [hsession]
        rfl
      rw [hinventory]
      decide +kernel
    refine ⟨_, _, hrefused.submit_absent (by decide +kernel) hplan hrunning,
      by simpa [Mark.Unfailing] using hunfailing, ?_⟩
    rw [htokens]
    have hlast : world.session.exchange.seq = 4294967295 :=
      UInt32.toNat_inj.mp (hseq.trans (by decide))
    show ¬ [1, Exchange.seqAfter world.session.exchange.seq].Nodup
    rw [hlast]
    decide

end Operated

end NetState
