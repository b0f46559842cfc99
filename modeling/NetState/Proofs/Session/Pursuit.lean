import NetState.Proofs.Session.Answered
import NetState.Proofs.Session.Notify
import NetState.Proofs.Session.Stage

/-!
What becomes of an operation that is the only one under way, if nothing is set to fail.

Its request is answered at once. While the answer waits to be received nothing else can happen, but
for the end of a time that is too short; so when the last answer has come the operation ends, with
the refusal or with the snapshot that the news have brought.
-/

namespace NetState

open Peer

/-- What operations under way leave alone in a session. -/
def Session.frame (session : Session) : Probe × Nat × Bool :=
  (session.probe, session.nextId, session.stale)

/-- How what is wanted is brought about: by one request, or by two of which the first one makes
room. -/
inductive Object.SoughtBy (inventory : Inventory) (peer : Peer) (wanted : Object) :
    List Step → Prop where
  | once {step : Step} (hleads : wanted.LeadsTo inventory peer step) :
      SoughtBy inventory peer wanted [step]
  | afresh {gone last : Step} (hkind : wanted.kind ≠ .link) (hverb : gone.verb = .delete)
      (hgone : gone.object.kind ≠ .link) (hleads : wanted.LeadsTo inventory peer last) :
      SoughtBy inventory peer wanted [gone, last]

theorem Object.LeadsTo.of_links {inventory : Inventory} {peer other : Peer} {wanted : Object}
    {step : Step} (h : wanted.LeadsTo inventory peer step) (hkind : wanted.kind ≠ .link)
    (hlinks : other.links = peer.links) (later : Inventory) : wanted.LeadsTo later other step := by
  cases wanted with
  | link l => exact absurd rfl hkind
  | _ =>
      obtain ⟨hobject, hverb, hnames⟩ := h
      exact ⟨hobject, hverb, fun index link hlink => hnames index link (hlinks ▸ hlink)⟩

theorem Object.LeadsTo.verb_ne_delete {inventory : Inventory} {peer : Peer} {wanted : Object}
    {step : Step} (h : wanted.LeadsTo inventory peer step) : step.verb ≠ .delete := by
  cases wanted with
  | link l =>
      rcases h with ⟨rfl, -⟩ | ⟨known, rfl, -⟩
      · simp
      · simp
  | _ =>
      obtain ⟨-, hverb | hverb, -⟩ := h <;> simp [hverb]

/-- A session in which one operation is under way, begun in the session `start`. -/
structure Session.Pursues (start : Session) (op : Operation) (session : Session) : Prop where
  frame : session.frame = start.frame
  results : session.results = start.results
  operations : session.operations = [op]
  goal : op.goal = .present
  consistent : session.inventory.Consistent

namespace World

variable {start : Session} {op : Operation} {world : World}

/-- A world in which the next request of an operation can be sent. -/
structure Due (start : Session) (op : Operation) (world : World) : Prop where
  clear : world.channel.Clear
  quiet : world.channel.peer.outbox = []
  pursues : start.Pursues op world.session
  stage : op.stage = .queued
  sought : op.desired.SoughtBy world.session.inventory world.channel.peer op.steps

/-- What an operation comes to when the answer to its request has come: it is over, with the news
that bring what is wanted if the request was carried out, or one more request is left. -/
inductive Closes (op : Operation) (inventory : Inventory) (peer : Peer) (heard : List News)
    (refusal : Option Int) : Prop where
  | last {step : Step} (hsteps : op.steps = [step]) (hverb : step.verb ≠ .delete)
      (hmeets : refusal = none → (inventory.run (heard.map News.deed)).Meets op.desired)
  | left {gone last : Step} (hsteps : op.steps = [gone, last]) (hkind : op.desired.kind ≠ .link)
      (hleads : op.desired.LeadsTo inventory peer last)

/-- A world in which the answer to the request of an operation waits to be received. -/
structure Waits (start : Session) (op : Operation) (world : World) : Prop where
  clear : world.channel.Clear
  pursues : start.Pursues op world.session
  answer : ∃ seq deadline heard refusal, op.stage = .submitted seq deadline ∧
    world.session.exchange.Answered seq heard refusal world.channel.peer.outbox ∧
    KeepsLinks heard ∧ (∀ errno, refusal = some errno → errno ∈ refusals) ∧
    Closes op world.session.inventory world.channel.peer heard refusal

/-- A world in which an operation has ended; if it ended well, then with a snapshot that is
shown. -/
structure Concluded (start : Session) (id : Nat) (wanted : Object) (world : World) : Prop where
  frame : world.session.frame = start.frame
  operations : world.session.operations = []
  result : ∃ result, world.session.results = start.results ++ [(id, result)] ∧
    ∀ outcome, result = .ok outcome → ∃ found,
      (outcome = .confirmed found ∨ outcome = .unchanged found) ∧
        world.session.inventory.find? wanted = some found ∧ found.satisfies wanted = true

/-- A world in which an operation waits for the answer to a request, or has ended. -/
def Carries (start : Session) (id : Nat) (wanted : Object) (world : World) : Prop :=
  (∃ op : Operation, op.id = id ∧ op.desired = wanted ∧ world.Waits start op) ∨
    world.Concluded start id wanted

theorem transmitStep_of_error {step : Step} {fault : Fault}
    (hrequest : world.requestOf step = .error fault) :
    ∃ other, world.transmitStep step = (world, .error other) := by
  rcases world.transmitStep_cases step with ⟨other, -, -, hsend⟩ | ⟨draft, -, hasked, -⟩
  · exact ⟨other, hsend⟩
  · exact absurd (hrequest.symm.trans hasked) (by simp)

theorem transmitStep_of_ok (hfaults : world.channel.sendFaults = []) {step : Step} {draft : Draft}
    (hrequest : world.requestOf step = .ok draft) :
    ∃ plain : Draft, plain.IsMeasured ∧ world.stamped plain = draft ∧ world.transmitStep step =
      (world.sent plain .ack, .ok (Exchange.seqAfter world.session.exchange.seq)) := by
  have hmeasured := isMeasured_requestOf hrequest
  rcases world.transmitStep_cases step with ⟨fault, -, hasked, -⟩ | ⟨asked, -, hasked, hsend⟩
  · exact absurd (hrequest.symm.trans hasked) (by simp)
  · obtain rfl := Except.ok.inj (hrequest.symm.trans hasked)
    exact ⟨_, hmeasured, rfl, hsend.trans (transmit_of_nil hfaults hmeasured .ack)⟩

theorem answered_sent (hclear : world.channel.Clear) (hquiet : world.channel.peer.outbox = [])
    {plain : Draft} (hmeasured : plain.IsMeasured) {tells : Peer → List News → Prop}
    {news : List News} {refusal : Option Int}
    (h : world.channel.peer.Responds
      ⟨(world.stamped plain).header, (world.stamped plain).body⟩ tells
      news refusal) :
    (world.sent plain .ack).channel.Clear ∧
      (world.sent plain .ack).session.exchange.Answered
        (Exchange.seqAfter world.session.exchange.seq) (news.filterMap News.read?) refusal
        (world.sent plain .ack).channel.peer.outbox := by
  have hstance := h.stance
  rw [← world.peer_sent hmeasured .ack, hquiet, List.nil_append] at hstance
  simp only [stance, Prod.mk.injEq] at hstance
  obtain ⟨houtbox, hfailures, hoverruns, hmuted, hdropped⟩ := hstance
  constructor
  · exact ⟨hclear.injected, hclear.sendFaults, hfailures.trans hclear.failures,
      hoverruns.trans hclear.overruns, hmuted.trans hclear.muted,
      hdropped.trans hclear.repliesDropped⟩
  · exact ⟨Exchange.seqAfter_ne_zero _, Table.get?_insert_self _ _ _, _, _,
      Exchange.hears_told (Exchange.unlisted_expectAck _ _) news, rfl, rfl, houtbox⟩

theorem exists_responds_wish (hclear : world.channel.Clear) {step : Step}
    (hverb : step.verb ≠ .delete) {draft : Draft} (hrequest : world.requestOf step = .ok draft)
    (hcalm : world.channel.peer.crashes ⟨draft.header, draft.body⟩ = false) :
    ∃ news refusal, world.channel.peer.Responds ⟨draft.header, draft.body⟩
      (fun _ news => ∃ told, step.object.ReadsAs step.verb told ∧
        Presents ((world.channel.peer.noted ⟨draft.header, draft.body⟩).Stores
          (requestFlags world.session.config.echo step.verb) told) news) news refusal := by
  obtain ⟨fields, hfields, hsize, rfl⟩ := requestOf_eq_ok hrequest
  refine exists_responds hcalm hclear.failures hclear.muted hclear.repliesDropped
    (requestFlags_dump _ _) (requestFlags_ack _ _) ?_
  exact treats_wish _ (show step.object.requestType step.verb = _ from if_neg hverb) hfields hsize

theorem exists_responds_riddance (hclear : world.channel.Clear) {step : Step}
    (hverb : step.verb = .delete) (hkind : step.object.kind ≠ .link) {draft : Draft}
    (hrequest : world.requestOf step = .ok draft)
    (hcalm : world.channel.peer.crashes ⟨draft.header, draft.body⟩ = false) :
    ∃ news refusal, world.channel.peer.Responds ⟨draft.header, draft.body⟩
      (world.channel.peer.noted ⟨draft.header, draft.body⟩).SparesLinks news refusal := by
  obtain ⟨fields, -, -, rfl⟩ := requestOf_eq_ok hrequest
  refine exists_responds hcalm hclear.failures hclear.muted hclear.repliesDropped
    (requestFlags_dump _ _) (requestFlags_ack _ _) ?_
  exact treats_riddance _ hkind (show step.object.requestType step.verb = _ from if_pos hverb) _

theorem requestFlags_create (echo : Bool) {verb : Verb} (hverb : verb = .create) :
    requestFlags echo verb &&& (Flag.create ||| Flag.exclusive) =
      Flag.create ||| Flag.exclusive := by
  subst hverb
  cases echo <;> decide

namespace Due

variable {step : Step} {rest : List Step}

theorem pumpOne_eq (h : world.Due start op) (hsteps : op.steps = step :: rest) :
    world.pumpOne op = ((world.transmitStep step).1, (world.transmitStep step).2.map fun seq =>
      { op with
        stage := .submitted seq (world.now + world.session.config.ackTimeout.nanos) }) := by
  refine pumpOne_of_due ?_ ?_
  · rw [Operation.current?, hsteps]
    rfl
  · rw [Operation.isDue, h.stage]

theorem pump_of_error (h : world.Due start op) (hsteps : op.steps = step :: rest) {fault : Fault}
    (hrequest : world.requestOf step = .error fault) (wanted : Object) :
    world.pump.Concluded start op.id wanted := by
  obtain ⟨other, htransmit⟩ := transmitStep_of_error hrequest
  have hone := h.pumpOne_eq hsteps
  rw [htransmit] at hone
  rw [pump_eq, h.pursues.operations, pumpEach_cons_error hone]
  refine ⟨h.pursues.frame, rfl, .error other, ?_, fun outcome houtcome => absurd houtcome (by simp)⟩
  show world.session.results ++ _ = _
  rw [h.pursues.results]
  rfl

theorem pump_of_ok (h : world.Due start op) (hsteps : op.steps = step :: rest) {draft : Draft}
    (hrequest : world.requestOf step = .ok draft) {tells : Peer → List News → Prop}
    {news : List News}
    {refusal : Option Int}
    (hresponds : world.channel.peer.Responds ⟨draft.header, draft.body⟩ tells news refusal)
    (hkeeps : KeepsLinks (news.filterMap News.read?))
    (hcloses : ∀ peer : Peer, peer.links =
        (world.channel.peer.answer ⟨draft.header, draft.body⟩).links →
      Closes op world.session.inventory peer (news.filterMap News.read?) refusal) :
    world.pump.Carries start op.id op.desired := by
  obtain ⟨plain, hmeasured, rfl, htransmit⟩ := transmitStep_of_ok h.clear.sendFaults hrequest
  have hone := h.pumpOne_eq hsteps
  rw [htransmit] at hone
  obtain ⟨hclear, hanswered⟩ := answered_sent h.clear h.quiet hmeasured hresponds
  have hlinks : (world.sent plain .ack).channel.peer.links =
      (world.channel.peer.answer
        ⟨(world.stamped plain).header, (world.stamped plain).body⟩).links := by
    rw [world.peer_sent hmeasured]
  rw [pump_eq, h.pursues.operations, pumpEach_cons_ok hone]
  let asked : Operation := { op with
    stage := .submitted (Exchange.seqAfter world.session.exchange.seq)
      (world.now + world.session.config.ackTimeout.nanos) }
  refine Or.inl ⟨asked, rfl, rfl, hclear, ?_, _, _, _, refusal, rfl, hanswered, hkeeps,
    fun errno herrno => (hresponds.refused errno herrno).1, ?_⟩
  · refine ⟨h.pursues.frame, ?_, rfl, h.pursues.goal, h.pursues.consistent⟩
    show world.session.results ++ [] = _
    rw [List.append_nil, h.pursues.results]
  · cases hcloses _ hlinks with
    | last hsteps hverb hmeets => exact .last hsteps hverb hmeets
    | left hsteps hkind hleads => exact .left hsteps hkind hleads

theorem crashes_eq_false (h : world.Due start op) (hsteps : op.steps = step :: rest) {draft : Draft}
    (hrequest : world.requestOf step = .ok draft)
    (hrunning : world.pump.channel.peer.crashed = false) :
    world.channel.peer.crashes ⟨draft.header, draft.body⟩ = false := by
  obtain ⟨plain, hmeasured, rfl, htransmit⟩ := transmitStep_of_ok h.clear.sendFaults hrequest
  have hone := h.pumpOne_eq hsteps
  rw [htransmit] at hone
  rw [pump_eq, h.pursues.operations, pumpEach_cons_ok hone] at hrunning
  have hpeer := world.peer_sent hmeasured .ack
  refine Bool.eq_false_iff.mpr fun hcrashes => ?_
  have hcrashed := hpeer ▸ crashed_answer hcrashes
  exact absurd (hrunning.symm.trans hcrashed) (by simp)

theorem pump_wish (h : world.Due start op) (hwanted : op.desired.Understood)
    (hsteps : op.steps = [step])
    (hleads : op.desired.LeadsTo world.session.inventory world.channel.peer step) {draft : Draft}
    (hrequest : world.requestOf step = .ok draft)
    (hrunning : world.pump.channel.peer.crashed = false) :
    world.pump.Carries start op.id op.desired := by
  have hverb := hleads.verb_ne_delete
  obtain ⟨news, refusal, hresponds⟩ := exists_responds_wish h.clear hverb hrequest
    (h.crashes_eq_false hsteps hrequest hrunning)
  refine h.pump_of_ok hsteps hrequest hresponds ?_ fun _ _ => .last hsteps hverb fun hgranted => ?_
  · cases hrefusal : refusal with
    | none =>
        obtain ⟨-, -, told, -, hpresents⟩ := hresponds.granted hrefusal
        exact keepsLinks_of_presents hpresents
    | some errno => exact keepsLinks_of_linkless (hresponds.refused errno hrefusal).2.1
  · obtain ⟨-, -, told, hread, hpresents⟩ := hresponds.granted hgranted
    have hnoted : op.desired.LeadsTo world.session.inventory
        (world.channel.peer.noted ⟨draft.header, draft.body⟩) step := hleads
    exact h.pursues.consistent.meets_run hpresents fun stored hstored =>
      Object.fulfils_of_stores h.pursues.consistent hwanted hnoted hread (requestFlags_create _)
        hstored

theorem pump_riddance (h : world.Due start op) {last : Step} (hsteps : op.steps = [step, last])
    (hkind : op.desired.kind ≠ .link) (hverb : step.verb = .delete)
    (hgone : step.object.kind ≠ .link)
    (hleads : op.desired.LeadsTo world.session.inventory world.channel.peer last) {draft : Draft}
    (hrequest : world.requestOf step = .ok draft)
    (hrunning : world.pump.channel.peer.crashed = false) :
    world.pump.Carries start op.id op.desired := by
  obtain ⟨news, refusal, hresponds⟩ := exists_responds_riddance h.clear hverb hgone hrequest
    (h.crashes_eq_false hsteps hrequest hrunning)
  have hspared : Linkless news ∧ (world.channel.peer.answer ⟨draft.header, draft.body⟩).links =
      world.channel.peer.links := by
    cases hrefusal : refusal with
    | none =>
        obtain ⟨after, hlinks, hspares, hlinkless⟩ := hresponds.granted hrefusal
        exact ⟨hlinkless, hlinks.symm.trans hspares⟩
    | some errno => exact (hresponds.refused errno hrefusal).2
  exact h.pump_of_ok hsteps hrequest hresponds (keepsLinks_of_linkless hspared.1) fun peer hpeer =>
    .left hsteps hkind (hleads.of_links hkind (hpeer.trans hspared.2) _)

theorem pump (h : world.Due start op) (hwanted : op.desired.Understood)
    (hrunning : world.pump.channel.peer.crashed = false) :
    world.pump.Carries start op.id op.desired := by
  have hsought := h.sought
  generalize hsteps : op.steps = steps at hsought
  cases hsought with
  | once hleads =>
      rename_i step
      cases hrequest : world.requestOf step with
      | error fault => exact Or.inr (h.pump_of_error hsteps hrequest _)
      | ok draft => exact h.pump_wish hwanted hsteps hleads hrequest hrunning
  | afresh hkind hverb hgone hleads =>
      rename_i gone last
      cases hrequest : world.requestOf gone with
      | error fault => exact Or.inr (h.pump_of_error hsteps hrequest _)
      | ok draft => exact h.pump_riddance hsteps hkind hverb hgone hleads hrequest hrunning

end Due

end World

theorem Fault.isTransient_of_refusal {errno : Int} (h : errno ∈ refusals) :
    (Fault.kernel errno none).isTransient = false := by
  revert errno
  decide

namespace Session.Pursues

variable {start session : Session} {op : Operation}

theorem take_reply (h : start.Pursues op session) {seq : UInt32} (hseq : op.seq? = some seq)
    (now : Nat) (result : Except Fault Reply) :
    session.take now (.reply seq result) = (match result with
      | .ok _ => session.update (op.advance (now + session.config.confirmTimeout.nanos))
      | .error fault => session.takeRefusal now op fault).confirm := by
  have hfind : session.operations.find? (fun op => op.seq? == some seq) = some op := by
    rw [h.operations]
    simp [hseq]
  cases result with
  | ok reply => rw [take, takeReply, hfind]
  | error fault => rw [take, takeReply, hfind]

theorem advance (h : start.Pursues op session) (deadline : Nat) :
    start.Pursues (op.advance deadline) (session.update (op.advance deadline)) where
  frame := h.frame
  results := h.results
  operations := by
    have hid : (op.advance deadline).id = op.id := rfl
    rw [Session.update, h.operations]
    simp [hid]
  goal := h.goal
  consistent := h.consistent

theorem confirm_of_unacked (h : start.Pursues op session) (hunacked : op.isAcked = false) :
    session.confirm = session :=
  Session.confirm_of_unacked fun other hother => by
    rw [h.operations] at hother
    rw [List.mem_singleton.mp hother, hunacked]

theorem finish (h : start.Pursues op session) (result : Except Fault Outcome) :
    (session.finish op result).frame = start.frame ∧ (session.finish op result).operations = [] ∧
      (session.finish op result).results = start.results ++ [(op.id, result)] := by
  refine ⟨h.frame, ?_, ?_⟩
  · rw [Session.finish, h.operations]
    simp
  · rw [Session.finish, h.results]

theorem confirm_of_meets (h : start.Pursues op session) (hacked : op.isAcked = true)
    (hmeets : session.inventory.Meets op.desired) :
    ∃ found, session.inventory.find? op.desired = some found ∧
      found.satisfies op.desired = true ∧ session.confirm.frame = start.frame ∧
      session.confirm.operations = [] ∧
      session.confirm.results = start.results ++ [(op.id, .ok (.confirmed found))] := by
  obtain ⟨found, hfound, hsatisfies⟩ := hmeets
  have hconfirmation : session.confirmation? op = some (.confirmed found) := by
    rw [confirmation?, if_pos hacked, shown?, hfound]
    simp [h.goal, Option.filter, hsatisfies]
  refine ⟨found, hfound, hsatisfies, h.frame, ?_, ?_⟩
  · rw [confirm, conclude, h.operations]
    simp [hconfirmation]
  · rw [confirm, conclude, h.operations, h.results]
    simp [hconfirmation]

end Session.Pursues

theorem Operation.isAcked_advance {op : Operation} {step : Step} (hsteps : op.steps = [step])
    (deadline : Nat) : (op.advance deadline).isAcked = true := by
  rw [advance, hsteps]
  rfl

theorem Operation.advance_pair {op : Operation} {gone last : Step}
    (hsteps : op.steps = [gone, last])
    (deadline : Nat) :
    (op.advance deadline).stage = .queued ∧ (op.advance deadline).steps = [last] := by
  rw [advance, hsteps]
  exact ⟨rfl, rfl⟩

theorem Session.takeRefusal_eq_finish {session : Session} {op : Operation} {fault : Fault}
    (hmoot : op.isMoot fault = false) (htransient : fault.isTransient = false) (now : Nat) :
    session.takeRefusal now op fault = session.finish op (.error (fault.during op.text)) := by
  rw [takeRefusal, hmoot, htransient]
  simp

theorem Session.takeRefusal_eq_update {session : Session} {op : Operation} {fault : Fault}
    (hmoot : op.isMoot fault = true) {gone last : Step} (hsteps : op.steps = [gone, last])
    (now : Nat) : session.takeRefusal now op fault = session.update (op.advance now) := by
  rw [takeRefusal, hmoot, hsteps]
  simp

namespace World

variable {start : Session} {op : Operation} {world : World}

/-- A world in which an operation has ended, or can send its next request. -/
def Settles (start : Session) (id : Nat) (wanted : Object) (world : World) : Prop :=
  (∃ op : Operation, op.id = id ∧ op.desired = wanted ∧ world.Due start op) ∨
    world.Concluded start id wanted

theorem concluded_finish (h : start.Pursues op world.session) (fault : Fault) (wanted : Object) :
    (world.mapSession fun s => (s.finish op (.error fault)).confirm).Concluded start op.id
      wanted := by
  obtain ⟨hframe, hoperations, hresults⟩ := h.finish (.error fault)
  have hconfirm : (world.session.finish op (.error fault)).confirm =
      world.session.finish op (.error fault) :=
    Session.confirm_of_unacked fun other hother => by
      rw [hoperations] at hother
      exact absurd hother List.not_mem_nil
  rw [mapSession, hconfirm]
  exact ⟨hframe, hoperations, _, hresults, fun outcome houtcome => absurd houtcome (by simp)⟩

theorem due_advance (hclear : world.channel.Clear) (hquiet : world.channel.peer.outbox = [])
    (h : start.Pursues op world.session) {gone last : Step} (hsteps : op.steps = [gone, last])
    (hleads : op.desired.LeadsTo world.session.inventory world.channel.peer last) (deadline : Nat) :
    (world.mapSession fun s => (s.update (op.advance deadline)).confirm).Due start
      (op.advance deadline) := by
  obtain ⟨hstage, hleft⟩ := Operation.advance_pair hsteps deadline
  have hpursues := h.advance deadline
  rw [mapSession, hpursues.confirm_of_unacked (by rw [Operation.isAcked, hstage])]
  refine ⟨hclear, hquiet, hpursues, hstage, ?_⟩
  rw [hleft]
  exact .once hleads

/-- The report on a request ends the operation, or the next request can be sent. -/
theorem settles_reply (hclear : world.channel.Clear) (hquiet : world.channel.peer.outbox = [])
    (h : start.Pursues op world.session) {seq : UInt32} (hseq : op.seq? = some seq)
    {refusal : Option Int} (hrefusal : ∀ errno, refusal = some errno → errno ∈ refusals)
    (hcloses : Closes op world.session.inventory world.channel.peer [] refusal) :
    (world.takeAll [.reply seq (resultOf refusal)]).Settles start op.id op.desired := by
  have htake := h.take_reply hseq world.now (resultOf refusal)
  have hworld : world.takeAll [.reply seq (resultOf refusal)] =
      world.mapSession fun _ => world.session.take world.now (.reply seq (resultOf refusal)) := rfl
  rw [hworld, htake]
  cases hcloses with
  | last hsteps hverb hmeets =>
      cases refusal with
      | none =>
          obtain ⟨found, hfound, hsatisfies, hframe, hoperations, hresults⟩ :=
            (h.advance _).confirm_of_meets
              (Operation.isAcked_advance hsteps _) (hmeets rfl)
          exact Or.inr ⟨hframe, hoperations, _, hresults, fun outcome houtcome =>
            ⟨found, Or.inl (Except.ok.inj houtcome).symm, hfound, hsatisfies⟩⟩
      | some errno =>
          have hmoot : op.isMoot (.kernel errno none) = false := by
            rw [Operation.isMoot, Operation.current?, hsteps]
            simp [hverb]
          simp only [resultOf, Session.takeRefusal_eq_finish hmoot
            (Fault.isTransient_of_refusal (hrefusal errno rfl))]
          exact Or.inr (concluded_finish h _ _)
  | left hsteps hkind hleads =>
      cases refusal with
      | none => exact Or.inl ⟨op.advance _, rfl, rfl, due_advance hclear hquiet h hsteps hleads _⟩
      | some errno =>
          cases hmoot : op.isMoot (.kernel errno none) with
          | false =>
              simp only [resultOf, Session.takeRefusal_eq_finish hmoot
                (Fault.isTransient_of_refusal (hrefusal errno rfl))]
              exact Or.inr (concluded_finish h _ _)
          | true =>
              simp only [resultOf, Session.takeRefusal_eq_update hmoot hsteps]
              exact Or.inl ⟨op.advance _, rfl, rfl, due_advance hclear hquiet h hsteps hleads _⟩

theorem Closes.of_links {inventory : Inventory} {peer other : Peer} {heard : List News}
    {refusal : Option Int} (h : Closes op inventory peer heard refusal)
    (hlinks : other.links = peer.links) : Closes op inventory other heard refusal := by
  cases h with
  | last hsteps hverb hmeets => exact .last hsteps hverb hmeets
  | left hsteps hkind hleads => exact .left hsteps hkind (hleads.of_links hkind hlinks _)

theorem Closes.heed {inventory : Inventory} {peer : Peer} {seen : News} {heard : List News}
    {refusal : Option Int} (h : Closes op inventory peer (seen :: heard) refusal) :
    Closes op (inventory.perform seen.deed).inventory peer heard refusal := by
  cases h with
  | last hsteps hverb hmeets => exact .last hsteps hverb hmeets
  | left hsteps hkind hleads => exact .left hsteps hkind (hleads.of_links hkind rfl _)

theorem Waits.receive (h : world.Waits start op) :
    ∃ datagram channel, world.channel.receive? = some (.ok datagram, channel) ∧
      (world.session.exchange.receive (.ok datagram) = .error .crash ∨
        ∃ exchange incoming,
          world.session.exchange.receive (.ok datagram) = .ok (exchange, incoming) ∧
          ((world.absorbed channel exchange incoming).Waits start op ∨
            (world.absorbed channel exchange incoming).Settles start op.id op.desired)) := by
  obtain ⟨seq, deadline, heard, refusal, hstage, hanswered, hkeeps, hrefusal, hcloses⟩ := h.answer
  have hseq : op.seq? = some seq := by
    rw [Operation.seq?, hstage]
  have hunacked : ∀ other ∈ world.session.operations, other.isAcked = false := by
    intro other hother
    rw [h.pursues.operations] at hother
    rw [List.mem_singleton.mp hother, Operation.isAcked, hstage]
  obtain ⟨datagram, rest, houtbox, hcases⟩ := hanswered.receive hrefusal
  have hreceived := Channel.receive?_of_outbox h.clear.injected h.clear.overruns houtbox
  refine ⟨datagram, _, hreceived, ?_⟩
  rcases hcases with hcrash | ⟨hreceive, hleft⟩ | ⟨seen, left, rfl, hreceive, hleft⟩ |
    ⟨rfl, rfl, hreceive⟩
  · exact Or.inl hcrash
  · exact Or.inr ⟨_, _, hreceive, Or.inl ⟨h.clear.past rest, h.pursues, seq, deadline, heard,
      refusal, hstage, hleft, hkeeps, hrefusal, hcloses.of_links rfl⟩⟩
  · obtain ⟨watched, hwatched, htake⟩ := Session.take_seen h.pursues.consistent hunacked world.now
      (hkeeps seen List.mem_cons_self)
    refine Or.inr ⟨_, _, hreceive, Or.inl ?_⟩
    have habsorbed : world.absorbed (world.channel.past rest) world.session.exchange
        [.notice seen.object.kind seen.change seen.object] =
          { world with
            channel := world.channel.past rest
            session := { world.session with watched } } :=
      congrArg (fun session =>
        ({ world with channel := world.channel.past rest, session } : World)) htake
    have hinventory : ({ world.session with watched } : Session).inventory =
        (world.session.inventory.perform seen.deed).inventory := hwatched
    rw [habsorbed]
    refine ⟨h.clear.past rest, ?_, seq, deadline, left, refusal, hstage, hleft,
      fun other hother => hkeeps other (List.mem_cons_of_mem seen hother), hrefusal, ?_⟩
    · refine ⟨h.pursues.frame, h.pursues.results, h.pursues.operations, h.pursues.goal, ?_⟩
      rw [hinventory]
      exact h.pursues.consistent.perform _
    · rw [hinventory]
      exact hcloses.heed.of_links rfl
  · refine Or.inr ⟨_, _, hreceive, Or.inr ?_⟩
    let read : World := { world with
      channel := world.channel.past []
      session := { world.session with exchange := world.session.exchange.cancel seq } }
    have hpursues : start.Pursues op read.session := ⟨h.pursues.frame, h.pursues.results,
      h.pursues.operations, h.pursues.goal, h.pursues.consistent⟩
    exact settles_reply (h.clear.past []) rfl hpursues hseq hrefusal (hcloses.of_links rfl)

theorem Concluded.expire {id : Nat} {wanted : Object} (h : world.Concluded start id wanted) :
    world.expire = world := by
  rw [World.expire, mapSession, Session.expire_of_none]
  intro other hother
  rw [h.operations] at hother
  exact absurd hother List.not_mem_nil

theorem Concluded.pump {id : Nat} {wanted : Object} (h : world.Concluded start id wanted) :
    world.pump = world := by
  refine pump_of_not_due fun other hother => ?_
  rw [h.operations] at hother
  exact absurd hother List.not_mem_nil

theorem Due.expire (h : world.Due start op) : world.expire = world := by
  rw [World.expire, mapSession, Session.expire_of_none]
  intro other hother
  rw [h.pursues.operations] at hother
  rw [List.mem_singleton.mp hother, Session.expired?, h.stage]

theorem Waits.pump (h : world.Waits start op) : world.pump = world := by
  obtain ⟨seq, deadline, -, -, hstage, -⟩ := h.answer
  refine pump_of_not_due fun other hother => ?_
  rw [h.pursues.operations] at hother
  rw [List.mem_singleton.mp hother, Operation.isDue, hstage]

theorem Waits.expire (h : world.Waits start op) : world.expire.Carries start op.id op.desired := by
  obtain ⟨seq, deadline, -, -, hstage, -⟩ := h.answer
  by_cases hover : deadline ≤ world.now
  · have hexpired : world.session.expired? world.now op =
        some (.error (.timeout op.text world.session.config.ackTimeout)) := by
      rw [Session.expired?, hstage]
      exact if_pos hover
    refine Or.inr
      ⟨h.pursues.frame, ?_, .error (.timeout op.text world.session.config.ackTimeout), ?_,
      fun outcome houtcome => absurd houtcome (by simp)⟩
    · show (world.session.operations.filter _) = []
      rw [h.pursues.operations]
      simp [hexpired]
    · show world.session.results ++ world.session.operations.filterMap _ = _
      rw [h.pursues.operations, h.pursues.results]
      simp [hexpired]
  · have hsame : world.expire = world := by
      rw [World.expire, mapSession, Session.expire_of_none]
      intro other hother
      rw [h.pursues.operations] at hother
      rw [List.mem_singleton.mp hother, Session.expired?, hstage]
      exact if_neg hover
    rw [hsame]
    exact Or.inl ⟨op, rfl, rfl, h⟩

end World

theorem Session.collect_last {session : Session} {before : List (Nat × Except Fault Outcome)}
    {id : Nat} {result : Except Fault Outcome}
    (hresults : session.results = before ++ [(id, result)])
    (hfresh : ∀ entry ∈ before, entry.1 ≠ id) :
    session.collect id = (some result, { session with results := before }) := by
  have hnone : before.find? (·.1 == id) = none := by
    rw [List.find?_eq_none]
    simpa using hfresh
  have hfound : session.results.find? (·.1 == id) = some (id, result) := by
    rw [hresults, List.find?_append, hnone]
    simp
  have hleft : session.results.filter (·.1 != id) = before := by
    rw [hresults, List.filter_append, List.filter_eq_self.mpr (by simpa using hfresh)]
    simp
  rw [collect, hfound, hleft]

namespace Flow

theorem ends_drive {world : World} (hstale : world.session.stale = false)
    (hpump : world.pump = world) {datagram : Bytes} {channel : Channel}
    (hreceived : world.channel.receive? = some (.ok datagram, channel))
    {done : Unit → World → Prop} {failed : Fault → World → Prop}
    (h : ∀ {exchange incoming},
      world.session.exchange.receive (.ok datagram) = .ok (exchange, incoming) →
      (world.absorbed channel exchange incoming).expire.pump.channel.peer.crashed = false →
      done () (world.absorbed channel exchange incoming).expire.pump) :
    Ends drive world done failed := by
  have hresync : Ends resync world (fun _ after => after = world) fun _ _ => False := by
    rw [Ends, result_resync hstale]
  have hawait (deadline : Option Nat) : Ends (await deadline) world
      (fun arrival after => arrival = .received (.ok datagram) ∧ after = { world with channel })
      fun _ _ => False := by
    rw [Ends, result_await hreceived]
    exact ⟨rfl, rfl⟩
  rw [drive]
  refine Ends.bind (hresync.mono ?_ fun _ _ => False.elim)
  rintro _ _ rfl
  refine Ends.bind (Ends.pump fun _ => ?_)
  rw [hpump]
  refine Ends.bind (Ends.get (Ends.bind ((hawait _).mono ?_ fun _ _ => False.elim)))
  rintro _ _ ⟨rfl, rfl⟩
  refine Ends.bind ((ends_absorb _ _).mono ?_ ?_)
  · rintro incoming _ ⟨exchange, hexchange, rfl⟩
    refine Ends.bind (Ends.change (Ends.bind (Ends.change (Ends.pump fun hrunning => ?_))))
    exact h hexchange hrunning
  · rintro fault _ ⟨hfailed, -⟩
    exact absurd hfailed (Exchange.takeAll_ne_fault _ _ _ _)

theorem result_poll (id : Nat) (world : World) :
    result (poll id) world =
      (.ok (world.session.collect id).1, world.mapSession fun s => (s.collect id).2) := by
  rw [poll, result_bind, result_get]
  rfl

theorem result_waitWithin_of_some {world : World} {id : Nat} {ended : Except Fault Outcome}
    {session : Session} (hcollect : world.session.collect id = (some ended, session))
    (turns : Nat) :
    result (waitWithin id turns) world =
      (ended.mapError .fault, world.mapSession fun s => (s.collect id).2) := by
  cases turns with
  | zero =>
      rw [waitWithin, result_bind, result_poll, hcollect]
      exact result_ofExcept ended _
  | succ left =>
      rw [waitWithin, result_bind, result_poll, hcollect]
      exact result_ofExcept ended _

theorem result_waitWithin_of_none {world : World} {id : Nat}
    (hcollect : world.session.collect id = (none, world.session)) (turns : Nat) :
    result (waitWithin id turns) world = match turns with
      | 0 => (.error .stalled, world)
      | left + 1 => result (drive >>= fun _ => waitWithin id left) world := by
  have hsame : (world.mapSession fun s => (s.collect id).2) = world := by
    rw [World.mapSession, hcollect]
  cases turns with
  | zero =>
      rw [waitWithin, result_bind, result_poll, hsame, hcollect]
      rfl
  | succ left =>
      rw [waitWithin, result_bind, result_poll, hsame, hcollect]

end Flow

namespace World

variable {start : Session} {op : Operation} {world : World}

/-- A turn leaves an operation that waits waiting, or ends it. -/
theorem Waits.drive (h : world.Waits start op) (hwanted : op.desired.Understood)
    (hstale : start.stale = false) :
    Flow.Ends Flow.drive world (fun _ after => after.Carries start op.id op.desired)
      fun _ _ => False := by
  obtain ⟨datagram, channel, hreceived, hcases⟩ := h.receive
  have hcalm : world.session.stale = false :=
    (congrArg (fun frame => frame.2.2) h.pursues.frame).trans hstale
  refine Flow.ends_drive hcalm h.pump hreceived fun {exchange incoming} hexchange hrunning => ?_
  rcases hcases with hcrash | ⟨_, _, hsame, hcases⟩
  · exact absurd (hcrash.symm.trans hexchange) (by simp)
  obtain ⟨rfl, rfl⟩ := Prod.mk.inj (Except.ok.inj (hsame.symm.trans hexchange))
  rcases hcases with hwaits | ⟨next, hid, hdesired, hdue⟩ | hconcluded
  · rcases hwaits.expire with ⟨next, hid, hdesired, hnext⟩ | hconcluded
    · rw [hnext.pump]
      exact Or.inl ⟨next, hid, hdesired, hnext⟩
    · rw [hconcluded.pump]
      exact Or.inr hconcluded
  · rw [hdue.expire] at hrunning ⊢
    rw [← hid, ← hdesired]
    exact hdue.pump (hdesired ▸ hwanted) hrunning
  · rw [hconcluded.expire, hconcluded.pump]
    exact Or.inr hconcluded

/-- A world after an operation whose outcome was handed out. -/
structure Served (start : Session) (wanted : Object) (outcome : Outcome) (world : World) :
    Prop where
  frame : world.session.frame = start.frame
  operations : world.session.operations = []
  results : world.session.results = start.results
  shown : ∃ found, (outcome = .confirmed found ∨ outcome = .unchanged found) ∧
    world.session.inventory.find? wanted = some found ∧ found.satisfies wanted = true

theorem Waits.collect (h : world.Waits start op)
    (hfresh : ∀ entry ∈ start.results, entry.1 ≠ op.id) :
    world.session.collect op.id = (none, world.session) := by
  have hnone : world.session.results.find? (·.1 == op.id) = none := by
    rw [h.pursues.results, List.find?_eq_none]
    simpa using hfresh
  rw [Session.collect, hnone, h.pursues.operations]
  simp

theorem Concluded.collect {id : Nat} {wanted : Object} (h : world.Concluded start id wanted)
    (hfresh : ∀ entry ∈ start.results, entry.1 ≠ id) :
    ∃ result, world.session.collect id =
        (some result, { world.session with results := start.results }) ∧
      ∀ outcome, result = .ok outcome →
        (world.mapSession fun s => (s.collect id).2).Served start wanted outcome := by
  obtain ⟨result, hresults, hshown⟩ := h.result
  have hcollect := Session.collect_last hresults hfresh
  refine ⟨result, hcollect, fun outcome houtcome => ?_⟩
  rw [mapSession, hcollect]
  exact ⟨h.frame, h.operations, rfl, hshown outcome houtcome⟩

theorem Concluded.served {id : Nat} {wanted : Object} (h : world.Concluded start id wanted)
    (hfresh : ∀ entry ∈ start.results, entry.1 ≠ id) (turns : Nat) {outcome : Outcome}
    {after : World}
    (hresult : Flow.result (Flow.waitWithin id turns) world = (.ok outcome, after)) :
    after.Served start wanted outcome := by
  obtain ⟨ended, hcollect, hserved⟩ := h.collect hfresh
  rw [Flow.result_waitWithin_of_some hcollect] at hresult
  obtain ⟨hended, rfl⟩ := Prod.mk.inj hresult
  refine hserved outcome ?_
  cases ended with
  | ok value => rw [Except.ok.inj hended]
  | error fault => exact absurd hended (by simp [Except.mapError])

/-- Waiting for an operation that is carried on ends well only if what it wants is shown. -/
theorem Carries.served {id : Nat} {wanted : Object} (hwanted : wanted.Understood)
    (hstale : start.stale = false) (hfresh : ∀ entry ∈ start.results, entry.1 ≠ id) (turns : Nat)
    (h : world.Carries start id wanted) {outcome : Outcome} {after : World}
    (hresult : Flow.result (Flow.waitWithin id turns) world = (.ok outcome, after)) :
    after.Served start wanted outcome := by
  -- On the turns that are left. A turn keeps the operation carried on; its time may run out on the
  -- way, but then the wait ends with a fault.
  induction turns generalizing world with
  | zero =>
      rcases h with ⟨op, rfl, -, hwaits⟩ | hconcluded
      · rw [Flow.result_waitWithin_of_none (hwaits.collect hfresh)] at hresult
        exact absurd (congrArg Prod.fst hresult) (by simp)
      · exact hconcluded.served hfresh 0 hresult
  | succ turns ih =>
      rcases h with ⟨op, rfl, rfl, hwaits⟩ | hconcluded
      · rw [Flow.result_waitWithin_of_none (hwaits.collect hfresh)] at hresult
        obtain ⟨_, middle, hdrive, hrest⟩ := Flow.result_bind_ok_iff.mp hresult
        exact ih ((hwaits.drive hwanted hstale).of_ok hdrive) hrest
      · exact hconcluded.served hfresh (turns + 1) hresult

end World

end NetState
