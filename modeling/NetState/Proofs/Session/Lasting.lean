import NetState.Proofs.Session.Stage
import NetState.Proofs.Session.Transmit

namespace NetState

namespace Session

/-- The requests that operations have left. -/
def left (session : Session) : List Step :=
  session.operations.flatMap Operation.steps

/-- A session comes from another one by nothing that leaves operations more to do, under the same
configuration. -/
structure Relieves (session after : Session) : Prop where
  config : after.config = session.config
  probe : after.probe = session.probe
  left : after.left ⊆ session.left

theorem mem_left_iff {session : Session} {step : Step} :
    step ∈ session.left ↔ ∃ op ∈ session.operations, step ∈ op.steps :=
  List.mem_flatMap

namespace Relieves

variable {session middle after : Session}

theorem refl (session : Session) : session.Relieves session :=
  ⟨rfl, rfl, List.Subset.refl _⟩

theorem trans (h : session.Relieves middle) (hmore : middle.Relieves after) :
    session.Relieves after :=
  ⟨hmore.config.trans h.config, hmore.probe.trans h.probe, List.Subset.trans hmore.left h.left⟩

theorem of_operations (hconfig : after.config = session.config)
    (hprobe : after.probe = session.probe)
    (hkept : ∀ op ∈ after.operations, op ∈ session.operations) :
    session.Relieves after := by
  refine ⟨hconfig, hprobe, fun step hstep => ?_⟩
  obtain ⟨op, hop, hmem⟩ := mem_left_iff.mp hstep
  exact mem_left_iff.mpr ⟨op, hkept op hop, hmem⟩

end Relieves

variable (session : Session)

theorem relieves_conclude (verdict : Operation → Option (Except Fault Outcome)) :
    session.Relieves (session.conclude verdict) :=
  .of_operations rfl rfl fun _ => List.mem_of_mem_filter

theorem relieves_confirm : session.Relieves session.confirm :=
  session.relieves_conclude _

theorem relieves_expire (now : Nat) : session.Relieves (session.expire now) :=
  .of_operations rfl rfl fun _ => List.mem_of_mem_filter

theorem relieves_abandon (interface : UInt32) : session.Relieves (session.abandon interface) :=
  .of_operations rfl rfl fun _ => List.mem_of_mem_filter

theorem relieves_update {op new : Operation} (hop : op ∈ session.operations)
    (hsteps : new.steps ⊆ op.steps) : session.Relieves (session.update new) := by
  refine ⟨rfl, rfl, fun step hstep => ?_⟩
  obtain ⟨other, hother, hmem⟩ := mem_left_iff.mp hstep
  obtain ⟨old, hold, rfl⟩ := List.mem_map.mp hother
  split at hmem
  · exact mem_left_iff.mpr ⟨op, hop, hsteps hmem⟩
  · exact mem_left_iff.mpr ⟨old, hold, hmem⟩

theorem relieves_advance {op : Operation} (hop : op ∈ session.operations) (deadline : Nat) :
    session.Relieves (session.update (op.advance deadline)) :=
  session.relieves_update hop fun _ => List.mem_of_mem_tail

theorem Replied.relieves {session after : Session} {now : Nat} {seq : UInt32}
    {result : Except Fault Reply} (h : session.Replied now seq result after) :
    session.Relieves after := by
  cases h with
  | ignored => exact .refl session
  | acked hfind | skipped hfind =>
      exact session.relieves_advance (List.mem_of_find?_eq_some hfind) _
  | gone | failed => exact .of_operations rfl rfl fun _ => List.mem_of_mem_filter
  | postponed hfind =>
      exact session.relieves_update (List.mem_of_find?_eq_some hfind) (List.Subset.refl _)

theorem relieves_takeRemoval (slot : Slot) : session.Relieves (session.takeRemoval slot) := by
  have hconfirm : session.Relieves
      ({ session with watched := (session.watched.remove slot).2 } : Session).confirm :=
    .of_operations rfl rfl fun _ => List.mem_of_mem_filter
  rcases session.takeRemoval_cases slot with ⟨-, hkept⟩ | ⟨l, -, hgone⟩
  · rw [hkept]
    exact hconfirm
  · rw [hgone]
    exact hconfirm.trans (relieves_abandon _ _)

theorem relieves_take (now : Nat) (incoming : Incoming) :
    session.Relieves (session.take now incoming) := by
  cases incoming with
  | notice kind change object =>
      cases change with
      | new => exact .of_operations rfl rfl fun _ => List.mem_of_mem_filter
      | del => exact relieves_takeRemoval session _
  | reply seq result =>
      exact (session.replied_takeReply now seq result).relieves.trans (relieves_confirm _)
  | part seq objects => exact relieves_confirm session
  | overrun => exact .of_operations rfl rfl fun _ => List.mem_of_mem_filter

theorem relieves_takeAll (now : Nat) (incoming : List Incoming) :
    session.Relieves (incoming.foldl (Session.take · now) session) := by
  induction incoming generalizing session with
  | nil => exact .refl session
  | cons first rest ih => exact (relieves_take session now first).trans (ih _)

theorem relieves_foldl_abandon (interfaces : List UInt32) :
    session.Relieves (interfaces.foldl abandon session) := by
  induction interfaces generalizing session with
  | nil => exact .refl session
  | cons first rest ih => exact (relieves_abandon session first).trans (ih _)

theorem relieves_reconcile (kind : Kind) (objects : List Object) :
    session.Relieves (session.reconcile kind objects).2 := by
  rw [reconcile]
  refine Relieves.trans ?_ (relieves_foldl_abandon _ _)
  exact .of_operations rfl rfl fun _ => List.mem_of_mem_filter

theorem relieves_collect (number : Nat) : session.Relieves (session.collect number).2 := by
  rw [collect]
  split
  · exact .of_operations rfl rfl fun _ => id
  · split <;> exact .refl session

end Session

theorem Channel.send_cases (channel : Channel) (datagram : Bytes) :
    (channel.send datagram).1.peer = channel.peer ∧
        (channel.send datagram).1.sent = channel.sent ∨
      (channel.send datagram).1.peer = (channel.peer.take datagram).1 ∧
        (channel.send datagram).1.sent = datagram :: channel.sent := by
  rw [send]
  split
  · exact Or.inl ⟨rfl, rfl⟩
  · exact Or.inr ⟨rfl, rfl⟩

theorem Channel.of_receive? {channel rest : Channel} {received : Except Fault Bytes}
    (h : channel.receive? = some (received, rest)) :
    rest.sent = channel.sent ∧ rest.peer.holdings = channel.peer.holdings := by
  rcases receive?_eq_some h with ⟨left, -, rfl⟩ | ⟨-, peer, hpeer, rfl⟩
  · exact ⟨rfl, rfl⟩
  · exact ⟨rfl, Peer.holdings_receive? hpeer⟩

theorem World.channel_transmit (world : World) (draft : Draft) (awaited : Awaited) :
    (world.transmit draft awaited).1.channel =
      (world.channel.send (world.stamped draft).toBytes).1 := by
  rw [World.transmit]
  simp only
  split <;> rfl

/-- Whether a datagram asks for a change: the type of one of its messages tells of one. -/
def Exchange.asksForChange (datagram : Bytes) : Bool :=
  (messages datagram).any fun message => (Object.changeOf? message.header.kind).isSome

theorem Exchange.asksForChange_toBytes {draft : Draft} (h : draft.IsMeasured) :
    asksForChange draft.toBytes = (Object.changeOf? draft.kind).isSome := by
  rw [asksForChange, messages_toBytes h, List.any_cons, List.any_nil, Bool.or_false]
  rfl

/-- The requests for changes that were sent, in order. -/
def Channel.changes (channel : Channel) : List Bytes :=
  (channel.sent.filter Exchange.asksForChange).reverse

theorem Channel.changes_of_sent {channel after : Channel} (h : after.sent = channel.sent) :
    after.changes = channel.changes := by
  rw [changes, changes, h]

/-- A request for a listing, by which the kernel changes nothing. -/
structure Draft.AsksForListing (draft : Draft) : Prop where
  measured : draft.IsMeasured
  asks : Peer.asksForListing draft.header = true
  unchanging : Object.changeOf? draft.kind = none

namespace Kind

theorem asksForListing_listing (kind : Kind) : kind.listing.AsksForListing where
  measured := by
    rw [Draft.IsMeasured]
    cases kind <;> decide
  asks := by cases kind <;> decide
  unchanging := by cases kind <;> decide

theorem asksForListing_filterListing (interface : UInt32) (parent : Handle) :
    (Kind.filterListing interface parent).AsksForListing where
  measured := by
    have hbody : (Kind.filterListing interface parent).body =
        TrafficHead.toBytes { TrafficHead.zero with interface, parent } :=
      Field.encodeAll_raw ⟨5, rfl⟩
    rw [Draft.IsMeasured, hbody]
    exact show Header.size + TrafficHead.size < UInt32.size by decide
  asks := show (Flag.request ||| Flag.dump) &&& Flag.dump == Flag.dump by decide
  unchanging := show Object.changeOf? MessageType.getFilter = none by decide

end Kind

theorem World.changes_transmit {world : World} {draft : Draft} (h : draft.AsksForListing)
    (awaited : Awaited) :
    (world.transmit draft awaited).1.channel.changes = world.channel.changes := by
  have hunchanging : Exchange.asksForChange (world.stamped draft).toBytes = false := by
    rw [Exchange.asksForChange_toBytes (show (world.stamped draft).IsMeasured from h.measured)]
    exact Option.isSome_eq_false_iff.mpr (Option.isNone_iff_eq_none.mpr h.unchanging)
  rw [channel_transmit]
  rcases world.channel.send_cases (world.stamped draft).toBytes with ⟨-, hsent⟩ | ⟨-, hsent⟩
  · exact Channel.changes_of_sent hsent
  · rw [Channel.changes, hsent, List.filter_cons_of_neg (by simp [hunchanging])]
    rfl

namespace Flow

/-- A call leaves something true that was true before, however it ends. -/
def Keeps {α : Type} (holds : World → Prop) (flow : Flow α) : Prop :=
  ∀ world, holds world → holds (result flow world).2

namespace Keeps

variable {α β : Type} {holds : World → Prop}

theorem bind {flow : Flow α} {next : α → Flow β} (h : Keeps holds flow)
    (hnext : ∀ value, Keeps holds (next value)) : Keeps holds (flow >>= next) := by
  intro world hworld
  have hmiddle := h world hworld
  rw [result_bind]
  rcases hresult : result flow world with ⟨halt | value, middle⟩
  · rw [hresult] at hmiddle
    exact hmiddle
  · rw [hresult] at hmiddle
    exact hnext value middle hmiddle

theorem bind_get {next : World → Flow α}
    (h : ∀ world, holds world → holds (result (next world) world).2) :
    Keeps holds (MonadState.get >>= next) := by
  intro world hworld
  rw [result_bind, result_get]
  exact h world hworld

theorem pure (value : α) : Keeps holds (Pure.pure value : Flow α) :=
  fun _ => id

theorem get : Keeps holds (MonadState.get : Flow World) :=
  fun _ => id

theorem throw (halt : Halt) : Keeps holds (MonadExcept.throw halt : Flow α) :=
  fun _ => id

theorem ofExcept (ended : Except Fault α) : Keeps holds (Flow.ofExcept ended) := by
  intro world hworld
  rw [result_ofExcept]
  exact hworld

theorem change {update : World → World} (h : ∀ world, holds world → holds (update world)) :
    Keeps holds (Flow.change update) :=
  h

theorem session {update : Session → Session}
    (h : ∀ world, holds world → holds (world.mapSession update)) :
    Keeps holds (Flow.session update) :=
  h

theorem ofFailing (ended : Except Failure α) : Keeps holds (Flow.ofFailing ended) := by
  rcases ended with (fault | _) | value
  · exact throw _
  · exact throw _
  · exact pure value

theorem sending {update : World → World × Except Fault α}
    (h : ∀ world, holds world → holds (update world).1) : Keeps holds (Flow.sending update) := by
  intro world hworld
  rw [result_sending]
  exact h world hworld

theorem discard {flow : Flow α} (h : Keeps holds flow) : Keeps holds (Functor.discard flow) :=
  show Keeps holds (flow >>= fun _ => Pure.pure ()) from h.bind fun _ => pure ()

theorem recover {flow : Flow α} {handle : Fault → Flow α} (h : Keeps holds flow)
    (hhandle : ∀ fault, Keeps holds (handle fault)) : Keeps holds (Flow.recover flow handle) := by
  intro world hworld
  have hmiddle := h world hworld
  rw [result_recover]
  rcases hresult : result flow world with ⟨(fault | _ | _) | value, middle⟩
  · rw [hresult] at hmiddle
    exact hhandle fault middle hmiddle
  · rw [hresult] at hmiddle
    exact hmiddle
  · rw [hresult] at hmiddle
    exact hmiddle
  · rw [hresult] at hmiddle
    exact hmiddle

theorem mapM {each : β → Flow α} {list : List β} (h : ∀ element, Keeps holds (each element)) :
    Keeps holds (list.mapM each) := by
  induction list with
  | nil =>
      rw [List.mapM_nil]
      exact pure _
  | cons first rest ih =>
      rw [List.mapM_cons]
      exact (h first).bind fun _ => ih.bind fun _ => pure _

theorem forM {each : β → Flow PUnit} {list : List β} (h : ∀ element, Keeps holds (each element)) :
    Keeps holds (list.forM each) := by
  induction list with
  | nil => exact pure _
  | cons first rest ih =>
      rw [List.forM]
      exact (h first).bind fun _ => ih

end Keeps

/-- What the changes that calls consist of keep. Submitting an operation and finding out the
features of the kernel are not among them, as it depends on the property why they keep it. -/
structure Lasting (holds : World → Prop) : Prop where
  /-- Something is received. -/
  socket : ∀ {world : World} {received : Except Fault Bytes} {channel : Channel},
    world.channel.receive? = some (received, channel) → holds world → holds { world with channel }
  clock : ∀ {world : World} (now : Nat), holds world → holds { world with now }
  /-- A listing is asked for, or that fails. -/
  ask : ∀ {world : World} {draft : Draft} (awaited : Awaited), draft.AsksForListing →
    holds world → holds (world.transmit draft awaited).1
  relieve : ∀ {world : World} {after : Session}, world.session.Relieves after →
    holds world → holds { world with session := after }
  /-- The request of a step that an operation has left is sent, or that fails. -/
  transmitStep : ∀ {world : World} {step : Step}, step ∈ world.session.left →
    holds world → holds (world.transmitStep step).1

namespace Lasting

variable {holds : World → Prop} (h : Lasting holds)

include h

theorem exchange {world : World} (exchange : Exchange) (hworld : holds world) :
    holds (world.mapSession ({ · with exchange })) :=
  h.relieve (.of_operations rfl rfl fun _ => id) hworld

theorem takeAll (incoming : List Incoming) : Keeps holds (change (·.takeAll incoming)) :=
  Keeps.change fun world => h.relieve (world.session.relieves_takeAll world.now incoming)

theorem expire : Keeps holds (change World.expire) :=
  Keeps.change fun world => h.relieve (world.session.relieves_expire world.now)

theorem pumpOne {world : World} {op : Operation} (hop : op ∈ world.session.operations)
    (hworld : holds world) : holds (world.pumpOne op).1 := by
  rcases world.pumpOne_cases op with ⟨-, hrest⟩ | ⟨step, hstep, -, hsend⟩
  · rw [hrest]
    exact hworld
  · rw [hsend]
    exact h.transmitStep (Session.mem_left_iff.mpr ⟨op, hop, List.mem_of_mem_head? hstep⟩) hworld

theorem pumpEach {world : World} {operations : List Operation}
    (hops : operations ⊆ world.session.operations) (hworld : holds world) :
    holds (world.pumpEach operations).1 := by
  induction operations generalizing world with
  | nil => exact hworld
  | cons op rest ih =>
      obtain ⟨hop, hrest⟩ := List.cons_subset.mp hops
      have hone := h.pumpOne hop hworld
      have hsame : (world.pumpOne op).1.session.operations = world.session.operations := by
        rw [(World.sends_pumpOne world op).session]
      rw [← hsame] at hrest
      rcases hpump : world.pumpOne op with ⟨middle, fault | pumped⟩ <;> rw [hpump] at hone hrest
      · rw [World.pumpEach_cons_error hpump]
        exact ih hrest hone
      · rw [World.pumpEach_cons_ok hpump]
        exact ih hrest hone

theorem pump {world : World} (hworld : holds world) : holds world.pump := by
  rw [World.pump_eq]
  refine h.relieve ⟨rfl, rfl, fun step hstep => ?_⟩ (h.pumpEach (List.Subset.refl _) hworld)
  obtain ⟨op, hop, hmem⟩ := Session.mem_left_iff.mp hstep
  obtain ⟨hsends, left, hleft, hpumped⟩ := World.exists_pumped world world.session.operations
  obtain ⟨old, hold, hpump⟩ := Operation.exists_of_forall₂ hpumped hop
  refine Session.mem_left_iff.mpr ⟨old, ?_, hpump.steps ▸ hmem⟩
  rw [hsends.session]
  exact hleft.subset hold

theorem sendDue : Keeps holds Flow.pump :=
  Keeps.sending fun _ => h.pump

theorem await (deadline : Option Nat) : Keeps holds (await deadline) := by
  refine Keeps.bind_get fun world hworld => ?_
  split
  · rename_i received channel hreceived
    exact h.socket hreceived hworld
  · split <;> exact h.clock _ hworld

theorem absorb (received : Except Fault Bytes) : Keeps holds (absorb received) := by
  refine Keeps.bind_get fun world hworld => ?_
  refine Keeps.bind (Keeps.ofFailing _) (fun found => ?_) world hworld
  exact Keeps.bind (Keeps.session fun _ => h.exchange found.1) fun _ => Keeps.pure _

theorem giveUp {α : Type} (kind : Kind) (seq : UInt32) :
    Keeps holds (giveUp kind seq : Flow α) := by
  refine Keeps.bind (Keeps.session fun world => h.exchange (world.session.exchange.cancel seq)) ?_
  intro _
  exact Keeps.bind Keeps.get fun _ => Keeps.throw _

omit h in
theorem listedIn (kind : Kind) (answer : Except Fault Reply) :
    Keeps holds (listedIn kind answer) := by
  rcases answer with fault | _ | _
  · exact Keeps.throw _
  · exact Keeps.pure _
  · exact Keeps.pure _

theorem awaitNext (kind : Kind) (seq : UInt32) (deadline : Nat) :
    Keeps holds (awaitNext kind seq deadline) := by
  refine Keeps.bind (h.await _) fun arrival => ?_
  cases arrival with
  | elapsed => exact h.giveUp kind seq
  | received received =>
      refine Keeps.bind (h.absorb received) fun incoming => ?_
      refine Keeps.bind (h.takeAll _) fun _ => Keeps.bind h.expire fun _ => ?_
      split
      · exact Keeps.bind (listedIn kind _) fun _ => Keeps.pure _
      · exact Keeps.pure _

theorem awaitListing (kind : Kind) (seq : UInt32) (deadline count : Nat) :
    Keeps holds (awaitListing kind seq deadline count) := by
  induction count with
  | zero =>
      refine Keeps.bind (h.awaitNext kind seq deadline) fun listing => ?_
      cases listing with
      | none => exact Keeps.throw _
      | some listing => exact Keeps.pure _
  | succ count ih =>
      refine Keeps.bind (h.awaitNext kind seq deadline) fun listing => ?_
      cases listing with
      | none => exact ih
      | some listing => exact Keeps.pure _

section

variable {request : Draft} (hrequest : request.AsksForListing)

include hrequest

theorem listOnce (kind : Kind) : Keeps holds (listOnce kind request) := by
  refine Keeps.bind (Keeps.sending fun _ => h.ask _ hrequest) fun seq => ?_
  exact Keeps.bind Keeps.get fun world => h.awaitListing kind seq _ _

theorem list (kind : Kind) (retries : Nat) : Keeps holds (list kind request retries) := by
  induction retries with
  | zero => exact Keeps.bind (h.listOnce hrequest kind) fun _ => Keeps.pure _
  | succ left ih =>
      refine Keeps.bind (h.listOnce hrequest kind) ?_
      rintro ⟨objects, interrupted⟩
      simp only
      split
      · exact ih
      · exact Keeps.pure _

theorem listed (kind : Kind) : Keeps holds (listed kind request) :=
  Keeps.bind Keeps.get fun _ => h.list hrequest kind _

theorem listedUnless (expected : Fault → Bool) (kind : Kind) :
    Keeps holds (listedUnless expected kind request) := by
  refine Keeps.recover (h.listed hrequest kind) fun fault => ?_
  split
  · exact Keeps.pure _
  · exact Keeps.throw _

end

theorem listKind (kind : Kind) : Keeps holds (listKind kind) := by
  rw [Flow.listKind]
  split
  · refine Keeps.bind Keeps.get fun world => Keeps.bind (Keeps.mapM ?_) fun _ => Keeps.pure _
    rintro ⟨interface, parent⟩
    exact h.listedUnless (Kind.asksForListing_filterListing interface parent) _ kind
  · exact h.listedUnless kind.asksForListing_listing _ kind

theorem syncKind (kind : Kind) : Keeps holds (syncKind kind) := by
  refine Keeps.bind (h.listKind kind) fun objects => Keeps.bind_get fun world hworld => ?_
  exact h.relieve (world.session.relieves_reconcile kind objects) hworld

theorem syncRound : Keeps holds syncRound := by
  have hstale : Keeps holds (Flow.session ({ · with stale := false })) :=
    Keeps.session fun _ => h.relieve (.of_operations rfl rfl fun _ => id)
  exact Keeps.bind hstale fun _ => Keeps.forM fun kind => Keeps.discard (h.syncKind kind)

theorem syncRounds (rounds : Nat) : Keeps holds (syncRounds rounds) := by
  induction rounds with
  | zero => exact h.syncRound
  | succ left ih =>
      refine Keeps.bind h.syncRound fun _ => Keeps.bind Keeps.get fun world => ?_
      split
      · exact ih
      · exact Keeps.pure _

theorem syncAll : Keeps holds syncAll :=
  Keeps.bind Keeps.get fun _ => h.syncRounds _

theorem resync : Keeps holds resync := by
  refine Keeps.bind Keeps.get fun world => ?_
  split
  · exact h.syncAll
  · exact Keeps.pure _

theorem poll (id : Nat) : Keeps holds (poll id) := by
  refine Keeps.bind_get fun world hworld => ?_
  exact h.relieve (world.session.relieves_collect id) hworld

theorem drive : Keeps holds drive := by
  refine Keeps.bind h.resync fun _ => Keeps.bind h.sendDue fun _ =>
    Keeps.bind Keeps.get fun world => ?_
  refine Keeps.bind (h.await _) fun arrival => ?_
  have hend : Keeps holds (do change World.expire; Flow.pump) :=
    Keeps.bind h.expire fun _ => h.sendDue
  cases arrival with
  | elapsed => exact hend
  | received received =>
      exact Keeps.bind (h.absorb received) fun incoming =>
        Keeps.bind (h.takeAll incoming) fun _ => hend

theorem waitWithin (id turns : Nat) : Keeps holds (waitWithin id turns) := by
  induction turns with
  | zero =>
      refine Keeps.bind (h.poll id) fun result => ?_
      cases result with
      | none => exact Keeps.throw _
      | some result => exact Keeps.ofExcept result
  | succ left ih =>
      refine Keeps.bind (h.poll id) fun result => ?_
      cases result with
      | none => exact Keeps.bind h.drive fun _ => ih
      | some result => exact Keeps.ofExcept result

theorem takeWaiting (count : Nat) : Keeps holds (takeWaiting count) := by
  induction count with
  | zero => exact Keeps.pure _
  | succ count ih =>
      refine Keeps.bind_get fun world hworld => ?_
      split
      · exact hworld
      · rename_i received channel hreceived
        have hrest : Keeps holds (do
            let incoming ← Flow.absorb received
            change (·.takeAll incoming)
            return incoming.length + (← Flow.takeWaiting count)) :=
          Keeps.bind (h.absorb received) fun incoming =>
            Keeps.bind (h.takeAll incoming) fun _ => Keeps.bind ih fun _ => Keeps.pure _
        exact hrest _ (h.socket hreceived hworld)

theorem drain : Keeps holds drain :=
  Keeps.bind Keeps.get fun _ => Keeps.bind (h.takeWaiting _) fun _ =>
    Keeps.bind h.resync fun _ => Keeps.pure _

theorem settleWithin (turns : Nat) : Keeps holds (settleWithin turns) := by
  induction turns with
  | zero =>
      refine Keeps.bind h.resync fun _ => Keeps.bind Keeps.get fun world => ?_
      split
      · exact Keeps.throw _
      · exact Keeps.pure _
  | succ left ih =>
      refine Keeps.bind h.resync fun _ => Keeps.bind Keeps.get fun world => ?_
      split
      · exact Keeps.bind h.drive fun _ => ih
      · exact Keeps.pure _

/-- What lasts through the changes lasts through every call, if the calls for which it depends keep
it. -/
theorem call (hsupport : Keeps holds Flow.support) (hinvalidate : Keeps holds invalidateSupport)
    (hsubmit : ∀ desired goal, Keeps holds (Flow.submit desired goal)) (call : Call) :
    Keeps holds call.flow := by
  cases call with
  | submit desired goal => exact Keeps.discard (hsubmit desired goal)
  | wait number => exact Keeps.discard (h.waitWithin number _)
  | apply desired goal =>
      exact Keeps.discard (Keeps.bind (hsubmit desired goal) fun number => h.waitWithin number _)
  | poll number => exact Keeps.discard (h.poll number)
  | drive => exact h.drive
  | settle => exact Keeps.bind (h.settleWithin _) fun _ => Keeps.discard h.drain
  | drain => exact Keeps.discard h.drain
  | syncAll => exact h.syncAll
  | syncKind kind => exact Keeps.discard (h.syncKind kind)
  | support => exact Keeps.discard hsupport
  | invalidateSupport => exact hinvalidate

end Lasting

end Flow

end NetState
