import Mathlib.Logic.Relation
import NetState.Proofs.Session.Deliver
import NetState.Proofs.Session.Reach

namespace NetState

open Peer

namespace Peer

/-- What deeds do not touch: what waits to be received, and how the peer is set. -/
def settings (peer : Peer) : List Bytes × Nat × Bool × Bool :=
  (peer.outbox, peer.overruns, peer.muted, peer.repliesDropped)

theorem settings_of_deed {peer after : Peer} {news : List News} (hdeed : Deed peer news after) :
    after.settings = peer.settings := by
  cases hdeed <;> rfl

theorem exists_pending {peer : Peer} {origin : Origin} {effect : Effect} (h : peer.Sound)
    (hcourse : Course peer origin effect) (haccepted : effect.refusal = none)
    (htellable : peer.Tellable) (hafter : effect.peer.Tellable)
    (hkeeps : peer.KeepsProtocols effect.peer) (hmuted : peer.muted = false)
    (hloud : origin.silent = false) {exchange : Exchange}
    (hunlisted : exchange.Unlisted origin.seq origin.pid) :
    ∃ more, effect.peer.settings =
        (peer.outbox ++ more, peer.overruns, peer.muted, peer.repliesDropped) ∧
      Pending exchange peer.Has more effect.peer.Has := by
  cases hcourse with
  | uprooted => exact absurd haccepted (by simp [refuse])
  | done hdeed refusal =>
      rename_i news after
      have hsettings := settings_of_deed hdeed
      simp only [settings, Prod.mk.injEq] at hsettings
      obtain ⟨houtbox, hoverruns, hmute, hdropped⟩ := hsettings
      have hhas : (after.tellAll origin news).Has = after.Has := rfl
      have hobjects {told : News} (htold : told ∈ news) :
          (∃ image, told.object.image? = some image) ∧
            ∀ f, told.object = .filter f → f.priority ≠ 0 := by
        rcases has_of_deed hdeed htold with hbefore | hlater
        · refine ⟨htellable.imaged hbefore, ?_⟩
          intro f hf
          rw [hf] at hbefore
          exact htellable.prioritized f hbefore
        · refine ⟨hafter.imaged hlater, ?_⟩
          intro f hf
          rw [hf] at hlater
          exact hafter.prioritized f hlater
      refine ⟨news.flatMap (News.datagrams origin false), ?_, ?_⟩
      · simp only [settings, tellAll, houtbox, hoverruns, hmute, hdropped, hmuted]
      · rw [hhas]
        exact Pending.of_account (account_deed h hdeed hkeeps) hloud hunlisted
          (fun told htold => (hobjects htold).1) fun told htold => (hobjects htold).2

/-- Whether a request is for a change that the peer carries out. -/
def Accepts (peer : Peer) (request : Message) : Prop :=
  takeFailure request.header.kind peer.failures = none ∧
    ((peer.noted request).carryOut request.header
      (Object.decode request.header.kind request.payload)).refusal = none

theorem crashes_of_accepts {peer : Peer} {request : Message} (h : peer.Accepts request)
    (hlisting : asksForListing request.header = false) : peer.crashes request = false := by
  obtain ⟨hfailure, haccepted⟩ := h
  rw [crashes, hfailure, hlisting]
  rcases hdecode : Object.decode request.header.kind request.payload with (fault | _) | told
  · rfl
  · rw [hdecode] at haccepted
    exact absurd haccepted (by simp [carryOut, refuse])
  · rfl

theorem answer_of_accepts {peer : Peer} {request : Message} (h : peer.Accepts request)
    (hlisting : asksForListing request.header = false)
    (hack : hasFlag request.header.flags Flag.ack = true) :
    peer.answer request = ((peer.noted request).carryOut request.header
      (Object.decode request.header.kind request.payload)).peer.report request.header 0 := by
  rw [answer_of_calm (crashes_of_accepts h hlisting), respond_eq, h.1]
  simp only [hlisting, Bool.false_eq_true, if_false]
  rw [answerChange_eq, h.2]
  exact if_pos hack

theorem settings_report (peer : Peer) (request : Header) :
    (peer.report request 0).settings = (peer.outbox ++
      (if peer.repliesDropped then [] else [(Exchange.ackReport request).toBytes]),
        peer.overruns, peer.muted, peer.repliesDropped) := by
  rw [report]
  split
  · rw [List.append_nil]
    rfl
  · rfl

theorem exists_pending_answer {peer : Peer} {request : Message} (h : peer.Sound)
    (haccepts : peer.Accepts request) (hlisting : asksForListing request.header = false)
    (hack : hasFlag request.header.flags Flag.ack = true)
    (hnext : peer.nextIndex ≤ (peer.answer request).nextIndex) (htellable : peer.Tellable)
    (hafter : (peer.answer request).Tellable) (hkeeps : peer.KeepsProtocols (peer.answer request))
    (hmuted : peer.muted = false) {exchange : Exchange}
    (hunlisted : exchange.Unlisted request.header.seq request.header.pid) :
    ∃ more, (peer.answer request).settings =
        (peer.outbox ++ more, peer.overruns, peer.muted, peer.repliesDropped) ∧
      Pending exchange peer.Has more (peer.answer request).Has := by
  rw [answer_of_accepts haccepts hlisting hack] at hnext hafter hkeeps ⊢
  have hnoted : (peer.noted request).Sound := h.of_holdings rfl
  have hheld := holdings_report ((peer.noted request).carryOut request.header
    (Object.decode request.header.kind request.payload)).peer request.header 0
  rw [nextIndex_of_holdings hheld] at hnext
  obtain ⟨more, hsettings, hmore⟩ := exists_pending hnoted
    (course_carryOut hnoted request.header _ hnext) haccepts.2 (htellable.of_holdings rfl)
    (hafter.of_holdings hheld.symm) (hkeeps.of_holdings hheld.symm) hmuted rfl hunlisted
  simp only [settings, Prod.mk.injEq] at hsettings
  obtain ⟨houtbox, hoverruns, hmute, hdropped⟩ := hsettings
  rw [settings_report, has_of_holdings hheld, houtbox, hoverruns, hmute, hdropped,
    List.append_assoc]
  refine ⟨_, rfl, hmore.append ?_⟩
  split
  · exact Pending.nil
  · exact Pending.report hunlisted Pending.nil

end Peer

namespace World

variable {world after : World}

def requestFlags (echo : Bool) (verb : Verb) : UInt16 :=
  let flags := Flag.request ||| Flag.ack ||| Object.verbFlags verb
  if echo then flags ||| Flag.echo else flags

theorem requestFlags_ack (echo : Bool) (verb : Verb) :
    hasFlag (requestFlags echo verb) Flag.ack = true := by
  cases echo <;> cases verb <;> decide

theorem requestFlags_dump (echo : Bool) (verb : Verb) :
    (requestFlags echo verb &&& Flag.dump == Flag.dump) = false := by
  cases echo <;> cases verb <;> decide

theorem requestOf_eq_ok {step : Step} {draft : Draft} (h : world.requestOf step = .ok draft) :
    ∃ fields, step.object.requestFields step.verb = .ok fields ∧
      Field.oversizedAmong? fields = none ∧
      draft = world.stamped (.new (step.object.requestType step.verb)
        (requestFlags world.session.config.echo step.verb) fields) := by
  obtain ⟨wanted, hrequest, rfl⟩ := map_eq_ok_iff.mp h
  obtain ⟨fields, hfields, hsize, rfl⟩ := Object.request_eq_ok_iff.mp hrequest
  refine ⟨fields, hfields, hsize, ?_⟩
  rw [requestFlags]
  cases world.session.config.echo <;> rfl

theorem isMeasured_requestOf {step : Step} {draft : Draft} (h : world.requestOf step = .ok draft) :
    draft.IsMeasured := by
  obtain ⟨fields, hfields, hsize, rfl⟩ := requestOf_eq_ok h
  exact Draft.isMeasured_of_atMost (Object.atMost_requestFields hfields) hsize

theorem transmitStep_eq_ok {step : Step} {draft : Draft} {seq : UInt32}
    (hdraft : world.requestOf step = .ok draft) (h : world.transmitStep step = (after, .ok seq)) :
    ∃ wanted, world.stamped wanted = draft ∧ after = world.sent wanted .ack := by
  rcases world.transmitStep_cases step with ⟨fault, -, hrequest, -⟩ | ⟨wanted, -, hrequest, hsend⟩
  · exact absurd (hdraft.symm.trans hrequest) (by simp)
  · rw [hsend] at h
    exact ⟨_, Except.ok.inj (hrequest.symm.trans hdraft), (transmit_eq_ok h).1⟩

end World

/-- A change that the peer carries out, by somebody outside or by request of the session. -/
inductive World.Changes (world : World) : World → Prop where
  | outside {object : Object} {goal : Goal} {peer : Peer}
      (h : world.channel.peer.intervene object goal false = (peer, .ok ())) :
      Changes world { world with channel := { world.channel with peer } }
  | request {step : Step} {draft : Draft} {after : World} {seq : UInt32}
      (hdraft : world.requestOf step = .ok draft)
      (haccepted : world.channel.peer.Accepts ⟨draft.header, draft.body⟩)
      (h : world.transmitStep step = (after, .ok seq)) : Changes world after

namespace World.Faithful

variable {world after : World}

theorem extend (h : world.Faithful) (hsound : after.channel.peer.Sound)
    (htellable : after.channel.peer.Tellable)
    (hinjected : after.channel.injected = world.channel.injected) {more : List Bytes}
    (hsettings : after.channel.peer.settings = (world.channel.peer.outbox ++ more,
      world.channel.peer.overruns, world.channel.peer.muted, world.channel.peer.repliesDropped))
    (hinventory : after.session.inventory = world.session.inventory)
    (hpid : after.session.exchange.pid = world.session.exchange.pid)
    (hunlisted : ∀ {seq pid}, world.session.exchange.Unlisted seq pid →
      after.session.exchange.Unlisted seq pid)
    (hmore : Pending after.session.exchange world.channel.peer.Has more after.channel.peer.Has) :
    after.Faithful := by
  simp only [settings, Prod.mk.injEq] at hsettings
  obtain ⟨houtbox, hoverruns, hmuted, -⟩ := hsettings
  obtain ⟨shown, hshows, hpending⟩ := h.pending
  refine ⟨hsound, htellable, hinjected.trans h.injected, hoverruns.trans h.overruns,
    hmuted.trans h.muted, ?_, ?_, shown, ?_, ?_⟩
  · rw [hpid]
    exact h.pid
  · rw [hinventory]
    exact h.consistent
  · rw [hinventory]
    exact hshows
  · rw [houtbox]
    exact (hpending.mono hunlisted).append hmore

theorem outside (h : world.Faithful) {object : Object} {goal : Goal} {peer : Peer}
    (hchange : world.channel.peer.intervene object goal false = (peer, .ok ()))
    (hnext : world.channel.peer.nextIndex ≤ peer.nextIndex) (htellable : peer.Tellable)
    (hkeeps : world.channel.peer.KeepsProtocols peer) :
    ({ world with channel := { world.channel with peer } } : World).Faithful := by
  rw [intervene_eq] at hchange
  obtain ⟨rfl, hresult⟩ := Prod.mk.inj hchange
  have haccepted : (world.channel.peer.interference object goal false).refusal = none := by
    split at hresult
    · assumption
    · exact absurd hresult (by simp)
  have hcourse := course_apply h.sound (.outside false) _ goal object hnext
  have hunlisted : world.session.exchange.Unlisted 0 0 := by
    intro hpid
    exact absurd hpid.symm h.pid
  obtain ⟨more, hsettings, hmore⟩ := exists_pending h.sound hcourse haccepted h.tellable htellable
    hkeeps h.muted rfl hunlisted
  exact h.extend (h.sound.course hcourse) htellable rfl hsettings rfl rfl id hmore

theorem request (h : world.Faithful) {step : Step} {draft : Draft} {seq : UInt32}
    (hdraft : world.requestOf step = .ok draft)
    (haccepted : world.channel.peer.Accepts ⟨draft.header, draft.body⟩)
    (hsent : world.transmitStep step = (after, .ok seq))
    (hnext : world.channel.peer.nextIndex ≤ after.channel.peer.nextIndex)
    (htellable : after.channel.peer.Tellable)
    (hkeeps : world.channel.peer.KeepsProtocols after.channel.peer) : after.Faithful := by
  obtain ⟨wanted, rfl, rfl⟩ := transmitStep_eq_ok hdraft hsent
  obtain ⟨fields, -, -, hform⟩ := requestOf_eq_ok hdraft
  have hflags := congrArg Draft.flags hform
  have hmeasured : (world.stamped wanted).IsMeasured := isMeasured_requestOf hdraft
  have hanswer := @peer_sent world wanted hmeasured .ack
  rw [hanswer] at hnext htellable hkeeps
  obtain ⟨more, hsettings, hmore⟩ := exists_pending_answer h.sound haccepted
    (show ((world.stamped wanted).flags &&& Flag.dump == Flag.dump) = false by
      rw [hflags]
      exact requestFlags_dump _ _)
    (show hasFlag (world.stamped wanted).flags Flag.ack = true by
      rw [hflags]
      exact requestFlags_ack _ _)
    hnext h.tellable htellable hkeeps h.muted
    (Exchange.unlisted_expectAck world.session.exchange world.session.exchange.pid)
  rw [← hanswer] at hnext htellable hsettings hmore
  refine h.extend ?_ htellable rfl hsettings rfl rfl (fun hown => hown.expectAck) hmore
  rw [hanswer] at hnext ⊢
  exact h.sound.answer _ hnext

theorem aside (h : world.Faithful) {session : Session} (hsession : world.session.Follows session)
    (now horizon : Nat) : ({ world with session, now, horizon } : World).Faithful := by
  obtain ⟨shown, hshows, hpending⟩ := h.pending
  refine ⟨h.sound, h.tellable, h.injected, h.overruns, h.muted, ?_, ?_, shown, ?_, ?_⟩
  · intro hzero
    exact h.pid (hsession.cancels.pid_eq.symm.trans hzero)
  · exact hsession.inventory ▸ h.consistent
  · exact hsession.inventory ▸ hshows
  · exact hpending.mono fun hown => hsession.cancels.unlisted hown

end World.Faithful

namespace World

variable {world after : World}

/-- A change after which the numbers of links have not run out, all that the peer has can be told,
and no filter has become one of another protocol. -/
structure Advances (world after : World) : Prop where
  changes : world.Changes after
  next : world.channel.peer.nextIndex ≤ after.channel.peer.nextIndex
  tellable : after.channel.peer.Tellable
  keeps : world.channel.peer.KeepsProtocols after.channel.peer

/-- A step of a world in which nothing goes wrong. -/
inductive Proceeds (world : World) : World → Prop where
  | change {after : World} (h : world.Advances after) : Proceeds world after
  /-- Some of what waits is received. -/
  | receive (count : Nat) : Proceeds world (Flow.result (Flow.takeWaiting count) world).2
  /-- Time goes on, and operations are begun, repeated or given up. -/
  | aside {session : Session} (h : world.session.Follows session) (now horizon : Nat) :
      Proceeds world { world with session, now, horizon }

/-- A world in which the inventory mirrors a peer that speaks up. -/
structure InStep (world : World) : Prop where
  reachable : world.channel.peer.Reachable
  tellable : world.channel.peer.Tellable
  injected : world.channel.injected = []
  overruns : world.channel.peer.overruns = 0
  muted : world.channel.peer.muted = false
  pid : world.session.exchange.pid ≠ 0
  consistent : world.session.inventory.Consistent
  mirrors : world.session.inventory.Mirrors world.channel.peer

theorem Faithful.advances (h : world.Faithful) (hadvances : world.Advances after) :
    after.Faithful := by
  obtain ⟨hchanges, hnext, htellable, hkeeps⟩ := hadvances
  cases hchanges with
  | outside hchange => exact h.outside hchange hnext htellable hkeeps
  | request hdraft haccepted hsent =>
      exact h.request hdraft haccepted hsent hnext htellable hkeeps

theorem Faithful.proceeds (h : world.Faithful) (hstep : world.Proceeds after) : after.Faithful := by
  cases hstep with
  | change hadvances => exact h.advances hadvances
  | receive count =>
      obtain ⟨handled, settled, hresult, hsettled, -⟩ := h.result_takeWaiting count
      rw [hresult]
      exact hsettled
  | aside hsession now horizon => exact h.aside hsession now horizon

theorem Faithful.run (h : world.Faithful) (hrun : Relation.ReflTransGen Proceeds world after) :
    after.Faithful := by
  induction hrun with
  | refl => exact h
  | tail _ hstep ih => exact ih.proceeds hstep

/-- Receiving all that waits makes the inventory of a faithful world a mirror. -/
theorem Faithful.settle (h : world.Faithful) :
    ∃ handled settled,
      Flow.result (Flow.takeWaiting world.channel.waiting) world = (.ok handled, settled) ∧
      settled.channel.peer = { world.channel.peer with outbox := [] } ∧
      settled.session.inventory.Mirrors settled.channel.peer := by
  obtain ⟨handled, settled, hresult, hsettled, hpeer⟩ := h.result_takeWaiting world.channel.waiting
  have hwaiting : world.channel.waiting = world.channel.peer.outbox.length := by
    rw [Channel.waiting, Peer.waiting, h.injected, h.overruns, List.length_nil, Nat.zero_add,
      Nat.zero_add]
  rw [hwaiting, List.drop_length] at hpeer
  refine ⟨handled, settled, hresult, hpeer, hsettled.mirrors ?_⟩
  rw [hpeer]

/-- The world of a new session that has been told of all that a peer has. -/
def attached (peer : Peer) : World :=
  (World.new .standard .nothing (.new peer true true)).mapSession fun session =>
    { session with watched := ⟨Inventory.empty.run (peer.images.values.map .upsert), []⟩ }

theorem inStep_attached {peer : Peer} (h : peer.Reachable)
    (himages : ∀ object ∈ peer.all, object.image?.isSome = true)
    (hpriorities : ∀ f ∈ peer.filters, f.priority ≠ 0) (hoverruns : peer.overruns = 0)
    (hmuted : peer.muted = false) (hmirrors : (attached peer).session.inventory.Mirrors peer) :
    (attached peer).InStep where
  reachable := h
  tellable := tellable_of_all h.sound himages hpriorities
  injected := rfl
  overruns := hoverruns
  muted := hmuted
  pid := show listener ≠ 0 by decide
  consistent := Inventory.consistent_empty.run _
  mirrors := hmirrors

theorem Advances.sound {object : Object} {goal : Goal}
    (h : world.Advances (world.changed object goal false)) (hsound : world.channel.peer.Sound) :
    (world.changed object goal false).channel.peer.Sound :=
  hsound.intervene object goal false h.next

theorem advances_changed {object : Object} {goal : Goal} (h : world.channel.peer.Sound)
    (haccepted : (world.channel.peer.intervene object goal false).2.toBool = true)
    (hnext : world.channel.peer.nextIndex ≤
      (world.changed object goal false).channel.peer.nextIndex)
    (himages : ∀ other ∈ (world.changed object goal false).channel.peer.all,
      other.image?.isSome = true)
    (hfilters : (world.changed object goal false).channel.peer.filters = []) :
    world.Advances (world.changed object goal false) where
  changes := by
    refine @Changes.outside world object goal _ ?_
    rcases hpeer : world.channel.peer.intervene object goal false with ⟨peer, fault | done⟩
    · rw [hpeer] at haccepted
      exact absurd haccepted (by simp [Except.toBool])
    · rfl
  next := hnext
  tellable := by
    refine tellable_of_all (h.intervene object goal false hnext) himages ?_
    rw [hfilters]
    exact fun f hf => absurd hf List.not_mem_nil
  keeps f _ g hg := by
    rw [hfilters] at hg
    exact absurd hg List.not_mem_nil

/-- From a mirror of a peer that has nothing to say, after any changes that the peer carries out and
any receptions in between, receiving all that waits ends well, leaves the peer as it is and makes
the inventory a mirror again. -/
theorem mirrors_of_inStep (h : world.InStep) (hquiet : world.channel.peer.outbox = [])
    (hrun : Relation.ReflTransGen Proceeds world after) :
    ∃ handled settled,
      Flow.result (Flow.takeWaiting after.channel.waiting) after = (.ok handled, settled) ∧
      settled.channel.peer = { after.channel.peer with outbox := [] } ∧
      settled.session.inventory.Mirrors settled.channel.peer := by
  have hfaithful := Faithful.of_mirrors h.reachable.sound h.tellable h.injected h.overruns h.muted
    h.pid h.consistent hquiet h.mirrors
  exact (hfaithful.run hrun).settle

theorem mirrors_of_inStep_dummy :
    let world := attached initial
    let after := (world.changed (.link (.new "a" .dummy)) .present false).changed
      (.link (.new "a" .dummy)) .absent false
    ∃ handled settled,
      Flow.result (Flow.takeWaiting after.channel.waiting) after = (.ok handled, settled) ∧
      settled.channel.peer = { after.channel.peer with outbox := [] } ∧
      settled.session.inventory.Mirrors settled.channel.peer := by
  intro world after
  have hworld : world.InStep :=
    inStep_attached Reachable.initial (by decide +kernel) (by decide +kernel) rfl rfl
      (by decide +kernel)
  have hfirst : world.Advances (world.changed (.link (.new "a" .dummy)) .present false) :=
    advances_changed sound_initial (by decide +kernel) (by decide +kernel) (by decide +kernel)
      (by decide +kernel)
  have hsecond : (world.changed (.link (.new "a" .dummy)) .present false).Advances after :=
    advances_changed (hfirst.sound sound_initial) (by decide +kernel) (by decide +kernel)
      (by decide +kernel)
      (by decide +kernel)
  exact mirrors_of_inStep hworld rfl
    ((Relation.ReflTransGen.single (.change hfirst)).tail (.change hsecond))

/-- What the peer still has to say can be out of date: here it tells of a link that went away
without a word. Receiving that spoils the mirror, so a peer with something to say is left out
above. -/
theorem exists_inStep_not_mirrors :
    ∃ world after : World, world.InStep ∧ world.Advances after ∧
      ¬ (Flow.result (Flow.takeWaiting after.channel.waiting) after).2.session.inventory.Mirrors
        after.channel.peer := by
  let told := (initial.intervene (.link (.new "a" .dummy)) .present false).1
  let peer := (told.intervene (.link (.new "a" .dummy)) .absent true).1
  have hpeer : peer.Reachable :=
    (Reachable.initial.intervene (.link (.new "a" .dummy)) .present false (by decide +kernel)
      ).intervene (.link (.new "a" .dummy)) .absent true (by decide +kernel)
  refine ⟨attached peer, (attached peer).changed
    (.address { loopbackAddress with ip := .v4 0x0A000001, length := 24 }) .present false,
    ?_, ?_, ?_⟩
  · exact inStep_attached hpeer (by decide +kernel) (by decide +kernel) rfl rfl (by decide +kernel)
  · exact advances_changed hpeer.sound (by decide +kernel) (by decide +kernel)
      (by decide +kernel) (by decide +kernel)
  · decide +kernel

end World

end NetState
