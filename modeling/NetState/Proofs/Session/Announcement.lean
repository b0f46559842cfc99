import NetState.Proofs.Session.Deliver

namespace NetState

namespace Revision

theorem lookup_dropAt_of_kind {revision : Revision} {slot : Slot} (hkind : slot.kind ≠ .filter)
    (hook : Hook) :
    (revision.dropAt hook).inventory.lookup slot = revision.inventory.lookup slot := by
  have hother : ∀ place ∈ revision.inventory.slotsAt hook, place ≠ slot := by
    intro place hplace
    obtain ⟨object, -, hobject⟩ := List.mem_filterMap.mp hplace
    rintro rfl
    cases object with
    | filter f =>
        simp only [Option.ite_none_right_eq_some, Option.some.injEq] at hobject
        exact hkind (hobject.2 ▸ rfl)
    | _ => exact absurd hobject (by simp)
  rw [dropAt]
  generalize revision.inventory.slotsAt hook = places at hother
  induction places generalizing revision with
  | nil => rfl
  | cons place rest ih =>
      rw [List.foldl_cons, ih fun other hmem => hother other (List.mem_cons_of_mem _ hmem),
        lookup_drop, if_neg (hother place List.mem_cons_self)]

theorem lookup_dropAtAll_of_kind {revision : Revision} {slot : Slot} (hkind : slot.kind ≠ .filter)
    (hooks : List Hook) :
    (revision.dropAtAll hooks).inventory.lookup slot = revision.inventory.lookup slot := by
  induction hooks generalizing revision with
  | nil => rfl
  | cons hook rest ih => exact ih.trans (lookup_dropAt_of_kind hkind hook)

end Revision

theorem Inventory.lookup_upsert_of_kind (inventory : Inventory) {object : Object}
    (hkind : object.kind ≠ .filter) :
    (inventory.upsert object).2.inventory.lookup object.slot = some object := by
  rw [upsert_revision]
  split
  · rw [lookup_store, if_pos rfl]
  · rename_i previous hprevious
    split
    · rename_i hsame
      exact hsame ▸ hprevious
    · rw [Revision.lookup_dropAtAll_of_kind (show object.slot.kind ≠ .filter from hkind),
        lookup_replace, if_pos rfl]

/-- A message that announces a route of version 4 or 6 that the kernel did not derive from another
one. -/
structure Message.Announces (message : Message) (r : Route) : Prop where
  type : message.header.kind = MessageType.newRoute
  family : message.payload.headD 0 = Ip.inet ∨ message.payload.headD 0 = Ip.inet6
  read : Route.ofPayload? message.payload = some r
  original : r.flags &&& Route.clonedFlag = 0

namespace Message.Announces

variable {message : Message} {r : Route}

theorem changeOf?_eq (h : message.Announces r) :
    Object.changeOf? message.header.kind = some .new := by
  rw [h.type]
  rfl

theorem decode_eq (h : message.Announces r) :
    Object.decode message.header.kind message.payload =
      .ok (if r.kind = Route.unicast then some (.new, .route r) else none) := by
  have hfamily : (message.payload.headD 0 == Ip.inet || message.payload.headD 0 == Ip.inet6) =
      true := by
    rw [Bool.or_eq_true, beq_iff_eq, beq_iff_eq]
    exact h.family
  have hroute : Object.ofPayload MessageType.newRoute message.payload =
      .ok (if r.isTracked then some (.route r) else none) := by
    rw [Object.ofPayload_route_eq (Or.inl rfl), hfamily, if_pos rfl, h.read]
  have htracked : r.isTracked = decide (r.kind = Route.unicast) := by
    rw [Route.isTracked, h.original]
    simp [beq_eq_decide]
  rw [Object.decode, h.changeOf?_eq]
  simp only [h.type, hroute, htracked, decide_eq_true_eq]
  split <;> rfl

end Message.Announces

theorem Exchange.take_announcement {exchange : Exchange} {message : Message} {r : Route}
    (hannounces : message.Announces r)
    (hunlisted : exchange.Unlisted message.header.seq message.header.pid) :
    ∃ after, exchange.take message = .ok (after,
      if r.kind = Route.unicast then some (.notice (Object.route r).kind .new (.route r))
      else none) := by
  have hdecode := hannounces.decode_eq
  split
  · rename_i hkind
    rw [if_pos hkind] at hdecode
    rw [take_of_decode exchange hdecode, takeObject_eq hunlisted.noteInterruption]
    exact ⟨_, rfl⟩
  · rename_i hkind
    rw [if_neg hkind] at hdecode
    exact ⟨exchange, take_unread hannounces.changeOf?_eq (fun found => by simp [hdecode])
      (by simp [hdecode])⟩

namespace Session

/-- A session after what a message brought in, if it brought in anything, was taken. -/
def process (session : Session) (now : Nat) (incoming : Option Incoming) : Session :=
  incoming.elim session (session.take now)

/-- A session after a datagram was received, unless that ends the program. -/
def hear (session : Session) (now : Nat) (datagram : Bytes) : Except Failure Session :=
  (session.exchange.receive (.ok datagram)).map fun (exchange, incoming) =>
    incoming.foldl (Session.take · now) { session with exchange }

theorem hear_absorbed {world : World} {datagram : Bytes} {exchange : Exchange}
    {incoming : List Incoming}
    (h : world.session.exchange.receive (.ok datagram) = .ok (exchange, incoming))
    (channel : Channel) :
    world.session.hear world.now datagram =
      .ok (world.absorbed channel exchange incoming).session := by
  rw [hear, h]
  rfl

theorem hear_single (session : Session) (now : Nat) {datagram : Bytes} {message : Message}
    (h : Exchange.messages datagram = [message]) :
    session.hear now datagram =
      (session.exchange.take message).map fun (exchange, incoming) =>
        ({ session with exchange } : Session).process now incoming := by
  rw [hear, Exchange.receive, h, Exchange.takeAll_single]
  rcases session.exchange.take message with failure | ⟨exchange, _ | incoming⟩ <;> rfl

/-- The announcement of a route is taken, and once what it brought in was taken by a session that
shows anything, the route is shown at its key if it sends packets on; else nothing has changed. So
nothing or the announced route is shown there just if the announced route sends packets on or
nothing else was shown before. -/
theorem lookup_process_announcement {exchange : Exchange} {message : Message} {r : Route}
    (hannounces : message.Announces r)
    (hunlisted : exchange.Unlisted message.header.seq message.header.pid) (session : Session)
    (now : Nat) :
    ∃ next incoming, exchange.take message = .ok (next, incoming) ∧
      let slot := (Object.route r).slot
      let after := session.process now incoming
      let settled := fun shown => shown = none ∨ shown = some (Object.route r)
      (r.kind = Route.unicast → after.inventory.lookup slot = some (.route r)) ∧
        (r.kind ≠ Route.unicast → after = session) ∧
        (settled (after.inventory.lookup slot) ↔
          r.kind = Route.unicast ∨ settled (session.inventory.lookup slot)) := by
  obtain ⟨next, htake⟩ := Exchange.take_announcement hannounces hunlisted
  refine ⟨next, _, htake, ?_⟩
  intro slot after settled
  have hsent : r.kind = Route.unicast → after.inventory.lookup slot = some (.route r) := by
    intro hkind
    have hinventory := (take_notice session now ⟨.new, .route r⟩ (.route r)).1
    have hfilter : (Object.route r).kind ≠ .filter := by
      cases hversion : r.isV6 <;> simp [Object.kind, hversion]
    show (session.process now (if r.kind = Route.unicast then _ else none)).inventory.lookup slot =
      _
    rw [if_pos hkind]
    exact (congrArg (·.lookup slot) hinventory).trans
      (session.inventory.lookup_upsert_of_kind hfilter)
  have hkept : r.kind ≠ Route.unicast → after = session := by
    intro hkind
    show session.process now (if r.kind = Route.unicast then _ else none) = session
    rw [if_neg hkind]
    rfl
  refine ⟨hsent, hkept, ?_⟩
  by_cases hkind : r.kind = Route.unicast
  · exact iff_of_true (Or.inr (hsent hkind)) (Or.inl hkind)
  · rw [hkept hkind, or_iff_right hkind]

def announcement (kind : UInt8) : Draft :=
  let head : RouteHead :=
    ⟨Ip.inet, 0, 0, 0, 254, Route.staticProtocol, Route.universeScope, kind, 0⟩
  (Draft.new MessageType.newRoute 0 [.raw head.toBytes]).addressed 0 0

def announced (kind : UInt8) : Route :=
  ⟨254, 0, .v4 0, 0, 0, 0, none, none, Route.staticProtocol, Route.universeScope, kind, 0⟩

/-- A session that has heard of nothing but a default route that sends packets on. -/
def informed : Session where
  __ := Session.new .standard .nothing 77
  watched := ⟨Inventory.empty.run [.upsert (.route (announced Route.unicast))], []⟩

/-- The type of a route that drops the packets that take it. -/
def blackhole : UInt8 := 6

theorem messages_announcement (kind : UInt8) :
    Exchange.messages (announcement kind).toBytes =
      [⟨(announcement kind).header, (announcement kind).body⟩] := by
  have hnone : Field.AtMost 15 [] := ⟨Nat.zero_le 15, by simp⟩
  refine Exchange.messages_toBytes (Draft.isMeasured_of_atMost ?_ rfl)
  exact Field.atMost_cons_raw _ (show _ = RouteHead.size from rfl) (by decide) hnone

theorem announces_announced {kind : UInt8} (h : kind = Route.unicast ∨ kind = blackhole) :
    Message.Announces ⟨(announcement kind).header, (announcement kind).body⟩ (announced kind) := by
  rcases h with rfl | rfl <;>
    exact ⟨rfl, Or.inl (by decide +kernel), by decide +kernel, by decide +kernel⟩

theorem unlisted_informed (seq pid : UInt32) : informed.exchange.Unlisted seq pid := by
  intro _ kind delivery objects interrupted
  exact (Table.get?_empty seq).symm ▸ nofun

theorem lookup_process_announcement_informed :
    let message (kind : UInt8) : Message := ⟨(announcement kind).header, (announcement kind).body⟩
    ∃ sent dropped, informed.exchange.take (message Route.unicast) = .ok sent ∧
      informed.exchange.take (message blackhole) = .ok dropped ∧
      (informed.process 0 sent.2).inventory.lookup (Object.route (announced Route.unicast)).slot =
        some (.route (announced Route.unicast)) ∧
      informed.process 0 dropped.2 = informed := by
  obtain ⟨_, _, hsent, hshown, -⟩ := lookup_process_announcement
    (announces_announced (Or.inl rfl)) (unlisted_informed _ _) informed 0
  obtain ⟨_, _, hdropped, -, hkept, -⟩ := lookup_process_announcement
    (announces_announced (Or.inr rfl)) (unlisted_informed _ _) informed 0
  exact ⟨_, _, hsent, hdropped, hshown rfl, hkept (by decide)⟩

/-- A route that sends packets on is still shown after another one was announced at its key, one
that drops them. -/
theorem exists_lingering :
    ∃ (session after : Session) (datagram : Bytes) (message : Message) (r : Route),
      Exchange.messages datagram = [message] ∧ message.Announces r ∧
      session.exchange.Unlisted message.header.seq message.header.pid ∧
      session.hear 0 datagram = .ok after ∧
      ¬ (after.inventory.lookup (Object.route r).slot = none ∨
        after.inventory.lookup (Object.route r).slot = some (.route r)) := by
  have hannounces := announces_announced (Or.inr rfl : blackhole = Route.unicast ∨ _)
  obtain ⟨next, htake⟩ := Exchange.take_announcement hannounces (unlisted_informed _ _)
  rw [if_neg (show (announced blackhole).kind ≠ Route.unicast by decide)] at htake
  refine ⟨informed, { informed with exchange := next }, (announcement blackhole).toBytes, _,
    announced blackhole, messages_announcement blackhole, hannounces, unlisted_informed _ _, ?_, ?_⟩
  · rw [hear_single _ _ (messages_announcement blackhole), htake]
    rfl
  · show ¬ (informed.inventory.lookup _ = none ∨ informed.inventory.lookup _ = _)
    decide +kernel

end Session

end NetState
