import NetState.Proofs.Exchange
import NetState.Proofs.Flow

namespace NetState

theorem Channel.receive?_eq_some {channel after : Channel} {received : Except Fault Bytes}
    (h : channel.receive? = some (received, after)) :
    (∃ rest, channel.injected = received :: rest ∧ after = { channel with injected := rest }) ∨
      channel.injected = [] ∧ ∃ peer, channel.peer.receive? = some (received, peer) ∧
        after = { channel with peer } := by
  rw [receive?] at h
  split at h
  · rename_i first rest hinjected
    obtain ⟨rfl, rfl⟩ := Prod.mk.inj (Option.some.inj h)
    exact Or.inl ⟨rest, hinjected, rfl⟩
  · rename_i hinjected
    obtain ⟨⟨first, peer⟩, hpeer, heq⟩ := Option.map_eq_some_iff.mp h
    obtain ⟨rfl, rfl⟩ := Prod.mk.inj heq
    exact Or.inr ⟨hinjected, peer, hpeer, rfl⟩

theorem Channel.send_eq_ok {channel sent : Channel} {datagram : Bytes}
    (h : channel.send datagram = (sent, .ok ())) :
    sent =
        { channel with
          peer := (channel.peer.take datagram).1
          sent := datagram :: channel.sent } := by
  rw [send] at h
  split at h
  · exact absurd (congrArg Prod.snd h) (by simp)
  · exact (congrArg Prod.fst h).symm

theorem Channel.send_of_take {channel : Channel} {datagram : Bytes} {peer : Peer}
    (hfaults : channel.sendFaults = []) (htake : channel.peer.take datagram = (peer, .ok ())) :
    channel.send datagram =
      ({ channel with peer, sent := datagram :: channel.sent }, .ok ()) := by
  rw [send, hfaults]
  simp only [htake]

namespace Peer

theorem take_toBytes (peer : Peer) {draft : Draft} (h : draft.IsMeasured) :
    peer.take draft.toBytes = (peer.answer ⟨draft.header, draft.body⟩, .ok ()) := by
  rw [take, Message.scan_toBytes_self h]
  rfl

end Peer

namespace World

/-- A request as it is sent next. -/
def stamped (world : World) (draft : Draft) : Draft :=
  draft.addressed (Exchange.seqAfter world.session.exchange.seq) world.session.exchange.pid

def sent (world : World) (draft : Draft) (awaited : Awaited) : World :=
  { world with
    channel :=
      { world.channel with
        peer := (world.channel.peer.take (world.stamped draft).toBytes).1
        sent := (world.stamped draft).toBytes :: world.channel.sent }
    session :=
      { world.session with exchange := world.session.exchange.advance.expect awaited } }

theorem transmit_eq_ok {world after : World} {draft : Draft} {awaited : Awaited} {seq : UInt32}
    (h : world.transmit draft awaited = (after, .ok seq)) :
    after = world.sent draft awaited ∧ seq = Exchange.seqAfter world.session.exchange.seq := by
  rw [transmit] at h
  simp only at h
  rcases hsent : world.channel.send (world.session.exchange.advance.stamp draft) with
    ⟨channel, fault | done⟩
  · rw [hsent] at h
    exact absurd (congrArg Prod.snd h) (by simp)
  · rw [hsent] at h
    obtain ⟨hafter, hseq⟩ := Prod.mk.inj h
    rw [← hafter, Channel.send_eq_ok hsent]
    exact ⟨rfl, (Except.ok.inj hseq).symm⟩

theorem peer_sent (world : World) {draft : Draft} (h : draft.IsMeasured) (awaited : Awaited) :
    (world.sent draft awaited).channel.peer =
      world.channel.peer.answer ⟨(world.stamped draft).header, (world.stamped draft).body⟩ :=
  congrArg Prod.fst
    (world.channel.peer.take_toBytes (show (world.stamped draft).IsMeasured from h))

theorem transmit_of_nil {world : World} {draft : Draft} (hfaults : world.channel.sendFaults = [])
    (hmeasured : draft.IsMeasured) (awaited : Awaited) :
    world.transmit draft awaited =
      (world.sent draft awaited, .ok (Exchange.seqAfter world.session.exchange.seq)) := by
  have htake := world.channel.peer.take_toBytes
    (show (world.stamped draft).IsMeasured from hmeasured)
  rw [transmit, show world.session.exchange.advance.stamp draft =
    (world.stamped draft).toBytes from rfl, Channel.send_of_take hfaults htake, sent, htake]
  rfl

theorem transmit_of_cons {world : World} {fault : Fault} {rest : List Fault}
    (hfaults : world.channel.sendFaults = fault :: rest) (draft : Draft) (awaited : Awaited) :
    world.transmit draft awaited =
      ({ world with
          channel := { world.channel with sendFaults := rest }
          session := { world.session with exchange := world.session.exchange.advance } },
        .error fault) := by
  rw [transmit, Channel.send, hfaults]

/-- A request marked so that the kernel tells the requester of its own changes, if that is
configured. -/
def marked (world : World) (draft : Draft) : Draft :=
  if world.session.config.echo then draft.addFlags Flag.echo else draft

/-- The request of a step as it is sent. -/
def requestOf (world : World) (step : Step) : Except Fault Draft :=
  (step.object.request step.verb).map fun draft =>
    world.stamped (if world.session.config.echo then draft.addFlags Flag.echo else draft)

theorem transmitStep_cases (world : World) (step : Step) :
    (∃ fault, step.object.request step.verb = .error fault ∧
        world.requestOf step = .error fault ∧
        world.transmitStep step = (world, .error fault)) ∨
      ∃ draft, step.object.request step.verb = .ok draft ∧
        world.requestOf step = .ok (world.stamped (world.marked draft)) ∧
        world.transmitStep step = world.transmit (world.marked draft) .ack := by
  cases hrequest : step.object.request step.verb with
  | error fault =>
      refine Or.inl ⟨fault, rfl, ?_, ?_⟩
      · rw [requestOf, hrequest]
        rfl
      · rw [transmitStep, hrequest]
  | ok draft =>
      refine Or.inr ⟨draft, rfl, ?_, ?_⟩
      · rw [requestOf, hrequest]
        rfl
      · rw [transmitStep, hrequest]
        rfl

section

variable {world : World} {op : Operation}

theorem pumpOne_of_not_due (h : op.isDue world.now = false) :
    world.pumpOne op = (world, .ok op) := by
  rw [pumpOne, h]
  split <;> rfl

theorem pumpOne_of_due {step : Step} (hstep : op.current? = some step)
    (hdue : op.isDue world.now = true) :
    world.pumpOne op = ((world.transmitStep step).1, (world.transmitStep step).2.map fun seq =>
      { op with
        stage := .submitted seq (world.now + world.session.config.ackTimeout.nanos) }) := by
  rw [pumpOne, hstep, hdue]
  rfl

end

/-- An operation is left alone unless it has a request and that is due. -/
theorem pumpOne_cases (world : World) (op : Operation) :
    (op.current? = none ∨ op.isDue world.now = false) ∧ world.pumpOne op = (world, .ok op) ∨
      ∃ step, op.current? = some step ∧ op.isDue world.now = true ∧ world.pumpOne op =
        ((world.transmitStep step).1, (world.transmitStep step).2.map fun seq =>
          { op with
            stage := .submitted seq (world.now + world.session.config.ackTimeout.nanos) }) := by
  cases hdue : op.isDue world.now with
  | false => exact Or.inl ⟨Or.inr rfl, pumpOne_of_not_due hdue⟩
  | true =>
      cases hstep : op.current? with
      | none => exact Or.inl ⟨Or.inl rfl, by rw [pumpOne, hstep]⟩
      | some step => exact Or.inr ⟨step, rfl, rfl, pumpOne_of_due hstep hdue⟩

end World

end NetState
