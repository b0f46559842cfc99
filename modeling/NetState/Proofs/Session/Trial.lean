import NetState.Proofs.Flow
import NetState.Proofs.Session.Answered
import NetState.Proofs.Session.Listing

namespace NetState

open Peer

/-- A world in which nothing is under way and nothing waits to be received. -/
structure World.Calm (world : World) : Prop where
  clear : world.channel.Clear
  quiet : world.channel.peer.outbox = []
  operations : world.session.operations = []

/-- Whether a world comes from another one by requests that change nothing. -/
structure World.Asks (world after : World) : Prop where
  clear : after.channel.Clear
  holdings : after.channel.peer.holdings = world.channel.peer.holdings
  session : ∃ exchange, after.session = { world.session with exchange }

/-- What waits of the answer to a request for a listing: objects and the end, or the report that it
was refused. -/
inductive Exchange.Lists (exchange : Exchange) (request : Header) (kind : Kind) :
    List Bytes → Prop where
  | pieces {datagrams : List Bytes} {told left : List Object} {interrupted : Bool}
      (hgathers : exchange.Gathers request.seq kind told)
      (hremaining : Remaining request interrupted datagrams left)
      (hleft : ∀ object ∈ left, object.kind = kind) :
      Lists exchange request kind datagrams
  | refused {awaited : Awaited} (hawaited : exchange.awaited.get? request.seq = some awaited)
      (code : Int32) : Lists exchange request kind [(reportOn request code).toBytes]

theorem Exchange.Lists.receive {exchange : Exchange} {request : Header} {kind : Kind}
    {outbox : List Bytes} (h : exchange.Lists request kind outbox)
    (hpid : request.pid = exchange.pid) (hnumber : request.seq ≠ 0) :
    ∃ datagram rest, outbox = datagram :: rest ∧
      (exchange.receive (.ok datagram) = .error .crash ∨ ∃ after incoming,
        exchange.receive (.ok datagram) = .ok (after, incoming) ∧
        Flow.besides request.seq incoming = [] ∧
        ((Flow.answerTo? request.seq incoming = none ∧ request.pid = after.pid ∧
            after.Lists request kind rest) ∨
          rest = [] ∧ ∃ result, Flow.answerTo? request.seq incoming = some result)) := by
  cases h with
  | pieces hgathers hremaining hleft =>
      obtain ⟨datagram, rest, rfl, hcases⟩ :=
        receive_remaining hgathers hpid hnumber hremaining hleft
      refine ⟨datagram, rest, rfl, or_iff_not_imp_left.mpr fun hcalm => ?_⟩
      rcases hcases hcalm with ⟨rfl, after, disturbed, hreceive⟩ |
        ⟨middle, piece, more, hreceive, hmiddlePid, hmiddle, hrest, rfl⟩
      · exact ⟨after, _, hreceive, by simp [Flow.besides],
          Or.inr ⟨rfl, _, by simp [Flow.answerTo?]; rfl⟩⟩
      · exact ⟨middle, [], hreceive, rfl, Or.inl ⟨rfl, hpid.trans hmiddlePid.symm,
          .pieces hmiddle hrest fun object hobject =>
            hleft object (List.mem_append_right _ hobject)⟩⟩
  | refused hawaited code =>
      refine ⟨_, [], rfl, or_iff_not_imp_left.mpr fun hcalm => ?_⟩
      have hcode : code ≠ Int32.minValue := fun hleast =>
        hcalm (hleast ▸ receive_reportOn_minValue hnumber hpid hawaited)
      exact ⟨_, _, receive_reportOn hnumber hpid hawaited hcode, by simp [Flow.besides],
        Or.inr ⟨rfl, _, by simp [Flow.answerTo?]; rfl⟩⟩

namespace Flow

theorem result_awaitNext {world : World} {received : Except Fault Bytes} {channel : Channel}
    {exchange : Exchange} {incoming : List Incoming}
    (hreceived : world.channel.receive? = some (received, channel))
    (hexchange : world.session.exchange.receive received = .ok (exchange, incoming))
    (kind : Kind) (seq : UInt32) (deadline : Nat) :
    result (awaitNext kind seq deadline) world =
      result (match answerTo? seq incoming with
        | some answer => do return some (← listedIn kind answer)
        | none => return none)
        (world.absorbed channel exchange (besides seq incoming)).expire := by
  have habsorb := result_absorb { world with channel } hexchange
  rw [awaitNext]
  simp only [result_bind, result_await hreceived, habsorb, result_change]
  rfl

theorem result_awaitNext_of_crash {world : World} {received : Except Fault Bytes}
    {channel : Channel} {kind : Kind} {seq : UInt32} {deadline : Nat}
    (hreceived : world.channel.receive? = some (received, channel))
    (hcrash : world.session.exchange.receive received = .error .crash) :
    result (awaitNext kind seq deadline) world =
      result (throw .crash : Flow (Option (List Object × Bool))) { world with channel } := by
  rw [awaitNext]
  simp only [result_bind, result_await hreceived, result_absorb_of_crash { world with channel }
    hcrash]
  rfl

end Flow

theorem World.absorbed_nil {world : World} (h : world.session.operations = []) (channel : Channel)
    (exchange : Exchange) : (world.absorbed channel exchange []).expire =
      { world with channel, session := { world.session with exchange } } := by
  have hexpire : ({ world.session with exchange } : Session).expire world.now =
      { world.session with exchange } :=
    Session.expire_of_none fun op hop => absurd (h ▸ hop) List.not_mem_nil
  exact congrArg (fun session => ({ world with channel, session } : World)) hexpire

namespace World.Asks

variable {world middle after : World} {request : Header} {kind : Kind}

theorem trans (h : world.Asks middle) (hmore : middle.Asks after) : world.Asks after := by
  obtain ⟨exchange, hexchange⟩ := h.session
  obtain ⟨last, hlast⟩ := hmore.session
  exact ⟨hmore.clear, hmore.holdings.trans h.holdings, last, by rw [hlast, hexchange]⟩

theorem operations_eq (h : world.Asks after) (hcalm : world.Calm) :
    after.session.operations = [] := by
  obtain ⟨exchange, hexchange⟩ := h.session
  rw [hexchange]
  exact hcalm.operations

theorem calm (h : world.Asks after) (hcalm : world.Calm) (hquiet : after.channel.peer.outbox = []) :
    after.Calm :=
  ⟨h.clear, hquiet, h.operations_eq hcalm⟩

theorem past (h : world.Asks middle) (rest : List Bytes) (exchange : Exchange) :
    world.Asks { middle with
      channel := middle.channel.past rest
      session := { middle.session with exchange } } := by
  obtain ⟨before, hbefore⟩ := h.session
  exact ⟨h.clear.past rest, h.holdings, exchange, by rw [hbefore]⟩

theorem ends_awaitNext (h : world.Asks middle) (hcalm : world.Calm)
    (hlists : middle.session.exchange.Lists request kind middle.channel.peer.outbox)
    (hpid : request.pid = middle.session.exchange.pid) (hnumber : request.seq ≠ 0)
    (deadline : Nat) :
    Flow.Ends (Flow.awaitNext kind request.seq deadline) middle
      (fun answer after => world.Asks after ∧ match answer with
        | some _ => after.channel.peer.outbox = []
        | none => request.pid = after.session.exchange.pid ∧
            after.session.exchange.Lists request kind after.channel.peer.outbox)
      (fun _ after => world.Asks after ∧ after.channel.peer.outbox = []) := by
  obtain ⟨datagram, rest, houtbox, hcrash | ⟨exchange, incoming, hreceive, hbesides, hcases⟩⟩ :=
    hlists.receive hpid hnumber
  all_goals
    have hreceived := Channel.receive?_of_outbox h.clear.injected h.clear.overruns houtbox
  · exact Flow.Ends.of_result_eq (Flow.result_awaitNext_of_crash hreceived hcrash) trivial
  refine Flow.Ends.of_result_eq (Flow.result_awaitNext hreceived hreceive kind _ deadline) ?_
  rw [hbesides, absorbed_nil (h.operations_eq hcalm)]
  have hasks := h.past rest exchange
  rcases hcases with ⟨hnone, hownPid, hleft⟩ | ⟨rfl, answer, hsome⟩
  · rw [hnone]
    exact ⟨hasks, hownPid, hleft⟩
  · rw [hsome]
    refine Flow.Ends.bind ?_
    rcases answer with fault | _ | ⟨listed, objects, interrupted⟩
    · exact ⟨hasks, rfl⟩
    · exact ⟨hasks, rfl⟩
    · exact ⟨hasks, rfl⟩

theorem ends_awaitListing (h : world.Asks middle) (hcalm : world.Calm)
    (hlists : middle.session.exchange.Lists request kind middle.channel.peer.outbox)
    (hpid : request.pid = middle.session.exchange.pid) (hnumber : request.seq ≠ 0)
    (deadline count : Nat) :
    Flow.Ends (Flow.awaitListing kind request.seq deadline count) middle
      (fun _ after => world.Asks after ∧ after.channel.peer.outbox = [])
      (fun _ after => world.Asks after ∧ after.channel.peer.outbox = []) := by
  have hnext {middle : World} (h : world.Asks middle)
      (hlists : middle.session.exchange.Lists request kind middle.channel.peer.outbox)
      (hpid : request.pid = middle.session.exchange.pid) :=
    h.ends_awaitNext hcalm hlists hpid hnumber deadline
  -- On the receptions that are left: each piece leaves what waits a shorter answer of the same
  -- kind.
  induction count generalizing middle with
  | zero =>
      rw [Flow.awaitListing]
      refine Flow.Ends.bind ((hnext h hlists hpid).mono ?_ fun _ _ => id)
      rintro (_ | listing) after hafter
      · exact Flow.Ends.throw_stalled
      · exact Flow.Ends.pure hafter
  | succ count ih =>
      rw [Flow.awaitListing]
      refine Flow.Ends.bind ((hnext h hlists hpid).mono ?_ fun _ _ => id)
      rintro (_ | listing) after hafter
      · exact ih hafter.1 hafter.2.2 hafter.2.1
      · exact Flow.Ends.pure hafter

end World.Asks

/-- Whether a request for a listing may bring objects of a kind and nothing else, from any peer that
has the same. -/
structure Peer.Tries (peer : Peer) (kind : Kind) (draft : Draft) : Prop where
  measured : draft.IsMeasured
  asks : asksForListing draft.header = true
  calm : ∀ {other : Peer}, other.failures = [] → other.crashes ⟨draft.header, draft.body⟩ = false
  listed : ∀ {other : Peer} {objects : List Object}, other.holdings = peer.holdings →
    other.listed ⟨draft.header, draft.body⟩ = .ok objects → ∀ object ∈ objects, object.kind = kind

theorem Peer.Tries.of_holdings {peer other : Peer} {kind : Kind} {draft : Draft}
    (h : peer.Tries kind draft) (hsame : other.holdings = peer.holdings) : other.Tries kind draft :=
  ⟨h.measured, h.asks, h.calm, fun hother => h.listed (hother.trans hsame)⟩

theorem Peer.tries_listing {peer : Peer} (h : peer.Sound) {kind : Kind} (hkind : kind ≠ .filter) :
    peer.Tries kind kind.listing := by
  have hoffers := offers_listing h hkind
  refine ⟨hoffers.measured, hoffers.asks, hoffers.calm, fun {other objects} hsame hlisted => ?_⟩
  rcases @listed_listing_or other kind hkind with hall | ⟨errno, herror⟩
  · rw [hlisted, objects_of_holdings hsame] at hall
    rw [Except.ok.inj hall]
    exact hoffers.ofKind
  · rw [hlisted] at herror
    exact absurd herror (by simp)

namespace World.Calm

variable {world : World} {kind : Kind} {draft : Draft}

theorem asks_sent (h : world.Calm) {awaited : Awaited} {request : Message} {interruptions : Nat}
    {outbox : List Bytes} (hpeer : (world.sent draft awaited).channel.peer =
      { world.channel.peer.noted request with interruptions, outbox }) :
    world.Asks (world.sent draft awaited) := by
  refine ⟨⟨h.clear.injected, h.clear.sendFaults, ?_, ?_, ?_, ?_⟩, ?_, _, rfl⟩
  all_goals rw [hpeer]
  · exact h.clear.failures
  · exact h.clear.overruns
  · exact h.clear.muted
  · exact h.clear.repliesDropped
  · rfl

theorem sent (h : world.Calm) (htries : world.channel.peer.Tries kind draft) :
    world.Asks (world.sent draft (Exchange.fresh kind .whole)) ∧
      (world.sent draft (Exchange.fresh kind .whole)).session.exchange.Lists
        (world.stamped draft).header kind
        (world.sent draft (Exchange.fresh kind .whole)).channel.peer.outbox := by
  have hpeer := world.peer_sent htries.measured (Exchange.fresh kind .whole)
  have hawaited : (world.sent draft (Exchange.fresh kind .whole)).session.exchange.awaited.get?
      (world.stamped draft).header.seq = some (Exchange.fresh kind .whole) :=
    Table.get?_insert_self _ _ _
  let request : Message := ⟨(world.stamped draft).header, (world.stamped draft).body⟩
  have hasks : asksForListing request.header = true := htries.asks
  have hcalm : world.channel.peer.crashes request = false :=
    (crashes_addressed _ draft _ _).trans (htries.calm h.clear.failures)
  cases hanswer : (world.channel.peer.noted request).listed request with
  | ok objects =>
      rw [answer_of_listed h.clear.failures hcalm hasks hanswer, h.quiet] at hpeer
      refine ⟨h.asks_sent hpeer, ?_⟩
      rw [hpeer]
      exact .pieces (congrArg (Option.map Awaited.calmed) hawaited)
        (remaining_listingDatagrams _ _ objects _) (htries.listed rfl hanswer)
  | error errno =>
      have hspeaks : ¬(world.channel.peer.noted request).repliesDropped = true := by
        rw [noted]
        simp [h.clear.repliesDropped]
      have houtbox : (world.channel.peer.noted request).outbox = [] := h.quiet
      rw [answer_of_unlisted h.clear.failures hcalm hasks hanswer, report, if_neg hspeaks, post,
        houtbox] at hpeer
      refine ⟨h.asks_sent hpeer, ?_⟩
      rw [hpeer]
      exact .refused hawaited _

theorem ends_listOnce (h : world.Calm) (htries : world.channel.peer.Tries kind draft) :
    Flow.Ends (Flow.listOnce kind draft) world
      (fun _ after => world.Asks after ∧ after.channel.peer.outbox = [])
      (fun _ after => world.Asks after ∧ after.channel.peer.outbox = []) := by
  obtain ⟨hsent, hlists⟩ := h.sent htries
  have htransmit := transmit_of_nil h.clear.sendFaults htries.measured (Exchange.fresh kind .whole)
  rw [Flow.listOnce]
  refine Flow.Ends.bind (Flow.Ends.sending ?_ fun fault after hsending =>
    absurd (Prod.mk.inj (htransmit.symm.trans hsending)).2 (by simp))
  intro number after hsending _
  obtain ⟨rfl, hnumber⟩ := Prod.mk.inj (htransmit.symm.trans hsending)
  rw [← Except.ok.inj hnumber]
  exact Flow.Ends.bind (Flow.Ends.get
    (hsent.ends_awaitListing h hlists rfl (Exchange.seqAfter_ne_zero _) _ _))

theorem ends_list (h : world.Calm) (htries : world.channel.peer.Tries kind draft)
    (retries : Nat) :
    Flow.Ends (Flow.list kind draft retries) world
      (fun _ after => world.Asks after ∧ after.channel.peer.outbox = [])
      (fun _ after => world.Asks after ∧ after.channel.peer.outbox = []) := by
  induction retries generalizing world with
  | zero =>
      rw [Flow.list]
      exact Flow.Ends.bind ((h.ends_listOnce htries).mono
        (fun _ _ hafter => Flow.Ends.pure hafter) fun _ _ => id)
  | succ left ih =>
      rw [Flow.list]
      refine Flow.Ends.bind ((h.ends_listOnce htries).mono ?_ fun _ _ => id)
      rintro ⟨found, interrupted⟩ middle ⟨hmiddle, hquiet⟩
      simp only
      split
      · refine (ih (hmiddle.calm h hquiet) (htries.of_holdings hmiddle.holdings)).mono ?_ ?_
        · exact fun _ after hafter => ⟨hmiddle.trans hafter.1, hafter.2⟩
        · exact fun _ after hafter => ⟨hmiddle.trans hafter.1, hafter.2⟩
      · exact Flow.Ends.pure ⟨hmiddle, hquiet⟩

theorem ends_succeeds (h : world.Calm) (hsound : world.channel.peer.Sound)
    (hkind : kind ≠ .filter) :
    Flow.Ends (Flow.succeeds (Flow.listed kind kind.listing)) world
      (fun _ after => world.Asks after ∧ after.channel.peer.outbox = []) (fun _ _ => False) := by
  rw [Flow.succeeds]
  refine Flow.Ends.recover (Flow.Ends.bind (Flow.Ends.discard ?_))
  rw [Flow.listed]
  exact Flow.Ends.bind (Flow.Ends.get ((h.ends_list (tries_listing hsound hkind) _).mono
    (fun _ _ hafter => Flow.Ends.pure hafter) fun _ _ hafter => Flow.Ends.pure hafter))

/-- Asking for the features of the kernel finds them out if they are not known, and changes nothing
else. -/
theorem ends_support (h : world.Calm) (hsound : world.channel.peer.Sound) :
    Flow.Ends Flow.support world
      (fun support after => after.Calm ∧
        after.channel.peer.holdings = world.channel.peer.holdings ∧
        after.session.probe.answer = some support ∧
        ∃ exchange probe, after.session = { world.session with exchange, probe })
      (fun _ _ => False) := by
  rw [Flow.support]
  refine Flow.Ends.bind (Flow.Ends.get ?_)
  cases hanswer : world.session.probe.answer with
  | some support => exact ⟨h, rfl, hanswer, _, _, rfl⟩
  | none =>
      refine Flow.Ends.bind ((h.ends_succeeds hsound (by decide)).mono ?_ fun _ _ => id)
      intro traffic middle ⟨hmiddle, hquiet⟩
      have hsame := hmiddle.holdings
      refine Flow.Ends.bind (((hmiddle.calm h hquiet).ends_succeeds (hsound.of_holdings hsame)
        (by decide)).mono ?_ fun _ _ => id)
      intro ipv6 last ⟨hlast, hquiet⟩
      have hasks := hmiddle.trans hlast
      obtain ⟨exchange, hexchange⟩ := hasks.session
      let facts : Facts := ⟨last.channel.extendedAck, last.channel.strictCheck, traffic, ipv6⟩
      refine Flow.Ends.bind (Flow.Ends.get (Flow.Ends.bind (Flow.Ends.session (Flow.Ends.pure
        ⟨⟨hasks.clear, hquiet, hasks.operations_eq h⟩, hasks.holdings, rfl, exchange,
          last.session.probe.finish facts, ?_⟩))))
      show { last.session with probe := last.session.probe.finish facts } = _
      rw [hexchange]

end World.Calm

end NetState
