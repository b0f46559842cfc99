import NetState.Proofs.Listing
import NetState.Proofs.Peer.Offer
import NetState.Proofs.Session.Deliver
import NetState.Proofs.Session.Transmit

namespace NetState

open Peer

/-- A world in which nothing is set to fail, with a peer that has the same as another one. -/
structure World.Dependable (world : World) (peer : Peer) : Prop where
  injected : world.channel.injected = []
  sendFaults : world.channel.sendFaults = []
  failures : world.channel.peer.failures = []
  overruns : world.channel.peer.overruns = 0
  ipv6 : world.channel.peer.ipv6 = true
  holdings : world.channel.peer.holdings = peer.holdings
  consistent : world.session.inventory.Consistent

namespace Exchange.Cancels

variable {exchange after : Exchange}

theorem pending?_or (h : exchange.Cancels after) (seq : UInt32) :
    after.pending? seq = exchange.pending? seq ∨ after.pending? seq = none := by
  refine h.keeps
    (fun other => other.pending? seq = exchange.pending? seq ∨ other.pending? seq = none)
    ?_ (Or.inl rfl)
  intro other cancelled hother
  rw [pending?_cancel]
  split
  · exact Or.inr rfl
  · exact hother

end Exchange.Cancels

namespace World

variable {world : World} {channel : Channel} {exchange : Exchange} {incoming : List Incoming}

theorem evolves_absorbed (world : World) (channel : Channel) (exchange : Exchange)
    (incoming : List Incoming) :
    ({ world.session with exchange } : Session).Evolves
      (world.absorbed channel exchange incoming).expire.session :=
  (Session.evolves_takeAll _ world.now incoming).trans (Session.follows_expire _ _).evolves

theorem follows_absorbed_nil (world : World) (channel : Channel) (exchange : Exchange) :
    ({ world.session with exchange } : Session).Follows
      (world.absorbed channel exchange []).expire.session :=
  Session.follows_expire _ _

namespace Dependable

variable {peer : Peer}

theorem receive?_eq_some (h : world.Dependable peer) {received : Except Fault Bytes}
    (hreceived : world.channel.receive? = some (received, channel)) :
    ∃ datagram rest, world.channel.peer.outbox = datagram :: rest ∧ received = .ok datagram ∧
      channel = { world.channel with peer := { world.channel.peer with outbox := rest } } := by
  rcases Channel.receive?_eq_some hreceived with ⟨left, hinjected, -⟩ | ⟨-, after, hpeer, rfl⟩
  · exact absurd (h.injected.symm.trans hinjected) (by simp)
  rcases Peer.receive?_eq_some hpeer with ⟨hoverruns, -⟩ | ⟨datagram, rest, -, houtbox, rfl, rfl⟩
  · exact absurd h.overruns (Nat.ne_of_gt hoverruns)
  · exact ⟨datagram, rest, houtbox, rfl, rfl⟩

theorem absorbed (h : world.Dependable peer) (rest : List Bytes) (exchange : Exchange)
    (incoming : List Incoming) :
    (world.absorbed { world.channel with peer := { world.channel.peer with outbox := rest } }
      exchange incoming).expire.Dependable peer :=
  ⟨h.injected, h.sendFaults, h.failures, h.overruns, h.ipv6, h.holdings,
    (evolves_absorbed world _ exchange incoming).consistent h.consistent⟩

end Dependable

end World

namespace Flow

theorem answerTo?_eq_none {seq : UInt32} {incoming : List Incoming}
    (h : ∀ element ∈ incoming, ¬ element.Answers seq) : answerTo? seq incoming = none := by
  rw [answerTo?, List.findSome?_eq_none_iff]
  intro element hmem
  have hother := h element (List.mem_reverse.mp hmem)
  cases element with
  | reply answered result =>
      show (if answered = seq then some result else none) = none
      rw [if_neg]
      rintro rfl
      exact hother ⟨result, rfl⟩
  | _ => rfl

theorem ensures_await {world : World} (deadline : Option Nat) :
    Ensures (await deadline) world fun arrival after => arrival = .elapsed ∨
      ∃ received channel, world.channel.receive? = some (received, channel) ∧
        arrival = .received received ∧ after = { world with channel } := by
  rw [await]
  refine Ensures.bind (Ensures.get ?_)
  cases hreceived : world.channel.receive? with
  | some received => exact Or.inr ⟨received.1, received.2, rfl, rfl, rfl⟩
  | none =>
      simp only
      split
      · exact Or.inl rfl
      · trivial

theorem ensures_giveUp {α : Type} {world : World} {post : α → World → Prop} (kind : Kind)
    (seq : UInt32) : Ensures (giveUp kind seq) world post := by
  rw [giveUp]
  exact Ensures.bind (Ensures.session (Ensures.bind (Ensures.get (Ensures.throw_timeout _ _))))

theorem ensures_awaitNext {world : World} {kind : Kind} {seq : UInt32} {deadline : Nat}
    {post : Option (List Object × Bool) → World → Prop}
    (h : ∀ {received channel}, world.channel.receive? = some (received, channel) →
      world.session.exchange.receive received ≠ .error .crash →
      ∃ exchange incoming, world.session.exchange.receive received = .ok (exchange, incoming) ∧
        ((answerTo? seq incoming = none ∧
            post none (world.absorbed channel exchange (besides seq incoming)).expire) ∨
          ∃ objects interrupted,
            answerTo? seq incoming = some (.ok (.listing kind objects interrupted)) ∧
            post (some (objects, interrupted))
              (world.absorbed channel exchange (besides seq incoming)).expire)) :
    Ensures (awaitNext kind seq deadline) world post := by
  rw [awaitNext]
  refine Ensures.bind ((ensures_await (some deadline)).mono ?_)
  rintro arrival after (rfl | ⟨received, channel, hreceived, rfl, rfl⟩)
  · exact ensures_giveUp kind seq
  by_cases hcrash : world.session.exchange.receive received = .error .crash
  · have habsorb := result_absorb_of_crash { world with channel } hcrash
    refine Ensures.bind ?_
    rw [Ensures, habsorb]
    trivial
  · obtain ⟨exchange, incoming, hexchange, hpost⟩ := h hreceived hcrash
    have habsorb := result_absorb { world with channel } hexchange
    refine Ensures.bind ?_
    rw [Ensures, habsorb]
    refine Ensures.bind (Ensures.change (Ensures.bind (Ensures.change ?_)))
    rcases hpost with ⟨hnone, hpost⟩ | ⟨objects, interrupted, hsome, hpost⟩
    · rw [hnone]
      exact hpost
    · rw [hsome]
      exact hpost

end Flow

/-- A world in which the answer to a request for a listing is still to come. It is made of the
images `all`; `settled` is what will be known of the inventory then. -/
inductive World.Awaits (peer : Peer) (request : Header) (kind : Kind) (all : List Object)
    (settled : Inventory → Prop) (world : World) : Prop where
  /-- The listing was given up, so it will never come. -/
  | lost (hdependable : world.Dependable peer)
      (hnone : world.session.exchange.pending? request.seq = none)
  /-- Some of the listing has come in, and the rest of it waits, perhaps behind other things. -/
  | gathering {stale datagrams : List Bytes} {told left : List Object} {interrupted : Bool}
      (hdependable : world.Dependable peer) (hpid : request.pid = world.session.exchange.pid)
      (hgathers : world.session.exchange.Gathers request.seq kind told)
      (houtbox : world.channel.peer.outbox = stale ++ datagrams)
      (hstale : ∀ datagram ∈ stale, ∀ message ∈ Exchange.messages datagram,
        message.header.pid = request.pid → message.header.seq ≠ request.seq)
      (hremaining : Remaining request interrupted datagrams left)
      (hleft : ∀ object ∈ left, object.kind = kind)
      (hall : told ++ left.filterMap Object.image? = all)
      (hsettled : settled world.session.inventory)
      (hcarefree : stale = [] ∨ ∀ inventory, settled inventory)

/-- A world in which a listing has come in, and nothing more is to come. -/
structure World.Heard (peer : Peer) (settled : Inventory → Prop) (world : World) : Prop where
  dependable : world.Dependable peer
  quiet : world.channel.peer.outbox = []
  known : settled world.session.inventory

namespace World.Awaits

variable {peer : Peer} {request : Header} {kind : Kind} {all : List Object}
  {settled : Inventory → Prop} {world : World}

theorem awaitNext_lost {deadline : Nat} (hdependable : world.Dependable peer)
    (hnone : world.session.exchange.pending? request.seq = none) :
    Flow.Ensures (Flow.awaitNext kind request.seq deadline) world fun answer after =>
      answer = none ∧ after.Awaits peer request kind all settled := by
  refine Flow.ensures_awaitNext ?_
  intro received channel hreceived hcalm
  obtain ⟨datagram, rest, houtbox, rfl, rfl⟩ := hdependable.receive?_eq_some hreceived
  obtain ⟨⟨exchange, incoming⟩, hexchange⟩ := Exchange.exists_receive_of_ne_crash hcalm
  obtain ⟨halone, hother⟩ := @Exchange.leavesAlone_takeAll world.session.exchange request.seq
    (Exchange.messages datagram) [] (fun message _ _ _ => hnone) _ hexchange
  refine ⟨exchange, incoming, hexchange, Or.inl ⟨?_, rfl, lost (hdependable.absorbed rest _ _) ?_⟩⟩
  · refine Flow.answerTo?_eq_none ?_
    intro element hmem hanswers
    exact List.not_mem_nil (hother element hmem hanswers)
  · rcases (World.evolves_absorbed world _ _ _).cancels.pending?_or request.seq with hsame | hnone
    · rw [hsame]
      exact halone.pending.trans hnone
    · exact hnone

theorem of_absorbed {stale datagrams : List Bytes} {told left : List Object} {interrupted : Bool}
    {exchange : Exchange} {incoming : List Incoming}
    (hdependable : world.Dependable peer) (hpid : request.pid = exchange.pid)
    (hgathers : exchange.Gathers request.seq kind told)
    (hstale : ∀ datagram ∈ stale, ∀ message ∈ Exchange.messages datagram,
      message.header.pid = request.pid → message.header.seq ≠ request.seq)
    (hremaining : Remaining request interrupted datagrams left)
    (hleft : ∀ object ∈ left, object.kind = kind)
    (hall : told ++ left.filterMap Object.image? = all)
    (hsettled : incoming = [] ∧ settled world.session.inventory ∨ ∀ inventory, settled inventory)
    (hcarefree : stale = [] ∨ ∀ inventory, settled inventory) :
    (world.absorbed { world.channel with
        peer := { world.channel.peer with outbox := stale ++ datagrams } }
      exchange incoming).expire.Awaits peer request kind all settled := by
  have hevolves := World.evolves_absorbed world
    { world.channel with peer := { world.channel.peer with outbox := stale ++ datagrams } }
    exchange incoming
  rcases hevolves.cancels.pending?_or request.seq with hsame | hnone
  · refine gathering (hdependable.absorbed _ _ _) (hpid.trans hevolves.cancels.pid_eq.symm)
      (hsame.trans hgathers) rfl hstale hremaining hleft hall ?_ hcarefree
    rcases hsettled with ⟨rfl, hsettled⟩ | hsettled
    · rw [(World.follows_absorbed_nil world _ exchange).inventory]
      exact hsettled
    · exact hsettled _
  · exact lost (hdependable.absorbed _ _ _) hnone

/-- The next thing to come in is something else, a piece of the listing, or its end. -/
theorem awaitNext (h : world.Awaits peer request kind all settled) (hnumber : request.seq ≠ 0)
    (deadline : Nat) :
    Flow.Ensures (Flow.awaitNext kind request.seq deadline) world fun answer after =>
      match answer with
      | some listing => listing.1 = all ∧ after.Heard peer settled
      | none => after.Awaits peer request kind all settled := by
  cases h with
  | lost hdependable hnone =>
      refine (@awaitNext_lost peer request kind all settled world deadline hdependable
        hnone).mono ?_
      rintro answer after ⟨rfl, hafter⟩
      exact hafter
  | gathering hdependable hpid hgathers houtbox hstale hremaining hleft hall hsettled hcarefree =>
      rename_i stale datagrams told left interrupted
      refine Flow.ensures_awaitNext ?_
      intro received channel hreceived hcalm
      obtain ⟨datagram, rest, hfirst, rfl, rfl⟩ := hdependable.receive?_eq_some hreceived
      rw [houtbox] at hfirst
      cases stale with
      | cons first more =>
          obtain ⟨rfl, rfl⟩ := List.cons.inj hfirst
          obtain ⟨⟨exchange, incoming⟩, hexchange⟩ := Exchange.exists_receive_of_ne_crash hcalm
          obtain ⟨halone, hother⟩ :=
            @Exchange.leavesAlone_takeAll world.session.exchange request.seq
            (Exchange.messages first) [] (fun message hmessage hown hseq =>
              absurd hseq (hstale first List.mem_cons_self message hmessage (hown.trans hpid.symm)))
            _ hexchange
          refine ⟨exchange, incoming, hexchange, Or.inl ⟨?_, ?_⟩⟩
          · refine Flow.answerTo?_eq_none ?_
            intro element hmem hanswers
            exact List.not_mem_nil (hother element hmem hanswers)
          · have hany := hcarefree.resolve_left (by simp)
            exact of_absorbed hdependable (hpid.trans halone.pid.symm)
              (halone.pending.trans hgathers)
              (fun datagram hdatagram => hstale datagram (List.mem_cons_of_mem first hdatagram))
              hremaining hleft hall (Or.inr hany) (Or.inr hany)
      | nil =>
          obtain ⟨first, more, hdatagrams, hcases⟩ :=
            Exchange.receive_remaining hgathers hpid hnumber
            hremaining hleft
          obtain ⟨rfl, rfl⟩ := List.cons.inj (hdatagrams.symm.trans hfirst)
          rcases hcases hcalm with ⟨rfl, after, disturbed, hreceive⟩ |
            ⟨middle, piece, objects, hreceive, hmiddlePid, hmiddle, hrest, rfl⟩
          · rw [hall] at hreceive
            have hbesides : Flow.besides request.seq
                [.reply request.seq (.ok (.listing kind all disturbed))] = [] := by
              simp [Flow.besides]
            refine ⟨_, _, hreceive, Or.inr ⟨all, disturbed, ?_, rfl, ?_⟩⟩
            · simp [Flow.answerTo?]
            · rw [hbesides]
              refine ⟨hdependable.absorbed [] _ _, rfl, ?_⟩
              rw [(World.follows_absorbed_nil world _ after).inventory]
              exact hsettled
          · refine ⟨_, _, hreceive, Or.inl ⟨rfl, ?_⟩⟩
            rw [List.filterMap_append, ← List.append_assoc] at hall
            exact @of_absorbed peer request kind all settled world [] _ _ _ _ middle []
              hdependable (hpid.trans hmiddlePid.symm) hmiddle (by simp) hrest
              (fun object hobject => hleft object (List.mem_append_right _ hobject)) hall
              (Or.inl ⟨rfl, hsettled⟩) (Or.inl rfl)

theorem awaitListing (h : world.Awaits peer request kind all settled) (hnumber : request.seq ≠ 0)
    (deadline count : Nat) :
    Flow.Ensures (Flow.awaitListing kind request.seq deadline count) world fun listing after =>
      listing.1 = all ∧ after.Heard peer settled := by
  induction count generalizing world with
  | zero =>
      rw [Flow.awaitListing]
      refine Flow.Ensures.bind ((h.awaitNext hnumber deadline).mono ?_)
      rintro (_ | listing) after hafter
      · exact Flow.Ensures.throw_stalled
      · exact Flow.Ensures.pure hafter
  | succ count ih =>
      rw [Flow.awaitListing]
      refine Flow.Ensures.bind ((h.awaitNext hnumber deadline).mono ?_)
      rintro (_ | listing) after hafter
      · exact ih hafter
      · exact Flow.Ensures.pure hafter

end World.Awaits

namespace World

/-- Whether nothing that waits to be received has the number that the next request gets. -/
def Fresh (world : World) : Prop :=
  ∀ datagram ∈ world.channel.peer.outbox, ∀ message ∈ Exchange.messages datagram,
    message.header.pid = world.session.exchange.pid →
      message.header.seq ≠ Exchange.seqAfter world.session.exchange.seq

/-- A world that a listing can be asked for in. Either nothing waits to be received, or what is
known of the inventory holds of any other. -/
structure Ready (peer : Peer) (settled : Inventory → Prop) (world : World) : Prop where
  dependable : world.Dependable peer
  fresh : world.Fresh
  known : settled world.session.inventory
  carefree : world.channel.peer.outbox = [] ∨ ∀ inventory, settled inventory

variable {peer : Peer} {settled : Inventory → Prop} {world : World}

theorem Heard.ready (h : world.Heard peer settled) : world.Ready peer settled where
  dependable := h.dependable
  fresh datagram hdatagram := by
    rw [h.quiet] at hdatagram
    exact absurd hdatagram List.not_mem_nil
  known := h.known
  carefree := Or.inl h.quiet

variable {kind : Kind} {draft : Draft} {objects : List Object}

theorem Ready.sent (h : world.Ready peer settled) (hoffers : peer.Offers kind draft objects) :
    (world.sent draft (Exchange.fresh kind .whole)).Awaits peer (world.stamped draft).header kind
      (objects.filterMap Object.image?) settled := by
  have hlisted : (world.channel.peer.noted
      ⟨(world.stamped draft).header, (world.stamped draft).body⟩).listed
        ⟨(world.stamped draft).header, (world.stamped draft).body⟩ = .ok objects :=
    hoffers.listed h.dependable.holdings h.dependable.ipv6
  have hcalm := (crashes_addressed _ draft (Exchange.seqAfter world.session.exchange.seq)
    world.session.exchange.pid).trans (hoffers.calm h.dependable.failures)
  have hanswer := answer_of_listed h.dependable.failures hcalm
    (show asksForListing (world.stamped draft).header = true from hoffers.asks) hlisted
  have hpeer := (world.peer_sent hoffers.measured (Exchange.fresh kind .whole)).trans hanswer
  refine Awaits.gathering ?_ rfl ?_ (congrArg outbox hpeer) h.fresh
    (remaining_listingDatagrams _ _ objects _) hoffers.ofKind (List.nil_append _) h.known h.carefree
  · refine ⟨h.dependable.injected, h.dependable.sendFaults, ?_, ?_, ?_, ?_, h.dependable.consistent⟩
    · rw [hpeer]
      exact h.dependable.failures
    · rw [hpeer]
      exact h.dependable.overruns
    · rw [hpeer]
      exact h.dependable.ipv6
    · rw [hpeer]
      exact h.dependable.holdings
  · show Exchange.pending? _ _ = _
    rw [Exchange.pending?]
    exact congrArg (Option.map Awaited.calmed) (Table.get?_insert_self _ _ _)

theorem Ready.listOnce (h : world.Ready peer settled) (hoffers : peer.Offers kind draft objects) :
    Flow.Ensures (Flow.listOnce kind draft) world fun listing after =>
      listing.1 = objects.filterMap Object.image? ∧ after.Heard peer settled := by
  rw [Flow.listOnce]
  have htransmit := transmit_of_nil h.dependable.sendFaults hoffers.measured
    (Exchange.fresh kind .whole)
  refine Flow.Ensures.bind (Flow.Ensures.sending htransmit ?_)
  refine Flow.Ensures.bind (Flow.Ensures.get ?_)
  exact (h.sent hoffers).awaitListing (Exchange.seqAfter_ne_zero _) _ _

theorem Ready.list (h : world.Ready peer settled) (hoffers : peer.Offers kind draft objects)
    (retries : Nat) :
    Flow.Ensures (Flow.list kind draft retries) world fun found after =>
      found = objects.filterMap Object.image? ∧ after.Heard peer settled := by
  -- A listing that was disturbed is whole all the same; asking again only hears it once more.
  induction retries generalizing world with
  | zero =>
      rw [Flow.list]
      refine Flow.Ensures.bind ((h.listOnce hoffers).mono ?_)
      intro listing after hafter
      exact Flow.Ensures.pure hafter
  | succ left ih =>
      rw [Flow.list]
      refine Flow.Ensures.bind ((h.listOnce hoffers).mono ?_)
      rintro ⟨found, interrupted⟩ after ⟨hfound, hafter⟩
      simp only
      split
      · exact ih hafter.ready
      · exact Flow.Ensures.pure ⟨hfound, hafter⟩

theorem Ready.listedUnless (h : world.Ready peer settled) (hoffers : peer.Offers kind draft objects)
    {expected : Fault → Bool} (hexpected : ∀ text span, expected (.timeout text span) = false) :
    Flow.Ensures (Flow.listedUnless expected kind draft) world fun found after =>
      found = objects.filterMap Object.image? ∧ after.Heard peer settled := by
  rw [Flow.listedUnless]
  refine Flow.Ensures.recover ?_ ?_
  · rw [Flow.listed]
    exact Flow.Ensures.bind (Flow.Ensures.get (h.list hoffers _))
  · intro text span after
    rw [hexpected]
    rfl

end World

end NetState
