import NetState.Proofs.Flow
import NetState.Proofs.Session.Take

namespace NetState

open Peer

/-- The channel after the first datagram that waits was received. -/
def Channel.past (channel : Channel) (rest : List Bytes) : Channel :=
  { channel with peer := { channel.peer with outbox := rest } }

theorem Channel.receive?_of_outbox {channel : Channel} (hinjected : channel.injected = [])
    (hoverruns : channel.peer.overruns = 0) {datagram : Bytes} {rest : List Bytes}
    (houtbox : channel.peer.outbox = datagram :: rest) :
    channel.receive? = some (.ok datagram, channel.past rest) := by
  have hpeer : channel.peer.receive? =
      some (.ok datagram, { channel.peer with outbox := rest }) := by
    rw [Peer.receive?, if_neg (Nat.not_lt.mpr (Nat.le_of_eq hoverruns)), houtbox]
  rw [receive?]
  split
  · rename_i hfirst
    exact absurd (hinjected.symm.trans hfirst) (by simp)
  · rw [hpeer]
    rfl

/-- The world after a reception that brought in `incoming`. -/
def World.absorbed (world : World) (channel : Channel) (exchange : Exchange)
    (incoming : List Incoming) : World :=
  (({ world with channel } : World).mapSession ({ · with exchange })).takeAll incoming

theorem Flow.result_resync {world : World} (hstale : world.session.stale = false) :
    result resync world = (.ok (), world) := by
  rw [resync, result_bind, result_get]
  simp only [hstale]
  rfl

theorem Flow.result_await {world : World} {received : Except Fault Bytes} {channel : Channel}
    (hreceived : world.channel.receive? = some (received, channel)) (deadline : Option Nat) :
    result (await deadline) world = (.ok (.received received), { world with channel }) := by
  rw [await, result_bind, result_get]
  simp only [hreceived]
  rfl

theorem Flow.result_absorb (world : World) {received : Except Fault Bytes} {exchange : Exchange}
    {incoming : List Incoming}
    (h : world.session.exchange.receive received = .ok (exchange, incoming)) :
    result (absorb received) world =
      (.ok incoming, world.mapSession ({ · with exchange })) := by
  rw [absorb, result_bind, result_get]
  simp only [result_bind, h]
  rfl

theorem Flow.result_absorb_of_crash (world : World) {received : Except Fault Bytes}
    (h : world.session.exchange.receive received = .error .crash) :
    result (absorb received) world = (.error .crash, world) := by
  rw [absorb, result_bind, result_get]
  simp only [result_bind, result_ofFailing_of_crash h]

theorem Flow.result_takeWaiting_succ {world : World} {datagram : Bytes} {channel : Channel}
    {exchange : Exchange} {incoming : List Incoming}
    (hreceived : world.channel.receive? = some (.ok datagram, channel))
    (hexchange : world.session.exchange.receive (.ok datagram) = .ok (exchange, incoming))
    (count : Nat) :
    result (takeWaiting (count + 1)) world =
      match result (takeWaiting count) (world.absorbed channel exchange incoming) with
      | (.ok handled, after) => (.ok (incoming.length + handled), after)
      | (.error halt, after) => (.error halt, after) := by
  rw [takeWaiting, result_bind, result_get]
  have habsorb := result_absorb { world with channel } hexchange
  simp only [hreceived, result_bind, result_set, habsorb, result_change]
  rw [World.absorbed]
  rcases result (takeWaiting count) _ with ⟨halt | handled, after⟩ <;> rfl

/-- What is still to be received, as news and reports that lead from what is shown to what there
is. -/
inductive Pending (exchange : Exchange) :
    (Object → Prop) → List Bytes → (Object → Prop) → Prop where
  | nil {has : Object → Prop} : Pending exchange has [] has
  | news {before middle after : Object → Prop} {news : News} {seen image : Object} {draft : Draft}
      {seq pid : UInt32} {rest : List Bytes} (hunlisted : exchange.Unlisted seq pid)
      (hdraft : news.object.toMessage news.type 0 = .ok draft) (hseen : news.IsSeen seen)
      (himage : news.object.image? = some image) (hfollows : Follows before middle news)
      (hrest : Pending exchange middle rest after) :
      Pending exchange before ((draft.addressed seq pid).toBytes :: rest) after
  | report {before after : Object → Prop} {request : Header} {rest : List Bytes}
      (hunlisted : exchange.Unlisted request.seq request.pid)
      (hrest : Pending exchange before rest after) :
      Pending exchange before ((Exchange.ackReport request).toBytes :: rest) after

namespace Pending

variable {exchange other : Exchange} {before middle after : Object → Prop}
  {outbox more : List Bytes}

theorem append (h : Pending exchange before outbox middle)
    (hmore : Pending exchange middle more after) :
    Pending exchange before (outbox ++ more) after := by
  induction h with
  | nil => exact hmore
  | news hunlisted hdraft hseen himage hfollows _ ih =>
      exact news hunlisted hdraft hseen himage hfollows (ih hmore)
  | report hunlisted _ ih => exact report hunlisted (ih hmore)

theorem mono (h : Pending exchange before outbox after)
    (hunlisted : ∀ {seq pid}, exchange.Unlisted seq pid → other.Unlisted seq pid) :
    Pending other before outbox after := by
  induction h with
  | nil => exact nil
  | news hown hdraft hseen himage hfollows _ ih =>
      exact news (hunlisted hown) hdraft hseen himage hfollows ih
  | report hown _ ih => exact report (hunlisted hown) ih

theorem of_account {list : List News} {origin : Origin} (haccount : Account before list after)
    (hloud : origin.silent = false) (hunlisted : exchange.Unlisted origin.seq origin.pid)
    (himages : ∀ told ∈ list, ∃ image, told.object.image? = some image)
    (hpriorities : ∀ told ∈ list, ∀ f, told.object = .filter f → f.priority ≠ 0) :
    Pending exchange before (list.flatMap (News.datagrams origin false)) after := by
  induction haccount with
  | nil => exact nil
  | cons hfollows _ ih =>
      rename_i told rest _
      obtain ⟨image, himage⟩ := himages told List.mem_cons_self
      obtain ⟨seen, hseen⟩ := News.exists_isSeen himage (hpriorities told List.mem_cons_self)
      obtain ⟨fields, hfields, hsize, -⟩ := Object.told?_eq_some_iff.mp hseen.told
      have hdraft : told.object.toMessage told.type 0 = .ok (.new told.type 0 fields) :=
        Object.toMessage_eq_ok_iff.mpr ⟨fields, hfields, hsize, rfl⟩
      have hfirst : News.datagrams origin false told =
          [((Draft.new told.type 0 fields).addressed origin.seq origin.pid).toBytes] := by
        rw [News.datagrams, hloud, hdraft]
        rfl
      rw [List.flatMap_cons, hfirst]
      exact news hunlisted hdraft hseen himage hfollows
        (ih (fun other hmem => himages other (List.mem_cons_of_mem _ hmem))
          fun other hmem => hpriorities other (List.mem_cons_of_mem _ hmem))

end Pending

/-- A world in which the inventory shows what the peer has, but for what is still to be received. -/
structure World.Faithful (world : World) : Prop where
  sound : world.channel.peer.Sound
  tellable : world.channel.peer.Tellable
  injected : world.channel.injected = []
  overruns : world.channel.peer.overruns = 0
  muted : world.channel.peer.muted = false
  pid : world.session.exchange.pid ≠ 0
  consistent : world.session.inventory.Consistent
  pending : ∃ shown, world.session.inventory.Shows shown ∧
    Pending world.session.exchange shown world.channel.peer.outbox world.channel.peer.Has

namespace World.Faithful

variable {world : World}

theorem receive?_eq (h : world.Faithful) {datagram : Bytes} {rest : List Bytes}
    (houtbox : world.channel.peer.outbox = datagram :: rest) :
    world.channel.receive? = some (.ok datagram, world.channel.past rest) :=
  Channel.receive?_of_outbox h.injected h.overruns houtbox

theorem absorb (h : world.Faithful) {datagram : Bytes} {rest : List Bytes}
    (houtbox : world.channel.peer.outbox = datagram :: rest) :
    ∃ exchange incoming,
      world.session.exchange.receive (.ok datagram) = .ok (exchange, incoming) ∧
      (world.absorbed (world.channel.past rest) exchange incoming).Faithful := by
  have hsound : ({ world.channel.peer with outbox := rest } : Peer).Sound := h.sound.of_holdings rfl
  have htellable : ({ world.channel.peer with outbox := rest } : Peer).Tellable :=
    ⟨h.tellable.imaged, h.tellable.prioritized⟩
  obtain ⟨shown, hshows, hpending⟩ := h.pending
  rw [houtbox] at hpending
  -- News bring the inventory a step further; a report is about a request, and leaves it as it is.
  cases hpending with
  | news hunlisted hdraft hseen himage hfollows hrest =>
      rename_i middle news seen image draft seq pid
      refine ⟨_, _, Exchange.receive_news hunlisted hdraft hseen, ?_⟩
      obtain ⟨hinventory, hcancels⟩ :=
        Session.take_notice world.session world.now news seen
      refine ⟨hsound, htellable, h.injected, h.overruns, h.muted, ?_, ?_, middle, ?_, ?_⟩
      · intro hzero
        exact h.pid (hcancels.pid_eq.symm.trans hzero)
      · exact hinventory ▸ h.consistent.perform _
      · exact hinventory ▸ hshows.perform h.consistent hfollows hseen himage
      · exact hrest.mono fun hown => hcancels.unlisted hown
  | report hunlisted hrest =>
      rename_i request
      rcases Exchange.receive_ackReport hunlisted with hreceive | hreceive
      · refine ⟨_, _, hreceive, ?_⟩
        exact ⟨hsound, htellable, h.injected, h.overruns, h.muted, h.pid, h.consistent, shown,
          hshows, hrest⟩
      · refine ⟨_, _, hreceive, ?_⟩
        have hfollows := Session.follows_take_reply
          ({ world.session with exchange := world.session.exchange.cancel request.seq } : Session)
          world.now request.seq .ack
        refine ⟨hsound, htellable, h.injected, h.overruns, h.muted, ?_, ?_, shown, ?_, ?_⟩
        · intro hzero
          exact h.pid (hfollows.cancels.pid_eq.symm.trans hzero)
        · exact hfollows.inventory ▸ h.consistent
        · exact hfollows.inventory ▸ hshows
        · refine hrest.mono fun hown => ?_
          exact ((Exchange.Cancels.single _ _).trans hfollows.cancels).unlisted hown

theorem result_takeWaiting (h : world.Faithful) (count : Nat) :
    ∃ handled after, Flow.result (Flow.takeWaiting count) world = (.ok handled, after) ∧
      after.Faithful ∧ after.channel.peer =
        { world.channel.peer with outbox := world.channel.peer.outbox.drop count } := by
  induction count generalizing world with
  | zero => exact ⟨0, world, rfl, h, rfl⟩
  | succ count ih =>
      cases houtbox : world.channel.peer.outbox with
      | nil =>
          have hnothing : world.channel.receive? = none := by
            refine Channel.receive?_eq_none ?_
            rw [Channel.waiting, Peer.waiting, h.injected, h.overruns, houtbox]
            rfl
          refine ⟨0, world, ?_, h, ?_⟩
          · rw [Flow.takeWaiting, Flow.result_bind, Flow.result_get]
            simp only [hnothing]
            rfl
          · rw [List.drop_nil, ← houtbox]
      | cons datagram rest =>
          obtain ⟨exchange, incoming, hexchange, hfaithful⟩ := h.absorb houtbox
          obtain ⟨handled, after, hresult, hafter, hpeer⟩ := ih hfaithful
          refine ⟨incoming.length + handled, after, ?_, hafter, hpeer⟩
          rw [Flow.result_takeWaiting_succ (h.receive?_eq houtbox) hexchange, hresult]

/-- When nothing more is to be received the inventory mirrors the peer. -/
theorem mirrors (h : world.Faithful) (hempty : world.channel.peer.outbox = []) :
    world.session.inventory.Mirrors world.channel.peer := by
  obtain ⟨shown, hshows, hpending⟩ := h.pending
  rw [hempty] at hpending
  cases hpending
  exact (Inventory.mirrors_iff_shows h.sound).mpr hshows

theorem of_mirrors (hsound : world.channel.peer.Sound) (htellable : world.channel.peer.Tellable)
    (hinjected : world.channel.injected = []) (hoverruns : world.channel.peer.overruns = 0)
    (hmuted : world.channel.peer.muted = false) (hpid : world.session.exchange.pid ≠ 0)
    (hconsistent : world.session.inventory.Consistent)
    (hempty : world.channel.peer.outbox = [])
    (hmirrors : world.session.inventory.Mirrors world.channel.peer) : world.Faithful := by
  refine ⟨hsound, htellable, hinjected, hoverruns, hmuted, hpid, hconsistent,
    world.channel.peer.Has, (Inventory.mirrors_iff_shows hsound).mp hmirrors, ?_⟩
  rw [hempty]
  exact Pending.nil

end World.Faithful

end NetState
