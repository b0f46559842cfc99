import NetState.Proofs.Listing
import NetState.Proofs.Session.Transmit

/-!
The worlds that a session and its peer can come to, and the numbers of what waits in them.

All that the peer says to a request has the number of the request, and what it says of its own
accord has none. So what waits for a session has the numbers of requests that it has made, and never
that of its next one. The numbers of requests are taken to last, as those of links are: no request
uses up the last one.
-/

namespace NetState

open Peer

namespace Peer

/-- Whether every message of a datagram has the number of a request of a socket. -/
def Bears (seq pid : UInt32) (datagram : Bytes) : Prop :=
  ∀ message ∈ Exchange.messages datagram, message.header.seq = seq ∧ message.header.pid = pid

theorem bears_addressed {draft : Draft} (h : draft.IsMeasured) (seq pid : UInt32) :
    Bears seq pid (draft.addressed seq pid).toBytes := by
  intro message hmessage
  rw [Exchange.messages_toBytes (show (draft.addressed seq pid).IsMeasured from h),
    List.mem_singleton] at hmessage
  rw [hmessage]
  exact ⟨rfl, rfl⟩

/-- Whether a peer has become another one and added nothing to what waits but answers to a
request. -/
def Adds (peer after : Peer) (seq pid : UInt32) : Prop :=
  ∃ more, after.outbox = peer.outbox ++ more ∧ ∀ datagram ∈ more, Bears seq pid datagram

variable {peer middle after : Peer} {seq pid : UInt32}

theorem Adds.nothing (h : after.outbox = peer.outbox) (seq pid : UInt32) :
    peer.Adds after seq pid :=
  ⟨[], h.trans (List.append_nil _).symm, fun _ hmem => absurd hmem List.not_mem_nil⟩

theorem Adds.trans (h : peer.Adds middle seq pid) (hmore : middle.Adds after seq pid) :
    peer.Adds after seq pid := by
  obtain ⟨some, hsome, hbears⟩ := h
  obtain ⟨more, hmore, hmoreBears⟩ := hmore
  refine ⟨some ++ more, ?_, ?_⟩
  · rw [hmore, hsome, List.append_assoc]
  · intro datagram hdatagram
    rcases List.mem_append.mp hdatagram with hdatagram | hdatagram
    · exact hbears datagram hdatagram
    · exact hmoreBears datagram hdatagram

theorem adds_report (peer : Peer) (request : Header) (code : Int32) :
    peer.Adds (peer.report request code) request.seq request.pid := by
  rw [report]
  split
  · exact Adds.nothing rfl _ _
  · refine ⟨_, rfl, fun datagram hdatagram => ?_⟩
    rw [List.mem_singleton.mp hdatagram]
    exact bears_addressed (Exchange.isMeasured_reportOn request code) _ _

theorem adds_failure (peer : Peer) (failures : List (UInt16 × Int32)) (request : Header)
    (code : Int32) :
    peer.Adds (({ peer with failures } : Peer).report request code) request.seq request.pid :=
  have hleft : peer.Adds { peer with failures } request.seq request.pid := Adds.nothing rfl _ _
  hleft.trans (adds_report _ request code)

theorem adds_tellAll (peer : Peer) (origin : Origin) (news : List News) :
    peer.Adds (peer.tellAll origin news) origin.seq origin.pid := by
  refine ⟨_, rfl, fun datagram hdatagram => ?_⟩
  obtain ⟨told, -, hdatagram⟩ := List.mem_flatMap.mp hdatagram
  rw [News.datagrams] at hdatagram
  split at hdatagram
  · exact absurd hdatagram List.not_mem_nil
  · split at hdatagram
    · rename_i hdraft
      rw [List.mem_singleton.mp hdatagram]
      exact bears_addressed (Object.isMeasured_toMessage hdraft 0 0) _ _
    · exact absurd hdatagram List.not_mem_nil

theorem adds_course {origin : Origin} {effect : Effect} (h : Course peer origin effect) :
    peer.Adds effect.peer origin.seq origin.pid := by
  cases h with
  | done hdeed refusal =>
      refine (Adds.nothing ?_ _ _).trans (adds_tellAll _ origin _)
      cases hdeed <;> rfl
  | uprooted => exact Adds.nothing rfl _ _

theorem adds_intervene (h : peer.Sound) (object : Object) (goal : Goal) (silent : Bool)
    (hnext : peer.nextIndex ≤ (peer.intervene object goal silent).1.nextIndex) :
    peer.Adds (peer.intervene object goal silent).1 0 0 := by
  rw [intervene_eq] at hnext ⊢
  exact adds_course (course_apply h (.outside silent) _ goal object hnext)

theorem adds_answerListing (peer : Peer) (request : Message) :
    peer.Adds (peer.answerListing request) request.header.seq request.header.pid := by
  rw [answerListing]
  split
  · exact adds_report peer _ _
  · refine ⟨_, rfl, fun datagram hdatagram message hmessage => ?_⟩
    exact (remaining_listingDatagrams _ _ _ _).header_of_mem hdatagram hmessage

theorem adds_answerChange (h : peer.Sound) (request : Header)
    (decoded : Except Failure (Option (Change × Object)))
    (hnext : peer.nextIndex ≤ (peer.answerChange request decoded).nextIndex) :
    peer.Adds (peer.answerChange request decoded) request.seq request.pid := by
  rw [nextIndex_of_holdings (holdings_answerChange peer request decoded)] at hnext
  have hcourse := adds_course (course_carryOut h request decoded hnext)
  rw [answerChange_eq]
  split
  · exact hcourse.trans (adds_report _ _ _)
  · split
    · exact hcourse.trans (adds_report _ _ _)
    · exact hcourse

theorem adds_respond (h : peer.Sound) (request : Message)
    (hnext : peer.nextIndex ≤ (peer.respond request).nextIndex) :
    peer.Adds (peer.respond request) request.header.seq request.header.pid := by
  have hnoted : peer.Adds (peer.noted request) request.header.seq request.header.pid :=
    Adds.nothing rfl _ _
  have hsound : (peer.noted request).Sound := h.of_holdings rfl
  refine hnoted.trans ?_
  rw [respond_eq] at hnext ⊢
  cases hfailure : takeFailure request.header.kind peer.failures with
  | some failure =>
      exact adds_failure (peer.noted request) failure.2 request.header (-failure.1)
  | none =>
      rw [hfailure] at hnext
      simp only at hnext ⊢
      split
      · exact adds_answerListing _ request
      · rename_i hchange
        rw [if_neg hchange] at hnext
        exact adds_answerChange hsound _ _ hnext

/-- Whatever a request is for, the answer has its number. -/
theorem adds_answer (h : peer.Sound) (request : Message)
    (hnext : peer.nextIndex ≤ (peer.answer request).nextIndex) :
    peer.Adds (peer.answer request) request.header.seq request.header.pid := by
  rcases peer.answer_cases request with hanswer | hanswer
  · rw [hanswer]
    exact Adds.nothing rfl _ _
  · rw [hanswer] at hnext ⊢
    exact adds_respond h request hnext

/-- Whether what waits for a socket has numbers up to a limit. -/
def WaitsWithin (peer : Peer) (own limit : UInt32) : Prop :=
  ∀ datagram ∈ peer.outbox, ∀ message ∈ Exchange.messages datagram,
    message.header.pid = own → message.header.seq ≤ limit

theorem WaitsWithin.adds {own limit : UInt32} (h : peer.WaitsWithin own limit)
    (hadds : peer.Adds after seq pid) (hlimit : pid = own → seq ≤ limit) :
    after.WaitsWithin own limit := by
  obtain ⟨more, houtbox, hbears⟩ := hadds
  intro datagram hdatagram message hmessage hown
  rw [houtbox] at hdatagram
  rcases List.mem_append.mp hdatagram with hdatagram | hdatagram
  · exact h datagram hdatagram message hmessage hown
  · obtain ⟨hseq, hpid⟩ := hbears datagram hdatagram message hmessage
    rw [hseq]
    exact hlimit (hpid.symm.trans hown)

theorem WaitsWithin.mono {own limit higher : UInt32} (h : peer.WaitsWithin own limit)
    (hhigher : limit ≤ higher) : peer.WaitsWithin own higher :=
  fun datagram hdatagram message hmessage hown =>
    UInt32.le_trans (h datagram hdatagram message hmessage hown) hhigher

theorem WaitsWithin.receive {own limit : UInt32} (h : peer.WaitsWithin own limit)
    {received : Except Fault Bytes} (hreceived : peer.receive? = some (received, after)) :
    after.WaitsWithin own limit := by
  rcases receive?_eq_some hreceived with ⟨-, -, rfl⟩ | ⟨datagram, rest, -, houtbox, -, rfl⟩
  · exact h
  · intro other hother
    exact h other (houtbox ▸ List.mem_cons_of_mem datagram hother)

end Peer

namespace World

def withPeer (world : World) (peer : Peer) : World :=
  { world with channel := { world.channel with peer } }

def changed (world : World) (object : Object) (goal : Goal) (silent : Bool) : World :=
  world.withPeer (world.channel.peer.intervene object goal silent).1

/-- The worlds that a session at a new socket comes to with its peer. Somebody outside makes
changes, the session and others make requests, what waits is received, faults are set up for trying
out what comes of them, and the session does with what it knows what it likes. Neither the numbers
of links nor those of requests run out. -/
inductive Reachable : World → Prop where
  | opened (config : Config) (files : Files) (extendedAck strictCheck : Bool) :
      Reachable (.new config files (.new Peer.initial extendedAck strictCheck))
  | outside {world : World} (h : Reachable world) (object : Object) (goal : Goal) (silent : Bool)
      (hnext : world.channel.peer.nextIndex ≤
        (world.changed object goal silent).channel.peer.nextIndex) :
      Reachable (world.changed object goal silent)
  | request {world : World} (h : Reachable world) {draft : Draft} (hmeasured : draft.IsMeasured)
      (awaited : Awaited)
      (hroom : Exchange.seqAfter world.session.exchange.seq <
        Exchange.seqAfter (Exchange.seqAfter world.session.exchange.seq))
      (hnext : world.channel.peer.nextIndex ≤
        (world.transmit draft awaited).1.channel.peer.nextIndex) :
      Reachable (world.transmit draft awaited).1
  | elsewhere {world : World} (h : Reachable world) (request : Message)
      (hother : request.header.pid ≠ world.session.exchange.pid)
      (hnext : world.channel.peer.nextIndex ≤ (world.channel.peer.answer request).nextIndex) :
      Reachable (world.withPeer (world.channel.peer.answer request))
  | received {world : World} (h : Reachable world) {received : Except Fault Bytes}
      {channel : Channel} (hreceived : world.channel.receive? = some (received, channel)) :
      Reachable { world with channel }
  | prepared {world : World} (h : Reachable world) (requests : List SeenRequest)
      (failures : List (UInt16 × Int32)) (overruns interruptions chunk : Nat)
      (muted repliesDropped ipv6 : Bool) (injected : List (Except Fault Bytes))
      (sendFaults : List Fault) (sent : List Bytes) (extendedAck strictCheck : Bool) :
      Reachable
        { world with
          channel :=
            { peer :=
                { world.channel.peer with
                  requests, failures, overruns, interruptions, chunk, muted, repliesDropped, ipv6 }
              injected, sendFaults, sent, extendedAck, strictCheck } }
  | arranged {world : World} (h : Reachable world) {session : Session}
      (hpid : session.exchange.pid = world.session.exchange.pid)
      (hseq : session.exchange.seq = world.session.exchange.seq) (now horizon : Nat) :
      Reachable { world with session, now, horizon }

variable {world : World}

theorem Reachable.peer (h : world.Reachable) : world.channel.peer.Reachable := by
  induction h with
  | opened => exact Peer.Reachable.initial
  | outside _ object goal silent hnext ih => exact ih.intervene object goal silent hnext
  | @request world _ draft hmeasured awaited _ hnext ih =>
      cases hfaults : world.channel.sendFaults with
      | nil =>
          rw [transmit_of_nil hfaults hmeasured, peer_sent world hmeasured] at hnext
          rw [transmit_of_nil hfaults hmeasured]
          show (world.sent draft awaited).channel.peer.Reachable
          rw [peer_sent world hmeasured]
          exact ih.answer _ hnext
      | cons fault rest =>
          rw [transmit_of_cons hfaults]
          exact ih
  | elsewhere _ request _ hnext ih => exact ih.answer request hnext
  | @received world _ received channel hreceived ih =>
      rcases Channel.receive?_eq_some hreceived with ⟨rest, -, rfl⟩ | ⟨-, peer, hpeer, rfl⟩
      · exact ih
      · exact ih.receive hpeer
  | prepared => rename_i ih; exact ih.control _ _ _ _ _ _ _ _
  | arranged _ _ _ _ _ ih => exact ih

/-- What is known of the numbers in a world: that of the last request is not the last one, and none
of what waits for the session has a later one. -/
structure Numbered (world : World) : Prop where
  pid : world.session.exchange.pid ≠ 0
  room : world.session.exchange.seq < Exchange.seqAfter world.session.exchange.seq
  waits : world.channel.peer.WaitsWithin world.session.exchange.pid world.session.exchange.seq

theorem Reachable.numbered (h : world.Reachable) : world.Numbered := by
  induction h with
  | opened =>
      exact ⟨show listener ≠ 0 by decide, show (0 : UInt32) < Exchange.seqAfter 0 by decide,
        fun _ hdatagram => absurd hdatagram List.not_mem_nil⟩
  | outside h object goal silent hnext ih =>
      have hadds := adds_intervene h.peer.sound object goal silent hnext
      exact ⟨ih.pid, ih.room, ih.waits.adds hadds fun hown => absurd hown.symm ih.pid⟩
  | @request world h draft hmeasured awaited hroom hnext ih =>
      have hmore := ih.waits.mono (UInt32.le_of_lt ih.room)
      cases hfaults : world.channel.sendFaults with
      | nil =>
          rw [transmit_of_nil hfaults hmeasured, peer_sent world hmeasured] at hnext
          rw [transmit_of_nil hfaults hmeasured]
          have hadds := adds_answer h.peer.sound _ hnext
          refine ⟨ih.pid, hroom, ?_⟩
          show (world.sent draft awaited).channel.peer.WaitsWithin _ _
          rw [peer_sent world hmeasured]
          exact hmore.adds hadds fun _ => UInt32.le_refl _
      | cons fault rest =>
          rw [transmit_of_cons hfaults]
          exact ⟨ih.pid, hroom, hmore⟩
  | elsewhere h request hother hnext ih =>
      have hadds := adds_answer h.peer.sound request hnext
      exact ⟨ih.pid, ih.room, ih.waits.adds hadds fun hown => absurd hown hother⟩
  | @received world _ received channel hreceived ih =>
      refine ⟨ih.pid, ih.room, ?_⟩
      rcases Channel.receive?_eq_some hreceived with ⟨rest, -, rfl⟩ | ⟨-, peer, hpeer, rfl⟩
      · exact ih.waits
      · exact ih.waits.receive hpeer
  | prepared => rename_i ih; exact ⟨ih.pid, ih.room, ih.waits⟩
  | arranged _ hpid hseq _ _ ih =>
      refine ⟨?_, ?_, ?_⟩
      · rw [hpid]
        exact ih.pid
      · rw [hseq]
        exact ih.room
      · rw [hpid, hseq]
        exact ih.waits

end World

end NetState
