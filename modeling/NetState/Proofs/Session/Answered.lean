import NetState.Proofs.Session.Deliver
import NetState.Proofs.Session.Heed
import NetState.Proofs.Session.Transmit

namespace NetState

open Peer

/-- Whether nothing in a channel is set to fail, or put in front of what the peer has to say. -/
structure Channel.Clear (channel : Channel) : Prop where
  injected : channel.injected = []
  sendFaults : channel.sendFaults = []
  failures : channel.peer.failures = []
  overruns : channel.peer.overruns = 0
  muted : channel.peer.muted = false
  repliesDropped : channel.peer.repliesDropped = false

theorem Channel.Clear.past {channel : Channel} (h : channel.Clear) (rest : List Bytes) :
    (channel.past rest).Clear :=
  ⟨h.injected, h.sendFaults, h.failures, h.overruns, h.muted, h.repliesDropped⟩

/-- Whether the answer to a request waits: datagrams that bring in some news, and the report. -/
structure Exchange.Answered (exchange : Exchange) (seq : UInt32) (heard : List News)
    (refusal : Option Int) (outbox : List Bytes) : Prop where
  number : seq ≠ 0
  awaited : exchange.awaited.get? seq = some .ack
  waits : ∃ datagrams header, exchange.Hears datagrams heard ∧
    header.seq = seq ∧ header.pid = exchange.pid ∧
    outbox = datagrams ++ [(Exchange.reportOn header (codeOf refusal)).toBytes]

/-- How a request ended, as the report on it says. -/
def resultOf : Option Int → Except Fault Reply
  | none => .ok .ack
  | some errno => .error (.kernel errno none)

theorem resultOf_code {refusal : Option Int}
    (h : ∀ errno, refusal = some errno → errno ∈ refusals) :
    (if codeOf refusal = 0 then .ok .ack else .error (.kernel (-(codeOf refusal).toInt) none)) =
      resultOf refusal := by
  cases refusal with
  | none => rfl
  | some errno =>
      have hsame : -(Int32.ofInt (-errno)).toInt = errno := by
        have hmem := h errno rfl
        clear h
        revert errno
        decide
      rw [codeOf, if_neg (code_ne_zero (h errno rfl)), hsame]
      rfl

theorem codeOf_ne_minValue {refusal : Option Int}
    (h : ∀ errno, refusal = some errno → errno ∈ refusals) : codeOf refusal ≠ Int32.minValue := by
  cases refusal with
  | none => decide
  | some errno =>
      have hmem := h errno rfl
      clear h
      revert errno
      decide

theorem Exchange.Answered.receive {exchange : Exchange} {seq : UInt32} {heard : List News}
    {refusal : Option Int} {outbox : List Bytes} (h : exchange.Answered seq heard refusal outbox)
    (hrefusal : ∀ errno, refusal = some errno → errno ∈ refusals) :
    ∃ datagram rest, outbox = datagram :: rest ∧
      (exchange.receive (.ok datagram) = .error .crash ∨
        exchange.receive (.ok datagram) = .ok (exchange, []) ∧
          exchange.Answered seq heard refusal rest ∨
        (∃ seen left, heard = seen :: left ∧ exchange.receive (.ok datagram) =
            .ok (exchange, [.notice seen.object.kind seen.change seen.object]) ∧
          exchange.Answered seq left refusal rest) ∨
        heard = [] ∧ rest = [] ∧ exchange.receive (.ok datagram) =
          .ok (exchange.cancel seq, [.reply seq (resultOf refusal)])) := by
  obtain ⟨hnumber, hawaited, datagrams, header, hhears, rfl, hpid, rfl⟩ := h
  cases hhears with
  | nil =>
      refine ⟨_, [], rfl, Or.inr (Or.inr (Or.inr ⟨rfl, rfl, ?_⟩))⟩
      rw [receive_reportOn hnumber hpid hawaited (codeOf_ne_minValue hrefusal),
        ← resultOf_code hrefusal]
      rfl
  | crash hreceive => exact ⟨_, _, rfl, Or.inl hreceive⟩
  | nothing hreceive hrest =>
      exact ⟨_, _, rfl,
        Or.inr (Or.inl ⟨hreceive, hnumber, hawaited, _, header, hrest, rfl, hpid, rfl⟩)⟩
  | notice hreceive hrest =>
      exact ⟨_, _, rfl, Or.inr (Or.inr (Or.inl
        ⟨_, _, rfl, hreceive, hnumber, hawaited, _, header, hrest, rfl, hpid, rfl⟩))⟩

namespace Session

variable {session : Session}

theorem conclude_of_none {verdict : Operation → Option (Except Fault Outcome)}
    (h : ∀ op ∈ session.operations, verdict op = none) : session.conclude verdict = session := by
  have hkept : session.operations.filter (fun op => (verdict op).isNone) = session.operations :=
    List.filter_eq_self.mpr fun op hop => by rw [h op hop]; rfl
  have hnothing : session.operations.filterMap
      (fun op => (verdict op).map fun result => (op.id, result)) = [] :=
    List.filterMap_eq_nil_iff.mpr fun op hop => by rw [h op hop]; rfl
  rw [conclude, hkept, hnothing, List.append_nil]

theorem confirm_of_unacked (h : ∀ op ∈ session.operations, op.isAcked = false) :
    session.confirm = session :=
  conclude_of_none fun op hop => by
    rw [confirmation?, h op hop]
    rfl

theorem expire_of_none {now : Nat} (h : ∀ op ∈ session.operations, session.expired? now op = none) :
    session.expire now = session := by
  have hnobody : session.operations.filter (fun op => (session.expired? now op).isSome) = [] :=
    List.filter_eq_nil_iff.mpr fun op hop => by simp [h op hop]
  rw [expire, hnobody]
  exact conclude_of_none h

theorem take_seen (hconsistent : session.inventory.Consistent)
    (hunacked : ∀ op ∈ session.operations, op.isAcked = false) (now : Nat) {seen : News}
    (hkeeps : seen.change = .del → seen.object.kind ≠ .link) :
    ∃ watched : Watched, watched.inventory = (session.inventory.perform seen.deed).inventory ∧
      session.take now (.notice seen.object.kind seen.change seen.object) =
        { session with watched } := by
  obtain ⟨change, object⟩ := seen
  cases change with
  | new =>
      exact ⟨(session.watched.upsert object).2, rfl, @confirm_of_unacked
        { session with watched := (session.watched.upsert object).2 } hunacked⟩
  | del =>
      refine ⟨(session.watched.remove object.slot).2, rfl, ?_⟩
      have hconfirm := @confirm_of_unacked
        { session with watched := (session.watched.remove object.slot).2 } hunacked
      show session.takeRemoval object.slot = _
      rcases session.takeRemoval_cases object.slot with ⟨-, hkept⟩ | ⟨l, hremoved, -⟩
      · exact hkept.trans hconfirm
      · refine absurd ?_ (hkeeps rfl)
        have hlookup : session.inventory.lookup object.slot = some (.link l) :=
          (Inventory.remove_fst _ _).symm.trans hremoved
        exact (congrArg Slot.kind (hconsistent.placed hlookup)).symm

end Session

end NetState
