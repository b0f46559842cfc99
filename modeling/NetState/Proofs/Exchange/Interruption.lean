import NetState.Proofs.Exchange.Assembly

namespace NetState

namespace Message

/-- A message carries a number and the flag of a disturbed listing. -/
def isFlagged (message : Message) (seq : UInt32) : Bool :=
  message.header.isInterrupted && message.header.seq == seq

/-- A flag that is heeded: that of an object, or that of the end of a listing for the socket. -/
def disturbs (message : Message) (pid seq : UInt32) : Bool :=
  message.isFlagged seq &&
    (message.told?.isSome || message.header.isDone && message.header.pid == pid)

variable {message : Message} {pid seq : UInt32}

theorem not_isDone_of_isOverrun (h : message.header.isOverrun = true) :
    message.header.isDone = false := by
  rw [Header.isOverrun, beq_iff_eq] at h
  rw [Header.isDone, h]
  decide

theorem isFlagged_eq_false (h : message.header.seq ≠ seq) : message.isFlagged seq = false := by
  rw [isFlagged, beq_eq_false_iff_ne.mpr h, Bool.and_false]

theorem disturbs_of_told? {found : Change × Object} (h : message.told? = some found) :
    message.disturbs pid seq = message.isFlagged seq := by
  rw [disturbs, h, Option.isSome_some, Bool.true_or, Bool.and_true]

theorem disturbs_eq_false (htold : message.told? = none)
    (hends : message.header.isDone = true → message.header.pid = pid → message.header.seq ≠ seq) :
    message.disturbs pid seq = false := by
  rw [disturbs, htold, Option.isSome_none, Bool.false_or, Bool.and_eq_false_iff]
  by_cases hend : message.header.isDone = true ∧ message.header.pid = pid
  · exact Or.inl (isFlagged_eq_false (hends hend.1 hend.2))
  · refine Or.inr (Bool.eq_false_iff.mpr ?_)
    rw [Ne, Bool.and_eq_true, beq_iff_eq]
    exact hend

end Message

namespace Exchange

open Incoming

/-- The mark of a listing that is under way: whether it is known to be disturbed. -/
def mark? (exchange : Exchange) (seq : UInt32) : Option Bool :=
  match exchange.awaited.get? seq with
  | some (.listing _ _ _ interrupted) => some interrupted
  | _ => none

variable {exchange : Exchange} {message : Message} {seq : UInt32} {mark : Bool}

theorem mark?_eq_some_iff : exchange.mark? seq = some mark ↔ ∃ kind delivery objects,
    exchange.awaited.get? seq = some (.listing kind delivery objects mark) := by
  rw [mark?]
  rcases exchange.awaited.get? seq with _ | _ | ⟨kind, delivery, objects, interrupted⟩ <;> simp

theorem mark?_congr {after : Exchange} (h : after.awaited.get? seq = exchange.awaited.get? seq) :
    after.mark? seq = exchange.mark? seq := by
  rw [mark?, h, mark?]

theorem mark?_insert {other : UInt32} (awaited : Awaited) (h : other ≠ seq) :
    ({ exchange with awaited := exchange.awaited.insert other awaited } : Exchange).mark? seq =
      exchange.mark? seq :=
  mark?_congr ((Table.get?_insert _ _ _ _).trans (if_neg h))

theorem mark?_cancel {other : UInt32} (h : other ≠ seq) :
    (exchange.cancel other).mark? seq = exchange.mark? seq :=
  mark?_congr ((Table.get?_erase _ _ _).trans (if_neg h))

theorem pending?_of_mark? (h : exchange.mark? seq = some mark) :
    ∃ kind delivery objects,
      exchange.pending? seq = some (.listing kind delivery objects false) := by
  obtain ⟨kind, delivery, objects, hget⟩ := mark?_eq_some_iff.mp h
  exact ⟨kind, delivery, objects, by rw [pending?, hget]; rfl⟩

theorem mark?_noteInterruption (header : Header) :
    (exchange.noteInterruption header).mark? seq =
      (exchange.mark? seq).map (· || (header.isInterrupted && header.seq == seq)) := by
  rw [noteInterruption]
  cases hflag : header.isInterrupted with
  | false => simp
  | true =>
      by_cases hseq : header.seq = seq
      · subst hseq
        rcases hget : exchange.awaited.get? header.seq with
          _ | _ | ⟨kind, delivery, objects, interrupted⟩ <;>
          simp [mark?, hget, Table.get?_insert_self]
      · have hother : (header.seq == seq) = false := beq_eq_false_iff_ne.mpr hseq
        simp only [if_true, hother, Bool.and_false, Bool.or_false, Option.map_id']
        split
        · exact mark?_insert _ hseq
        · rfl

theorem mark?_takeObject (header : Header) (change : Change) (object : Object) :
    (exchange.takeObject header change object).1.mark? seq = exchange.mark? seq := by
  have htakes := takesObject exchange header change object
  generalize exchange.takeObject header change object = taken at htakes
  cases htakes with
  | held hpid hget =>
      by_cases hseq : header.seq = seq
      · rw [← hseq, mark?, mark?, Table.get?_insert_self, hget]
      · exact mark?_insert _ hseq
  | stray | handed | notice => rfl

/-- A message that does not end a listing marks it if its flag is heeded. -/
theorem mark?_take (h : ¬ message.Ends exchange.pid seq) {taken : Exchange × Option Incoming}
    (htake : exchange.take message = .ok taken) :
    taken.1.mark? seq = (exchange.mark? seq).map (· || message.disturbs exchange.pid seq) := by
  cases takes htake with
  | overrun hoverrun =>
      have hdone := Message.not_isDone_of_isOverrun hoverrun
      rw [Message.disturbs_eq_false (Message.told?_of_overrun hoverrun) (by simp [hdone])]
      simp
  | @ended noted failure hends hours hnoted =>
      have hpid := (isOurs_iff.mp hours).2.1
      have hother : message.header.seq ≠ seq := fun hseq => h ⟨hends, hpid, hseq⟩
      have hkept : noted.mark? seq = exchange.mark? seq := by
        rcases hnoted with rfl | rfl
        · rfl
        · rw [mark?_noteInterruption, beq_eq_false_iff_ne.mpr hother]
          simp
      rw [Message.disturbs, Message.isFlagged_eq_false hother, ← hkept, Bool.false_and]
      refine (mark?_cancel hother).trans ?_
      simp
  | told hdecode =>
      rw [mark?_takeObject, mark?_noteInterruption,
        Message.disturbs_of_told? (Message.told?_eq_some_iff.mpr hdecode), Message.isFlagged]
  | skipped _ htold =>
      rw [Message.disturbs_eq_false (Message.told?_eq_none htold)
        fun hdone hpid hseq => h ⟨Or.inr hdone, hpid, hseq⟩]
      simp

theorem take_marked_end (hmark : exchange.mark? seq = some mark) (hnumber : seq ≠ 0)
    (hends : message.Ends exchange.pid seq) {taken : Exchange × Option Incoming}
    (htake : exchange.take message = .ok taken) :
    taken.1.pending? seq = none ∧
      ∃ result, seen (replies seq) (exchange, message) = [result] ∧
        ∀ reply, result = .ok reply → ∃ kind objects,
          reply = .listing kind objects (mark || message.disturbs exchange.pid seq) := by
  obtain ⟨hend, hpid, hseq⟩ := hends
  obtain ⟨kind, delivery, objects, hpending⟩ := pending?_of_mark? hmark
  have hours : exchange.isOurs message.header = true := by
    rw [isOurs_iff, hseq, hpending]
    exact ⟨hnumber, hpid, by simp⟩
  have htold := Message.told?_eq_none (decode_of_ends hend)
  rw [seen_eq htake]
  obtain ⟨noted, failure, rfl, hnoted⟩ : ∃ noted failure, taken = conclude noted seq failure ∧
      noted.mark? seq = some (mark || message.disturbs exchange.pid seq) := by
    rcases hend with herror | hdone
    · have hnone : message.header.isDone ≠ true := by
        rw [Header.isError, beq_iff_eq] at herror
        rw [Header.isDone, herror]
        decide
      rw [take_of_error exchange (beq_iff_eq.mp herror), if_pos hours, hseq] at htake
      obtain ⟨failure, -, rfl⟩ := map_eq_ok_iff.mp htake
      refine ⟨exchange, failure, rfl, ?_⟩
      rw [Message.disturbs_eq_false htold fun hdone => absurd hdone hnone, Bool.or_false, hmark]
    · rw [take_of_done exchange (beq_iff_eq.mp hdone), if_pos hours, hseq] at htake
      obtain ⟨failure, -, rfl⟩ := map_eq_ok_iff.mp htake
      refine ⟨exchange.noteInterruption message.header, failure, rfl, ?_⟩
      simp [mark?_noteInterruption, hmark, Message.disturbs, Message.isFlagged, htold, hdone, hpid]
  obtain ⟨kind, delivery, objects, hget⟩ := mark?_eq_some_iff.mp hnoted
  rw [conclude.eq_def]
  refine ⟨(pending?_cancel seq).trans (if_pos rfl), ?_⟩
  simp only [Option.toList_some, List.flatMap_singleton, replies, if_true, hget]
  refine ⟨_, rfl, ?_⟩
  intro reply hreply
  cases failure with
  | none => exact ⟨kind, objects, (Except.ok.inj hreply).symm⟩
  | some fault => exact absurd hreply (by simp)

/-- How a listing stands after some messages, with the answers that came of it. -/
inductive Marked (pid seq : UInt32) (exchange : Exchange) :
    List Message → List (Except Fault Reply) → Prop where
  | underWay {messages : List Message} (hopen : ∀ message ∈ messages, ¬ message.Ends pid seq)
      (hmark : exchange.mark? seq = some (messages.any (·.disturbs pid seq))) :
      Marked pid seq exchange messages []
  | ended {before later : List Message} {last : Message} {result : Except Fault Reply}
      (hopen : ∀ message ∈ before, ¬ message.Ends pid seq) (hends : last.Ends pid seq)
      (hover : exchange.pending? seq = none)
      (hresult : ∀ reply, result = .ok reply → ∃ kind objects,
        reply = .listing kind objects ((before ++ [last]).any (·.disturbs pid seq))) :
      Marked pid seq exchange (before ++ last :: later) [result]
  | givenUp {messages : List Message} (hover : exchange.pending? seq = none) :
      Marked pid seq exchange messages []

namespace Marked

variable {pid : UInt32} {messages : List Message} {answers : List (Except Fault Reply)}

theorem same (h : Marked pid seq exchange messages answers) {after : Exchange}
    (hsame : after.awaited.get? seq = exchange.awaited.get? seq) :
    Marked pid seq after messages answers := by
  have hpending : after.pending? seq = exchange.pending? seq := by rw [pending?, hsame, pending?]
  cases h with
  | underWay hopen hmark => exact .underWay hopen ((mark?_congr hsame).trans hmark)
  | ended hopen hends hover hresult => exact .ended hopen hends (hpending.trans hover) hresult
  | givenUp hover => exact .givenUp (hpending.trans hover)

theorem giveUp (h : Marked pid seq exchange messages answers) {after : Exchange}
    (hover : after.pending? seq = none) : Marked pid seq after messages answers := by
  cases h with
  | underWay => exact .givenUp hover
  | ended hopen hends _ hresult => exact .ended hopen hends hover hresult
  | givenUp => exact .givenUp hover

theorem take (h : Marked pid seq exchange messages answers) (hpid : exchange.pid = pid)
    (hnumber : seq ≠ 0) {message : Message} {taken : Exchange × Option Incoming}
    (htake : exchange.take message = .ok taken) :
    Marked pid seq taken.1 (messages ++ [message])
      (answers ++ seen (replies seq) (exchange, message)) := by
  subst hpid
  cases h with
  | underWay hopen hmark =>
      by_cases hends : message.Ends exchange.pid seq
      · obtain ⟨hover, result, hreplies, hresult⟩ := take_marked_end hmark hnumber hends htake
        rw [hreplies]
        refine .ended hopen hends hover ?_
        simpa using hresult
      · have hnone : seen (replies seq) (exchange, message) = [] := by
          obtain ⟨kind, delivery, objects, hpending⟩ := pending?_of_mark? hmark
          by_cases hours : message.header.pid = exchange.pid ∧ message.header.seq = seq
          · exact (take_listed hpending hours.1 hours.2 hends htake).2.2
          · exact (take_passing (fun hpid hseq => absurd ⟨hpid, hseq⟩ hours) htake).2.2
        rw [hnone]
        refine .underWay ?_ ?_
        · intro other hother
          rcases List.mem_append.mp hother with hother | hother
          · exact hopen other hother
          · rw [List.mem_singleton.mp hother]
            exact hends
        · rw [mark?_take hends htake, hmark]
          simp
  | @ended before later last result hopen hends hover hresult =>
      have hpasses : exchange.Passes seq message.header := fun _ _ => hover
      obtain ⟨hafter, -, hreplies⟩ := take_passing hpasses htake
      rw [hreplies, List.append_nil, List.append_assoc, List.cons_append]
      exact .ended hopen hends (hafter.trans hover) hresult
  | givenUp hover =>
      have hpasses : exchange.Passes seq message.header := fun _ _ => hover
      obtain ⟨hafter, -, hreplies⟩ := take_passing hpasses htake
      rw [hreplies, List.append_nil]
      exact .givenUp (hafter.trans hover)

theorem takeAll (h : Marked pid seq exchange messages answers) (hpid : exchange.pid = pid)
    (hnumber : seq ≠ 0) {before : List Incoming} {rest : List Message}
    {taken : Exchange × List Incoming} (htaken : exchange.takeAll before rest = .ok taken) :
    Marked pid seq taken.1 (messages ++ rest)
      (answers ++ (exchange.takings rest).flatMap (seen (replies seq))) := by
  induction rest generalizing exchange before messages answers with
  | nil =>
      cases htaken
      simp only [Exchange.takings, List.flatMap_nil, List.append_nil]
      exact h
  | cons message rest ih =>
      obtain ⟨next, incoming, htake, hmore⟩ := takeAll_cons_eq_ok_iff.mp htaken
      have hrest := ih (h.take hpid hnumber htake) ((pid_take htake).trans hpid) hmore
      rw [takings_cons htake, List.flatMap_cons, ← List.append_assoc, List.append_cons]
      exact hrest

theorem perform (h : Marked pid seq exchange messages answers) (hpid : exchange.pid = pid)
    (hnumber : seq ≠ 0) {act : Act} {next : Exchange} {first : List Entry}
    (hperform : exchange.perform act = some (next, first)) (hfresh : seq ∉ Entry.numbers first) :
    Marked pid seq next (messages ++ act.messages)
      (answers ++ (exchange.takings act.messages).flatMap (seen (replies seq))) := by
  have hnothing {after : Exchange} (hafter : Marked pid seq after messages answers) :
      Marked pid seq after (messages ++ []) (answers ++ []) := by
    rw [List.append_nil, List.append_nil]
    exact hafter
  cases act with
  | ask awaited =>
      cases hperform
      have hother : seqAfter exchange.seq ≠ seq :=
        fun heq => hfresh (heq ▸ List.mem_singleton_self _)
      exact hnothing (h.same ((Table.get?_insert _ _ _ _).trans (if_neg hother)))
  | askInVain =>
      cases hperform
      exact hnothing (h.same rfl)
  | withdraw other =>
      cases hperform
      by_cases hother : other = seq
      · exact hnothing (h.giveUp ((pending?_cancel other).trans (if_pos hother)))
      · exact hnothing (h.same ((Table.get?_erase _ _ _).trans (if_neg hother)))
  | hear received =>
      cases received with
      | ok datagram =>
          obtain ⟨incoming, htaken, -⟩ := perform_datagram hperform
          exact h.takeAll hpid hnumber htaken
      | error fault =>
          rw [perform_error] at hperform
          cases hperform
          exact hnothing (h.same rfl)

theorem run (h : Marked pid seq exchange messages answers) (hpid : exchange.pid = pid)
    (hnumber : seq ≠ 0) {acts : List Act} (hfresh : seq ∉ Entry.numbers (exchange.run acts).2) :
    Marked pid seq (exchange.run acts).1 (messages ++ (exchange.heard acts).map Prod.snd)
      (answers ++ (exchange.heard acts).flatMap (seen (replies seq))) := by
  induction acts generalizing exchange messages answers with
  | nil =>
      rw [heard, List.map_nil, List.flatMap_nil, List.append_nil, List.append_nil]
      exact h
  | cons act rest ih =>
      rcases hperform : exchange.perform act with _ | ⟨next, first⟩
      · rw [run_crash hperform, heard_crash hperform, List.map_nil, List.flatMap_nil,
          List.append_nil, List.append_nil]
        exact h
      rw [run_cons hperform, Entry.numbers_append, List.mem_append, not_or] at hfresh
      have hrest := ih (h.perform hpid hnumber hperform hfresh.1)
        ((pid_perform hperform).trans hpid) hfresh.2
      rw [run_cons hperform, heard_cons hperform, List.map_append, map_takings_messages hperform,
        List.flatMap_append, ← List.append_assoc, ← List.append_assoc]
      exact hrest

end Marked

/-- The answer to a request for a listing says that it was disturbed just if, before it was ended or
as its end, a message came whose flag is heeded. If all flagged messages of its number are for the
socket and can be read, that is just if some message for it is flagged. -/
theorem interrupted_iff (exchange : Exchange) (kind : Kind) (delivery : Delivery) {acts : List Act}
    {reply : Reply} :
    let pid := exchange.pid
    let seq := seqAfter exchange.seq
    let asked := exchange.advance.expect (fresh kind delivery)
    seq ∉ Entry.numbers (asked.run acts).2 →
    .ok reply ∈ (Entry.incoming (asked.run acts).2).flatMap (replies seq) →
    ∃ before last later interrupted,
      acts.flatMap Act.messages = before ++ last :: later ∧
      (∀ message ∈ before, ¬ message.Ends pid seq) ∧ last.Ends pid seq ∧
      (∃ kind objects, reply = .listing kind objects interrupted) ∧
      (interrupted = true ↔ ∃ message ∈ before ++ [last], message.disturbs pid seq = true) ∧
      ((∀ message ∈ before ++ [last], message.isFlagged seq = true → message.header.pid = pid ∧
          (message.told?.isSome = true ∨ message.header.isDone = true)) →
        (interrupted = true ↔ ∃ message ∈ before ++ [last],
          message.isFlagged seq = true ∧ message.header.pid = pid)) := by
  intro pid seq asked hfresh hreply
  have hnumber : seq ≠ 0 := seqAfter_ne_zero exchange.seq
  have hstart : Marked pid seq asked [] [] := by
    refine .underWay (by simp) (mark?_eq_some_iff.mpr ⟨kind, delivery, [], ?_⟩)
    exact Table.get?_insert_self _ _ _
  have hmarked := hstart.run rfl hnumber hfresh
  rw [flatMap_run (additive_replies seq)] at hreply
  rw [List.nil_append, List.nil_append] at hmarked
  obtain ⟨unheard, hmessages⟩ := asked.exists_messages_eq acts
  rw [hmessages]
  generalize (asked.heard acts).map Prod.snd = messages at hmarked ⊢
  generalize (asked.heard acts).flatMap (seen (replies seq)) = answers at hmarked hreply
  cases hmarked with
  | underWay => exact absurd hreply List.not_mem_nil
  | givenUp => exact absurd hreply List.not_mem_nil
  | @ended before later last result hopen hends _ hresult =>
      obtain ⟨kind, objects, rfl⟩ := hresult reply (List.mem_singleton.mp hreply).symm
      refine ⟨before, last, later ++ unheard, _, List.append_assoc _ _ _, hopen, hends,
        ⟨kind, objects, rfl⟩, List.any_eq_true, ?_⟩
      intro hplain
      rw [List.any_eq_true]
      refine exists_congr fun message => and_congr_right fun hmessage => ?_
      rw [Message.disturbs, Bool.and_eq_true]
      refine and_congr_right fun hflagged => ?_
      obtain ⟨hours, htold⟩ := hplain message hmessage hflagged
      simpa [hours] using htold

/-- The octets of a flagged message about a default route with some flags. -/
def flaggedRoute (flags : UInt32) (seq pid : UInt32) : Bytes :=
  let head : RouteHead :=
    ⟨Ip.inet, 0, 0, 0, 254, Route.staticProtocol, Route.linkScope, Route.unicast, flags⟩
  ((Draft.new MessageType.newRoute (Flag.multi ||| Flag.interrupted)
    [.raw head.toBytes]).addressed seq pid).toBytes

/-- A flagged message about a route comes, and then the end of the listing of routes. -/
def flaggedListing (flags pid : UInt32) : List Act :=
  [.hear (.ok (flaggedRoute flags 1 pid ++
    Peer.endBytes ⟨16, MessageType.getRoute, Flag.dump, 1, 77⟩ false))]

/-- What the answer to the first request of a socket, one for a listing, says of a disturbance. -/
def saysInterrupted (kind : Kind) (acts : List Act) : Option Bool :=
  let asked := (new 77).advance.expect (fresh kind .whole)
  match (Entry.incoming (asked.run acts).2).flatMap (replies 1) with
  | [.ok (.listing _ _ interrupted)] => some interrupted
  | _ => none

theorem replies_of_saysInterrupted {kind : Kind} {acts : List Act} {interrupted : Bool}
    (h : saysInterrupted kind acts = some interrupted) : ∃ kind' objects,
      .ok (.listing kind' objects interrupted) ∈ (Entry.incoming
        (((new 77).advance.expect (fresh kind .whole)).run acts).2).flatMap (replies 1) := by
  rw [saysInterrupted] at h
  split at h
  · rename_i kind' objects found hreplies
    obtain rfl := Option.some.inj h
    exact ⟨kind', objects, hreplies ▸ List.mem_singleton_self _⟩
  · exact absurd h (by simp)

theorem interrupted_iff_flaggedRoute :
    saysInterrupted .route4 (flaggedListing 0 77) = some true ∧
      ∃ message ∈ (flaggedListing 0 77).flatMap Act.messages,
        message.isFlagged 1 = true ∧ message.header.pid = 77 := by
  have hsaid : saysInterrupted .route4 (flaggedListing 0 77) = some true := by
    decide +kernel
  have hplain : ∀ message ∈ (flaggedListing 0 77).flatMap Act.messages,
      message.isFlagged 1 = true → message.header.pid = 77 ∧
        (message.told?.isSome = true ∨ message.header.isDone = true) := by decide +kernel
  obtain ⟨kind, objects, hreply⟩ := replies_of_saysInterrupted hsaid
  obtain ⟨before, last, later, interrupted, hmessages, -, -, ⟨_, _, hlisting⟩, -, hiff⟩ :=
    interrupted_iff (new 77) .route4 .whole (by decide +kernel) hreply
  obtain ⟨-, -, rfl⟩ := Reply.listing.inj hlisting
  have hcame : ∀ message ∈ before ++ [last],
      message ∈ (flaggedListing 0 77).flatMap Act.messages := by
    intro message hmessage
    rw [hmessages, List.append_cons]
    exact List.mem_append_left later hmessage
  obtain ⟨message, hmessage, hflagged⟩ :=
    (hiff fun message hmessage => hplain message (hcame message hmessage)).mp rfl
  exact ⟨hsaid, message, hcame message hmessage, hflagged⟩

/-- A listing is said to be disturbed for the flag of a message for another socket, and another one
is not though a message of its own before its end is flagged, as that tells of nothing that is kept
track of. -/
theorem exists_interrupted_unlike :
    (∃ acts, saysInterrupted .route4 acts = some true ∧
      ∀ message ∈ acts.flatMap Act.messages,
        message.isFlagged 1 = true → message.header.pid ≠ 77) ∧
    ∃ acts message last, saysInterrupted .route4 acts = some false ∧
      acts.flatMap Act.messages = [message, last] ∧ ¬ message.Ends 77 1 ∧
      message.isFlagged 1 = true ∧ message.header.pid = 77 := by
  refine ⟨⟨flaggedListing 0 78, by decide +kernel, by decide +kernel⟩, ?_⟩
  have hcount : ((flaggedListing Route.clonedFlag 77).flatMap Act.messages).length = 2 := by
    decide +kernel
  obtain ⟨message, last, hmessages⟩ := List.length_eq_two.mp hcount
  have hfirst : ((flaggedListing Route.clonedFlag 77).flatMap Act.messages).head?.any
      (fun message => message.header.kind == MessageType.newRoute && message.isFlagged 1 &&
        message.header.pid == 77) = true := by decide +kernel
  rw [hmessages, List.head?_cons, Option.any_some, Bool.and_eq_true, Bool.and_eq_true, beq_iff_eq,
    beq_iff_eq] at hfirst
  obtain ⟨⟨hkind, hflagged⟩, hpid⟩ := hfirst
  refine ⟨_, message, last, by decide +kernel, hmessages, ?_, hflagged, hpid⟩
  rintro ⟨hends, -, -⟩
  rw [Header.isError, Header.isDone, hkind] at hends
  exact absurd hends (by decide)

end Exchange

end NetState
