import NetState.Proofs.Exchange.Run

namespace NetState

def Message.told? (message : Message) : Option (Change × Object) :=
  (Object.decode message.header.kind message.payload).toOption.join

/-- The object that a message adds to the listing of a kind that was asked for under a number. -/
def Message.listed? (message : Message) (pid seq : UInt32) (kind : Kind) : Option Object :=
  match message.told? with
  | some (_, object) =>
    if message.header.pid = pid ∧ message.header.seq = seq ∧ object.kind = kind then some object
    else none
  | none => none

def Reply.objects : Reply → List Object
  | .ack => []
  | .listing _ objects _ => objects

/-- What comes of a listing with its answer. -/
def Delivery.held (delivery : Delivery) (objects : List Object) : List Object :=
  match delivery with
  | .whole => objects
  | .inParts => []

/-- What comes of a listing before its answer. -/
def Delivery.handed (delivery : Delivery) (objects : List Object) : List Object :=
  match delivery with
  | .whole => []
  | .inParts => objects

namespace Delivery

variable (delivery : Delivery) (objects more : List Object)

@[simp]
theorem held_nil : delivery.held [] = [] := by
  cases delivery <;> rfl

@[simp]
theorem handed_nil : delivery.handed [] = [] := by
  cases delivery <;> rfl

theorem held_append :
    delivery.held (objects ++ more) = delivery.held objects ++ delivery.held more := by
  cases delivery <;> rfl

theorem handed_append :
    delivery.handed (objects ++ more) = delivery.handed objects ++ delivery.handed more := by
  cases delivery <;> rfl

end Delivery

namespace Incoming

def parts (seq : UInt32) : Incoming → List Object
  | .part other objects => if other = seq then objects else []
  | _ => []

def replies (seq : UInt32) : Incoming → List (Except Fault Reply)
  | .reply other result => if other = seq then [result] else []
  | _ => []

def notices : Incoming → List (Kind × Change × Object)
  | .notice kind change object => [(kind, change, object)]
  | _ => []

theorem additive_parts (seq : UInt32) : Additive (parts seq) where
  part other objects more := by
    simp only [parts]
    split <;> rfl
  overrun := rfl

theorem additive_replies (seq : UInt32) : Additive (replies seq) :=
  ⟨fun _ _ _ => rfl, rfl⟩

theorem additive_notices : Additive notices :=
  ⟨fun _ _ _ => rfl, rfl⟩

end Incoming

namespace Message

variable {message : Message} {pid seq : UInt32}

theorem told?_eq_some_iff {found : Change × Object} : message.told? = some found ↔
    Object.decode message.header.kind message.payload = .ok (some found) := by
  rw [told?]
  rcases Object.decode message.header.kind message.payload with fault | told
  · simp [Except.toOption]
  · simp [Except.toOption]

theorem told?_eq_none (h : ∀ found,
    Object.decode message.header.kind message.payload ≠ .ok (some found)) :
    message.told? = none :=
  Option.eq_none_iff_forall_ne_some.mpr fun found htold => h found (told?_eq_some_iff.mp htold)

theorem told?_of_overrun (h : message.header.isOverrun = true) : message.told? = none := by
  refine told?_eq_none fun found hdecode => ?_
  exact (Exchange.kind_of_changeOf? (Object.decode_eq_ok_some_iff.mp hdecode).1).1
    (beq_iff_eq.mp h)

theorem listed?_of_told?_none (kind : Kind) (h : message.told? = none) :
    message.listed? pid seq kind = none := by
  rw [listed?, h]

theorem listed?_of_foreign (kind : Kind)
    (h : ¬ (message.header.pid = pid ∧ message.header.seq = seq)) :
    message.listed? pid seq kind = none := by
  rw [listed?]
  split
  · refine if_neg ?_
    rintro ⟨hpid, hseq, -⟩
    exact h ⟨hpid, hseq⟩
  · rfl

theorem not_isOverrun_of_ends (h : message.header.isError = true ∨ message.header.isDone = true) :
    message.header.isOverrun ≠ true := by
  simp only [Header.isError, Header.isDone, Header.isOverrun, beq_iff_eq] at h ⊢
  rcases h with h | h <;> rw [h] <;> decide

end Message

namespace Exchange

open Incoming

variable {exchange : Exchange} {message : Message} {seq : UInt32} {kind : Kind}
  {delivery : Delivery} {objects : List Object}

theorem seen_eq_nil {α : Type} {view : Incoming → List α} {taken : Exchange × Option Incoming}
    (htake : exchange.take message = .ok taken) (h : ∀ incoming ∈ taken.2, view incoming = []) :
    seen view (exchange, message) = [] := by
  rw [seen_eq htake, List.flatMap_eq_nil_iff]
  intro incoming hincoming
  exact h incoming (Option.mem_toList.mp hincoming)

theorem take_passing (h : exchange.Passes seq message.header) {taken : Exchange × Option Incoming}
    (htake : exchange.take message = .ok taken) :
    taken.1.pending? seq = exchange.pending? seq ∧
      seen (parts seq) (exchange, message) = [] ∧ seen (replies seq) (exchange, message) = [] := by
  obtain ⟨halone, hanswers⟩ := leavesAlone_take h htake
  refine ⟨halone.pending, seen_eq_nil htake ?_, seen_eq_nil htake ?_⟩
  · intro incoming hincoming
    cases takes htake with
    | overrun =>
        obtain rfl := Option.some.inj hincoming
        rfl
    | ended =>
        obtain rfl := Option.some.inj hincoming
        rfl
    | @told change object _ =>
        have htakes := takesObject (exchange.noteInterruption message.header) message.header change
          object
        generalize takeObject _ message.header change object = taken at htakes hincoming
        cases htakes with
        | stray => exact absurd hincoming (by simp)
        | held => exact absurd hincoming (by simp)
        | handed hpid hget =>
            obtain rfl := Option.some.inj hincoming
            refine if_neg fun hseq => ?_
            have hnone := h (hpid.trans (pid_noteInterruption _)) hseq
            rw [← pending?_noteInterruption message.header, pending?_eq_none, ← hseq, hget] at hnone
            exact absurd hnone (by simp)
        | notice =>
            obtain rfl := Option.some.inj hincoming
            rfl
    | skipped => exact absurd hincoming (by simp)
  · intro incoming hincoming
    have hother := hanswers incoming hincoming
    cases incoming with
    | reply other result => exact if_neg fun hseq => hother ⟨result, by rw [hseq]⟩
    | _ => rfl

theorem take_listed (h : exchange.pending? seq = some (.listing kind delivery objects false))
    (hpid : message.header.pid = exchange.pid) (hseq : message.header.seq = seq)
    (hends : ¬ message.Ends exchange.pid seq) {taken : Exchange × Option Incoming}
    (htake : exchange.take message = .ok taken) :
    taken.1.pending? seq = some (.listing kind delivery
        (objects ++ delivery.held (message.listed? exchange.pid seq kind).toList) false) ∧
      seen (parts seq) (exchange, message) =
        delivery.handed (message.listed? exchange.pid seq kind).toList ∧
      seen (replies seq) (exchange, message) = [] := by
  rw [seen_eq htake, seen_eq htake]
  cases takes htake with
  | overrun hoverrun =>
      rw [Message.listed?_of_told?_none kind (Message.told?_of_overrun hoverrun)]
      simp [h, parts, replies]
  | ended failure hend hours hnoted => exact absurd ⟨hend, hpid, hseq⟩ hends
  | @told change object hdecode =>
      have hnoted := (pending?_noteInterruption message.header).trans h
      obtain ⟨interrupted, hget⟩ := exists_get?_of_pending? hnoted
      have hlisted : message.listed? exchange.pid seq kind =
          if object.kind = kind then some object else none := by
        rw [Message.listed?, Message.told?_eq_some_iff.mpr hdecode]
        simp only [hpid, hseq, true_and]
      rw [takeObject, pid_noteInterruption, if_pos hpid, hseq, hget, hlisted]
      by_cases hkind : object.kind = kind
      · cases delivery with
        | whole =>
            simp [hkind, Delivery.held, Delivery.handed, pending?, Table.get?_insert_self,
              Awaited.calmed]
        | inParts => simp [hkind, parts, replies, Delivery.held, Delivery.handed, hnoted]
      · simp [hkind, hnoted]
  | skipped hstray htold =>
      rw [Message.listed?_of_told?_none kind (Message.told?_eq_none htold)]
      simp [h]

theorem take_ending (h : exchange.pending? seq = some (.listing kind delivery objects false))
    (hnumber : seq ≠ 0) (hends : message.Ends exchange.pid seq)
    {taken : Exchange × Option Incoming} (htake : exchange.take message = .ok taken) :
    taken.1.pending? seq = none ∧
      seen (parts seq) (exchange, message) = [] ∧
      ∃ result, seen (replies seq) (exchange, message) = [result] ∧
        ∀ reply, result = .ok reply → ∃ interrupted,
          reply = .listing kind objects interrupted := by
  obtain ⟨hend, hpid, hseq⟩ := hends
  have hours : exchange.isOurs message.header = true := by
    rw [isOurs_iff, hseq, h]
    exact ⟨hnumber, hpid, by simp⟩
  rw [seen_eq htake, seen_eq htake]
  cases takes htake with
  | overrun hoverrun => exact absurd hoverrun (Message.not_isOverrun_of_ends hend)
  | @ended noted failure _ _ hsame =>
      have hnoted : noted.pending? seq = some (.listing kind delivery objects false) := by
        rcases hsame with rfl | rfl
        · exact h
        · exact (pending?_noteInterruption _).trans h
      obtain ⟨interrupted, hget⟩ := exists_get?_of_pending? hnoted
      rw [hseq, conclude.eq_def]
      refine ⟨(pending?_cancel seq).trans (if_pos rfl), rfl, ?_⟩
      simp only [Option.toList_some, List.flatMap_singleton, replies, if_true, hget]
      refine ⟨_, rfl, ?_⟩
      intro reply hreply
      cases failure with
      | none => exact ⟨interrupted, (Except.ok.inj hreply).symm⟩
      | some fault => exact absurd hreply (by simp)
  | told hdecode => exact absurd hdecode (decode_of_ends hend _)
  | skipped hstray _ => exact absurd ((hstray hend).symm.trans hours) (by simp)

def listedIn (pid seq : UInt32) (kind : Kind) (messages : List Message) : List Object :=
  messages.filterMap (·.listed? pid seq kind)

theorem listedIn_snoc (pid seq : UInt32) (kind : Kind) (messages : List Message)
    (message : Message) :
    listedIn pid seq kind (messages ++ [message]) =
      listedIn pid seq kind messages ++ (message.listed? pid seq kind).toList :=
  List.filterMap_append

/-- How far a listing has come after some messages, with the parts and the answers that came of
it. -/
inductive Progress (pid seq : UInt32) (kind : Kind) (delivery : Delivery) (exchange : Exchange) :
    List Message → List Object → List (Except Fault Reply) → Prop where
  | gathering {messages : List Message} (hopen : ∀ message ∈ messages, ¬ message.Ends pid seq)
      (hpending : exchange.pending? seq =
        some (.listing kind delivery (delivery.held (listedIn pid seq kind messages)) false)) :
      Progress pid seq kind delivery exchange messages
        (delivery.handed (listedIn pid seq kind messages)) []
  | ended {before later : List Message} {last : Message} {result : Except Fault Reply}
      (hopen : ∀ message ∈ before, ¬ message.Ends pid seq) (hends : last.Ends pid seq)
      (hpending : exchange.pending? seq = none)
      (hresult : ∀ reply, result = .ok reply → ∃ interrupted,
        reply = .listing kind (delivery.held (listedIn pid seq kind before)) interrupted) :
      Progress pid seq kind delivery exchange (before ++ last :: later)
        (delivery.handed (listedIn pid seq kind before)) [result]
  | givenUp {messages : List Message} {handed : List Object}
      (hpending : exchange.pending? seq = none) :
      Progress pid seq kind delivery exchange messages handed []

namespace Progress

variable {pid : UInt32} {messages : List Message} {handed : List Object}
  {answers : List (Except Fault Reply)}

theorem start (exchange : Exchange) (kind : Kind) (delivery : Delivery) :
    Progress exchange.pid (seqAfter exchange.seq) kind delivery
      (exchange.advance.expect (fresh kind delivery)) [] [] [] := by
  have hget : (exchange.advance.expect (fresh kind delivery)).awaited.get? (seqAfter exchange.seq) =
      some (fresh kind delivery) := Table.get?_insert_self _ _ _
  have hgathering : Progress exchange.pid (seqAfter exchange.seq) kind delivery
      (exchange.advance.expect (fresh kind delivery)) [] (delivery.handed []) [] := by
    refine .gathering (by simp) ?_
    rw [pending?, hget, listedIn, List.filterMap_nil, Delivery.held_nil]
    rfl
  rw [Delivery.handed_nil] at hgathering
  exact hgathering

theorem same (h : Progress pid seq kind delivery exchange messages handed answers)
    {after : Exchange} (hsame : after.pending? seq = exchange.pending? seq) :
    Progress pid seq kind delivery after messages handed answers := by
  cases h with
  | gathering hopen hpending => exact .gathering hopen (hsame.trans hpending)
  | ended hopen hends hpending hresult => exact .ended hopen hends (hsame.trans hpending) hresult
  | givenUp hpending => exact .givenUp (hsame.trans hpending)

theorem giveUp (h : Progress pid seq kind delivery exchange messages handed answers)
    {after : Exchange} (hgone : after.pending? seq = none) :
    Progress pid seq kind delivery after messages handed answers := by
  cases h with
  | gathering => exact .givenUp hgone
  | ended hopen hends _ hresult => exact .ended hopen hends hgone hresult
  | givenUp => exact .givenUp hgone

theorem take (h : Progress pid seq kind delivery exchange messages handed answers)
    (hpid : exchange.pid = pid) (hnumber : seq ≠ 0) {message : Message}
    {taken : Exchange × Option Incoming} (htake : exchange.take message = .ok taken) :
    Progress pid seq kind delivery taken.1 (messages ++ [message])
      (handed ++ seen (parts seq) (exchange, message))
      (answers ++ seen (replies seq) (exchange, message)) := by
  subst hpid
  cases h with
  | gathering hopen hpending =>
      by_cases hends : message.Ends exchange.pid seq
      · obtain ⟨hover, hparts, result, hreplies, hresult⟩ := take_ending hpending hnumber hends
          htake
        rw [hparts, hreplies, List.append_nil, List.nil_append]
        exact .ended hopen hends hover hresult
      · have hnext : ∀ other ∈ messages ++ [message], ¬ other.Ends exchange.pid seq := by
          intro other hother
          rcases List.mem_append.mp hother with hother | hother
          · exact hopen other hother
          · rw [List.mem_singleton.mp hother]
            exact hends
        by_cases hours : message.header.pid = exchange.pid ∧ message.header.seq = seq
        · obtain ⟨hafter, hparts, hreplies⟩ := take_listed hpending hours.1 hours.2 hends htake
          rw [hparts, hreplies, ← Delivery.handed_append, ← listedIn_snoc]
          refine .gathering hnext ?_
          rw [hafter, listedIn_snoc, Delivery.held_append]
        · have hpasses : exchange.Passes seq message.header :=
            fun hpid hseq => absurd ⟨hpid, hseq⟩ hours
          obtain ⟨hafter, hparts, hreplies⟩ := take_passing hpasses htake
          have hlisted : listedIn exchange.pid seq kind (messages ++ [message]) =
              listedIn exchange.pid seq kind messages := by
            rw [listedIn_snoc, Message.listed?_of_foreign kind hours]
            exact List.append_nil _
          rw [hparts, hreplies, List.append_nil, ← hlisted]
          refine .gathering hnext ?_
          rw [hafter, hlisted, hpending]
  | @ended before later last result hopen hends hpending hresult =>
      have hpasses : exchange.Passes seq message.header := fun _ _ => hpending
      obtain ⟨hafter, hparts, hreplies⟩ := take_passing hpasses htake
      rw [hparts, hreplies, List.append_nil, List.append_nil, List.append_assoc, List.cons_append]
      exact .ended hopen hends (hafter.trans hpending) hresult
  | givenUp hpending =>
      have hpasses : exchange.Passes seq message.header := fun _ _ => hpending
      obtain ⟨hafter, hparts, hreplies⟩ := take_passing hpasses htake
      rw [hreplies, List.append_nil]
      exact .givenUp (hafter.trans hpending)

theorem takings (h : Progress pid seq kind delivery exchange messages handed answers)
    (hpid : exchange.pid = pid) (hnumber : seq ≠ 0) {before : List Incoming} {rest : List Message}
    {taken : Exchange × List Incoming} (htaken : exchange.takeAll before rest = .ok taken) :
    Progress pid seq kind delivery taken.1 (messages ++ rest)
      (handed ++ (exchange.takings rest).flatMap (seen (parts seq)))
      (answers ++ (exchange.takings rest).flatMap (seen (replies seq))) := by
  induction rest generalizing exchange before messages handed answers with
  | nil =>
      cases htaken
      simp only [Exchange.takings, List.flatMap_nil, List.append_nil]
      exact h
  | cons message rest ih =>
      obtain ⟨next, incoming, htake, hrest⟩ := takeAll_cons_eq_ok_iff.mp htaken
      have hnext := ih (h.take hpid hnumber htake) ((pid_take htake).trans hpid) hrest
      rw [takings_cons htake, List.flatMap_cons, List.flatMap_cons, ← List.append_assoc,
        ← List.append_assoc, List.append_cons]
      exact hnext

theorem perform (h : Progress pid seq kind delivery exchange messages handed answers)
    (hpid : exchange.pid = pid) (hnumber : seq ≠ 0) {act : Act} {next : Exchange}
    {first : List Entry} (hperform : exchange.perform act = some (next, first))
    (hfresh : seq ∉ Entry.numbers first) :
    Progress pid seq kind delivery next (messages ++ act.messages)
      (handed ++ (exchange.takings act.messages).flatMap (seen (parts seq)))
      (answers ++ (exchange.takings act.messages).flatMap (seen (replies seq))) := by
  have hnothing {after : Exchange}
      (hafter : Progress pid seq kind delivery after messages handed answers) :
      Progress pid seq kind delivery after (messages ++ []) (handed ++ []) (answers ++ []) := by
    rw [List.append_nil, List.append_nil, List.append_nil]
    exact hafter
  cases act with
  | ask awaited =>
      cases hperform
      have hother : seqAfter exchange.seq ≠ seq :=
        fun heq => hfresh (heq ▸ List.mem_singleton_self _)
      exact hnothing (h.same (pending?_insert awaited hother))
  | askInVain =>
      cases hperform
      exact hnothing (h.same rfl)
  | withdraw other =>
      cases hperform
      have hcancel := @pending?_cancel exchange seq other
      by_cases hother : other = seq
      · rw [if_pos hother] at hcancel
        exact hnothing (h.giveUp hcancel)
      · rw [if_neg hother] at hcancel
        exact hnothing (h.same hcancel)
  | hear received =>
      cases received with
      | ok datagram =>
          obtain ⟨incoming, htaken, -⟩ := perform_datagram hperform
          exact h.takings hpid hnumber htaken
      | error fault =>
          rw [perform_error] at hperform
          cases hperform
          exact hnothing (h.same rfl)

/-- A listing goes on through whatever else is done, unless it is given up. -/
theorem run (h : Progress pid seq kind delivery exchange messages handed answers)
    (hpid : exchange.pid = pid) (hnumber : seq ≠ 0) {acts : List Act}
    (hfresh : seq ∉ Entry.numbers (exchange.run acts).2) :
    Progress pid seq kind delivery (exchange.run acts).1
      (messages ++ (exchange.heard acts).map Prod.snd)
      (handed ++ (exchange.heard acts).flatMap (seen (parts seq)))
      (answers ++ (exchange.heard acts).flatMap (seen (replies seq))) := by
  -- The listing has come somewhere by the acts before, and goes on from there.
  induction acts generalizing exchange messages handed answers with
  | nil =>
      rw [heard, List.map_nil, List.flatMap_nil, List.flatMap_nil, List.append_nil,
        List.append_nil, List.append_nil]
      exact h
  | cons act rest ih =>
      rcases hperform : exchange.perform act with _ | ⟨next, first⟩
      · rw [run_crash hperform, heard_crash hperform, List.map_nil, List.flatMap_nil,
          List.flatMap_nil, List.append_nil, List.append_nil, List.append_nil]
        exact h
      rw [run_cons hperform, Entry.numbers_append, List.mem_append, not_or] at hfresh
      have hnext := h.perform hpid hnumber hperform hfresh.1
      have hrest := ih hnext ((pid_perform hperform).trans hpid) hfresh.2
      rw [run_cons hperform, heard_cons hperform, List.map_append, map_takings_messages hperform,
        List.flatMap_append, List.flatMap_append, ← List.append_assoc, ← List.append_assoc,
        ← List.append_assoc]
      exact hrest

end Progress

def isListed (exchange : Exchange) (header : Header) : Bool :=
  header.pid == exchange.pid &&
    match exchange.awaited.get? header.seq with
    | some (.listing ..) => true
    | _ => false

/-- The notice that a message is. -/
def noticeOf? (exchange : Exchange) (message : Message) : Option (Kind × Change × Object) :=
  if exchange.isListed message.header then none
  else message.told?.map fun (change, object) => (object.kind, change, object)

theorem isListed_iff {header : Header} : exchange.isListed header = true ↔
    header.pid = exchange.pid ∧ ∃ kind delivery objects interrupted,
      exchange.awaited.get? header.seq = some (.listing kind delivery objects interrupted) := by
  rw [isListed, Bool.and_eq_true, beq_iff_eq]
  refine and_congr_right fun _ => ?_
  rcases exchange.awaited.get? header.seq with _ | _ | ⟨kind, delivery, objects, interrupted⟩ <;>
    simp

theorem not_isListed_of_unlisted {header : Header}
    (h : exchange.Unlisted header.seq header.pid) : ¬exchange.isListed header = true := by
  intro hlisted
  obtain ⟨hpid, kind, delivery, objects, interrupted, hget⟩ := isListed_iff.mp hlisted
  exact h hpid kind delivery objects interrupted hget

theorem isListed_noteInterruption (exchange : Exchange) (header : Header) :
    (exchange.noteInterruption header).isListed header = exchange.isListed header := by
  rcases exchange.noteInterruption_cases header with hsame | ⟨_, _, _, _, hget, hnoted⟩
  · rw [hsame]
  · rw [hnoted, isListed, isListed, Table.get?_insert_self, hget]

theorem noticeOf?_eq_none (h : message.told? = none) : exchange.noticeOf? message = none := by
  rw [noticeOf?, h]
  split <;> rfl

theorem seen_notices {taken : Exchange × Option Incoming}
    (htake : exchange.take message = .ok taken) :
    seen notices (exchange, message) = (exchange.noticeOf? message).toList := by
  rw [seen_eq htake]
  cases takes htake with
  | overrun hoverrun =>
      rw [noticeOf?_eq_none (Message.told?_of_overrun hoverrun)]
      rfl
  | ended failure hends =>
      rw [noticeOf?_eq_none (Message.told?_eq_none (decode_of_ends hends))]
      rfl
  | @told change object hdecode =>
      rw [noticeOf?, ← isListed_noteInterruption, Message.told?_eq_some_iff.mpr hdecode]
      generalize exchange.noteInterruption message.header = noted
      have hlisted {kind : Kind} {delivery : Delivery} {objects : List Object} {interrupted : Bool}
          (hpid : message.header.pid = noted.pid)
          (hget : noted.awaited.get? message.header.seq =
            some (.listing kind delivery objects interrupted)) :
          noted.isListed message.header = true :=
        isListed_iff.mpr ⟨hpid, kind, delivery, objects, interrupted, hget⟩
      have htakes := takesObject noted message.header change object
      generalize noted.takeObject message.header change object = taken at htakes
      cases htakes with
      | stray hpid hget hkind =>
          rw [if_pos (hlisted hpid hget)]
          rfl
      | held hpid hget =>
          rw [if_pos (hlisted hpid hget)]
          rfl
      | handed hpid hget =>
          rw [if_pos (hlisted hpid hget)]
          rfl
      | notice hunlisted =>
          rw [if_neg (not_isListed_of_unlisted hunlisted)]
          rfl
  | skipped _ htold =>
      rw [noticeOf?_eq_none (Message.told?_eq_none htold)]
      rfl

/-- Listings are put together whole, once and apart from each other, as long as numbers do not run
out: what comes of one that is answered without a fault is what its messages told before one of them
ended it, in their order. And every message that tells of an object and belongs to no listing when
it comes is a notice, in the order of messages. -/
theorem assembles (exchange : Exchange) (kind : Kind) (delivery : Delivery) {acts : List Act}
    (hroom : acts.countP Act.takesNumber < 2 ^ 32 - 1) :
    let seq := seqAfter exchange.seq
    let asked := exchange.advance.expect (fresh kind delivery)
    let came := Entry.incoming (asked.run acts).2
    (∀ reply, .ok reply ∈ came.flatMap (replies seq) →
      ∃ before last later interrupted, acts.flatMap Act.messages = before ++ last :: later ∧
        (∀ message ∈ before, ¬ message.Ends exchange.pid seq) ∧ last.Ends exchange.pid seq ∧
        came.flatMap (replies seq) =
          [.ok (.listing kind (delivery.held (listedIn exchange.pid seq kind before))
            interrupted)] ∧
        came.flatMap (parts seq) = delivery.handed (listedIn exchange.pid seq kind before)) ∧
      came.flatMap notices =
        (asked.heard acts).filterMap fun (exchange, message) => exchange.noticeOf? message := by
  intro seq asked came
  refine ⟨?_, ?_⟩
  · intro reply hreply
    have hnumber : seq ≠ 0 := seqAfter_ne_zero exchange.seq
    have hprogress := (Progress.start exchange kind delivery).run rfl hnumber
      (not_mem_numbers_run hnumber hroom)
    rw [flatMap_run (additive_replies seq)] at hreply ⊢
    rw [flatMap_run (additive_parts seq)]
    rw [List.nil_append, List.nil_append, List.nil_append] at hprogress
    obtain ⟨unheard, hmessages⟩ := asked.exists_messages_eq acts
    rw [hmessages]
    generalize (asked.heard acts).map Prod.snd = messages at hprogress ⊢
    generalize (asked.heard acts).flatMap (seen (parts seq)) = handed at hprogress ⊢
    generalize (asked.heard acts).flatMap (seen (replies seq)) = answers at hprogress hreply ⊢
    cases hprogress with
    | gathering => exact absurd hreply List.not_mem_nil
    | ended hopen hends _ hresult =>
        obtain rfl := List.mem_singleton.mp hreply
        obtain ⟨interrupted, rfl⟩ := hresult reply rfl
        exact ⟨_, _, _, interrupted, List.append_assoc _ _ _, hopen, hends, rfl, rfl⟩
    | givenUp => exact absurd hreply List.not_mem_nil
  · rw [flatMap_run additive_notices, List.filterMap_eq_flatMap_toList]
    refine List.flatMap_congr fun taking htaking => ?_
    obtain ⟨taken, htake⟩ := exists_take_of_mem_heard htaking
    exact seen_notices htake

/-- A listing of addresses is asked for while one of links is under way. The messages of both come
mixed with each other and with a notice, and links come in two datagrams. -/
def interleaved : List Act :=
  let request (seq pid : UInt32) : Header := ⟨16, MessageType.getLink, Flag.dump, seq, pid⟩
  let link (seq pid : UInt32) : Bytes := Peer.entryBytes (request seq pid) (.link Peer.loopback)
  let address (seq : UInt32) : Bytes :=
    Peer.entryBytes (request seq 77) (.address Peer.loopbackAddress)
  [.ask (fresh .address4 .inParts), .hear (.ok (address 2 ++ link 1 77 ++ address 2)),
    .hear (.ok (link 0 0 ++ link 1 77 ++ Peer.endBytes (request 1 77) false ++ address 2))]

theorem assembles_interleaved :
    let came := Entry.incoming (((new 77).advance.expect (fresh .link .whole)).run interleaved).2
    interleaved.countP Act.takesNumber < 2 ^ 32 - 1 ∧ (came.flatMap (parts 2)).length = 3 ∧
      (came.flatMap notices).length = 1 ∧ ∃ before last later interrupted,
        interleaved.flatMap Act.messages = before ++ last :: later ∧
        (listedIn 77 1 .link before).length = 2 ∧
        came.flatMap (replies 1) =
          [.ok (.listing .link (listedIn 77 1 .link before) interrupted)] := by
  intro came
  have hroom : interleaved.countP Act.takesNumber < 2 ^ 32 - 1 := by decide
  have hanswered : (came.flatMap (replies 1)).any Except.isOk = true := by decide +kernel
  obtain ⟨result, hresult, hok⟩ := List.any_eq_true.mp hanswered
  have hcounted : (came.flatMap (replies 1)).map
      (·.toOption.elim 0 fun reply => reply.objects.length) = [2] := by decide +kernel
  refine ⟨hroom, by decide +kernel, by decide +kernel, ?_⟩
  cases result with
  | error fault => exact absurd hok (by simp [Except.isOk, Except.toBool])
  | ok reply =>
      obtain ⟨before, last, later, interrupted, hmessages, -, -, hreplies, -⟩ :=
        (assembles (new 77) .link .whole hroom).1 reply hresult
      refine ⟨before, last, later, interrupted, hmessages, ?_, hreplies⟩
      rw [show came.flatMap (replies 1) = _ from hreplies] at hcounted
      exact (List.cons.inj hcounted).1

end Exchange

end NetState
