import Mathlib.Algebra.Group.Nat.Defs
import NetState.Exchange
import NetState.Proofs.Mirror

namespace NetState.Exchange

theorem toNat_seqAfter_mod (seq : UInt32) :
    (seqAfter seq).toNat = seq.toNat % (2 ^ 32 - 1) + 1 := by
  have hlast := seq.toNat_lt
  have hadd : (seq + 1).toNat = (seq.toNat + 1) % 2 ^ 32 := UInt32.toNat_add seq 1
  show (if seq + 1 ≤ 1 then (1 : UInt32) else seq + 1).toNat = _
  split
  · rename_i hsmall
    have hone : (seq + 1).toNat ≤ 1 := UInt32.le_iff_toNat_le.mp hsmall
    rw [hadd] at hone
    show 1 = _
    omega
  · rename_i hlarge
    have hone : ¬ (seq + 1).toNat ≤ 1 := fun hle => hlarge (UInt32.le_iff_toNat_le.mpr hle)
    rw [hadd] at hone ⊢
    omega

theorem toNat_seqAfter {seq : UInt32} (h : seq.toNat + 1 < 2 ^ 32) :
    (seqAfter seq).toNat = seq.toNat + 1 := by
  rw [toNat_seqAfter_mod, Nat.mod_eq_of_lt (by omega)]

theorem seqAfter_ne_zero (seq : UInt32) : seqAfter seq ≠ 0 := by
  intro hzero
  have hnumber := toNat_seqAfter_mod seq
  rw [hzero] at hnumber
  exact absurd hnumber (Nat.succ_ne_zero _).symm

/-- Whether the messages of a number and a socket belong to no listing that is under way. -/
def Unlisted (exchange : Exchange) (seq pid : UInt32) : Prop :=
  pid = exchange.pid → ∀ kind delivery objects interrupted,
    exchange.awaited.get? seq ≠ some (.listing kind delivery objects interrupted)

theorem Unlisted.cancel {exchange : Exchange} {seq pid : UInt32} (h : exchange.Unlisted seq pid)
    (other : UInt32) : (exchange.cancel other).Unlisted seq pid := by
  intro hpid kind delivery objects interrupted
  show (exchange.awaited.erase other).get? seq ≠ _
  rw [Table.get?_erase]
  split
  · simp
  · exact h hpid kind delivery objects interrupted

/-- The exchange that waits for the report to its next request. -/
def expectAck (exchange : Exchange) : Exchange :=
  exchange.advance.expect .ack

theorem Unlisted.expectAck {exchange : Exchange} {seq pid : UInt32}
    (h : exchange.Unlisted seq pid) : exchange.expectAck.Unlisted seq pid := by
  intro hpid kind delivery objects interrupted
  show (exchange.awaited.insert (seqAfter exchange.seq) .ack).get? seq ≠ _
  rw [Table.get?_insert]
  split
  · simp
  · exact h hpid kind delivery objects interrupted

theorem unlisted_expectAck (exchange : Exchange) (pid : UInt32) :
    exchange.expectAck.Unlisted (seqAfter exchange.seq) pid := by
  intro hpid kind delivery objects interrupted
  show (exchange.awaited.insert (seqAfter exchange.seq) .ack).get? _ ≠ _
  rw [Table.get?_insert_self]
  simp

theorem noteInterruption_cases (exchange : Exchange) (header : Header) :
    exchange.noteInterruption header = exchange ∨
      ∃ kind delivery objects interrupted,
        exchange.awaited.get? header.seq = some (.listing kind delivery objects interrupted) ∧
          exchange.noteInterruption header = { exchange with
            awaited := exchange.awaited.insert header.seq
              (.listing kind delivery objects true) } := by
  rw [noteInterruption]
  split
  · split
    · rename_i kind delivery objects interrupted hget
      exact Or.inr ⟨kind, delivery, objects, interrupted, hget, rfl⟩
    · exact Or.inl rfl
  · exact Or.inl rfl

theorem pid_noteInterruption {exchange : Exchange} (header : Header) :
    (exchange.noteInterruption header).pid = exchange.pid := by
  rcases exchange.noteInterruption_cases header with hsame | ⟨_, _, _, _, -, hnoted⟩
  · rw [hsame]
  · rw [hnoted]

theorem Unlisted.noteInterruption {exchange : Exchange} {header : Header}
    (h : exchange.Unlisted header.seq header.pid) :
    (exchange.noteInterruption header).Unlisted header.seq header.pid := by
  rcases exchange.noteInterruption_cases header with hsame | ⟨_, _, _, _, hget, hnoted⟩
  · rw [hsame]
    exact h
  · rw [hnoted]
    intro hpid
    exact absurd hget (h hpid _ _ _ _)

theorem Unlisted.eq_ack {exchange : Exchange} {seq pid : UInt32} (h : exchange.Unlisted seq pid)
    (hpid : pid = exchange.pid) {awaited : Awaited}
    (hget : exchange.awaited.get? seq = some awaited) : awaited = .ack := by
  cases awaited with
  | ack => rfl
  | listing kind delivery objects interrupted => exact absurd hget (h hpid _ _ _ _)

/-- All that an object can bring about: it is not of the kind that is listed, a listing holds it
back or hands it on, or it belongs to none and is a notice. -/
inductive TakesObject (exchange : Exchange) (header : Header) (change : Change) (object : Object) :
    Exchange × Option Incoming → Prop where
  | stray {kind : Kind} {delivery : Delivery} {objects : List Object} {interrupted : Bool}
      (hpid : header.pid = exchange.pid)
      (hget : exchange.awaited.get? header.seq =
        some (.listing kind delivery objects interrupted))
      (hkind : object.kind ≠ kind) : TakesObject exchange header change object (exchange, none)
  | held {objects : List Object} {interrupted : Bool} (hpid : header.pid = exchange.pid)
      (hget : exchange.awaited.get? header.seq =
        some (.listing object.kind .whole objects interrupted)) :
      TakesObject exchange header change object
        ({ exchange with
            awaited := exchange.awaited.insert header.seq
              (.listing object.kind .whole (objects ++ [object]) interrupted) }, none)
  | handed {objects : List Object} {interrupted : Bool} (hpid : header.pid = exchange.pid)
      (hget : exchange.awaited.get? header.seq =
        some (.listing object.kind .inParts objects interrupted)) :
      TakesObject exchange header change object (exchange, some (.part header.seq [object]))
  | notice (hunlisted : exchange.Unlisted header.seq header.pid) :
      TakesObject exchange header change object
        (exchange, some (.notice object.kind change object))

theorem takesObject (exchange : Exchange) (header : Header) (change : Change) (object : Object) :
    exchange.TakesObject header change object (exchange.takeObject header change object) := by
  rw [takeObject]
  split
  · rename_i kind delivery objects interrupted hlisting
    split at hlisting
    · rename_i hpid
      by_cases hkind : object.kind = kind
      · subst hkind
        rw [if_neg (not_not.mpr rfl)]
        cases delivery with
        | whole => exact .held hpid hlisting
        | inParts => exact .handed hpid hlisting
      · rw [if_pos hkind]
        exact .stray hpid hlisting hkind
    · exact absurd hlisting (by simp)
  · rename_i hnone
    refine .notice fun hpid kind delivery objects interrupted hget => ?_
    exact hnone kind delivery objects interrupted (by rw [if_pos hpid, hget])

theorem takeObject_eq {exchange : Exchange} {header : Header}
    (h : exchange.Unlisted header.seq header.pid) (change : Change) (object : Object) :
    exchange.takeObject header change object =
      (exchange, some (.notice object.kind change object)) := by
  have htakes := takesObject exchange header change object
  generalize exchange.takeObject header change object = taken at htakes
  cases htakes with
  | stray hpid hget hkind => exact absurd hget (h hpid _ _ _ _)
  | held hpid hget => exact absurd hget (h hpid _ _ _ _)
  | handed hpid hget => exact absurd hget (h hpid _ _ _ _)
  | notice hunlisted => rfl

theorem kind_of_changeOf? {type : UInt16} {change : Change}
    (h : Object.changeOf? type = some change) :
    type ≠ MessageType.overrun ∧ type ≠ MessageType.error ∧ type ≠ MessageType.done ∧
      type ≠ MessageType.noop := by
  refine ⟨?_, ?_, ?_, ?_⟩
  all_goals
    intro htype
    rw [htype] at h
    revert h
    cases change <;> decide

theorem take_of_error (exchange : Exchange) {message : Message}
    (h : message.header.kind = MessageType.error) :
    exchange.take message =
      if exchange.isOurs message.header then
        (reportFailure message.payload).map (exchange.conclude message.header.seq)
      else .ok (exchange, none) := by
  have hoverrun : message.header.isOverrun = false := by
    rw [Header.isOverrun, h]
    rfl
  have herror : message.header.isError = true := by
    rw [Header.isError, h]
    rfl
  rw [take]
  simp only [hoverrun, herror, Bool.false_eq_true, if_false, if_true]

theorem take_of_done (exchange : Exchange) {message : Message}
    (h : message.header.kind = MessageType.done) :
    exchange.take message =
      if exchange.isOurs message.header then
        (endFailure message.payload).map
          ((exchange.noteInterruption message.header).conclude message.header.seq)
      else .ok (exchange, none) := by
  have hoverrun : message.header.isOverrun = false := by
    rw [Header.isOverrun, h]
    rfl
  have herror : message.header.isError = false := by
    rw [Header.isError, h]
    rfl
  have hdone : message.header.isDone = true := by
    rw [Header.isDone, h]
    rfl
  rw [take]
  simp only [hoverrun, herror, hdone, Bool.false_eq_true, if_false, if_true]

theorem take_of_decode (exchange : Exchange) {message : Message} {change : Change}
    {object : Object}
    (h : Object.decode message.header.kind message.payload = .ok (some (change, object))) :
    exchange.take message =
      .ok ((exchange.noteInterruption message.header).takeObject message.header change object) := by
  obtain ⟨hoverrun, herror, hdone, hnoop⟩ :=
    kind_of_changeOf? (Object.decode_eq_ok_some_iff.mp h).1
  rw [take]
  simp only [Header.isOverrun, Header.isError, Header.isDone, beq_iff_eq, if_neg hoverrun,
    if_neg herror, if_neg hdone, if_neg hnoop, h]

/-- All that a message can bring about: messages were lost, it ends a request, it tells of an
object, or it is skipped. -/
inductive Takes (exchange : Exchange) (message : Message) : Exchange × Option Incoming → Prop where
  | overrun (h : message.header.isOverrun = true) :
      Takes exchange message (exchange, some .overrun)
  | ended {noted : Exchange} (failure : Option Fault)
      (hends : message.header.isError = true ∨ message.header.isDone = true)
      (hours : exchange.isOurs message.header = true)
      (hnoted : noted = exchange ∨ noted = exchange.noteInterruption message.header) :
      Takes exchange message (noted.conclude message.header.seq failure)
  | told {change : Change} {object : Object}
      (h : Object.decode message.header.kind message.payload = .ok (some (change, object))) :
      Takes exchange message
        ((exchange.noteInterruption message.header).takeObject message.header change object)
  | skipped
      (hends : message.header.isError = true ∨ message.header.isDone = true →
        exchange.isOurs message.header = false)
      (htold : ∀ found, Object.decode message.header.kind message.payload ≠ .ok (some found)) :
      Takes exchange message (exchange, none)

theorem decode_of_ends {message : Message}
    (h : message.header.isError = true ∨ message.header.isDone = true) (found : Change × Object) :
    Object.decode message.header.kind message.payload ≠ .ok (some found) := by
  intro hdecode
  obtain ⟨-, herror, hdone, -⟩ := kind_of_changeOf? (Object.decode_eq_ok_some_iff.mp hdecode).1
  rcases h with h | h
  · exact herror (beq_iff_eq.mp h)
  · exact hdone (beq_iff_eq.mp h)

theorem takes {exchange : Exchange} {message : Message} {taken : Exchange × Option Incoming}
    (htake : exchange.take message = .ok taken) : exchange.Takes message taken := by
  rw [take] at htake
  split at htake
  · rename_i h
    cases htake
    exact Takes.overrun h
  split at htake
  · rename_i h
    split at htake
    · rename_i hours
      obtain ⟨failure, -, rfl⟩ := map_eq_ok_iff.mp htake
      exact Takes.ended failure (Or.inl h) hours (Or.inl rfl)
    · rename_i hours
      cases htake
      exact Takes.skipped (fun _ => Bool.eq_false_iff.mpr hours) (decode_of_ends (Or.inl h))
  split at htake
  · rename_i h
    split at htake
    · rename_i hours
      obtain ⟨failure, -, rfl⟩ := map_eq_ok_iff.mp htake
      exact Takes.ended failure (Or.inr h) hours (Or.inr rfl)
    · rename_i hours
      cases htake
      exact Takes.skipped (fun _ => Bool.eq_false_iff.mpr hours) (decode_of_ends (Or.inr h))
  rename_i herror hdone
  have hends : message.header.isError = true ∨ message.header.isDone = true →
      exchange.isOurs message.header = false := fun h => (h.elim herror hdone).elim
  split at htake
  · rename_i hnoop
    cases htake
    refine Takes.skipped hends ?_
    intro found hdecode
    exact (kind_of_changeOf? (Object.decode_eq_ok_some_iff.mp hdecode).1).2.2.2 hnoop
  split at htake
  · rename_i hdecode
    cases htake
    exact Takes.told hdecode
  · rename_i hdecode
    cases htake
    exact Takes.skipped hends fun found h => by simp [hdecode] at h
  · rename_i hdecode
    cases htake
    exact Takes.skipped hends fun found h => by simp [hdecode] at h
  · cases htake

/-- Whether a message ends the program: reading it does, or it ends a request by a code that has no
negation. -/
def Ruins (exchange : Exchange) (message : Message) : Prop :=
  Object.decode message.header.kind message.payload = .error .crash ∨
    exchange.isOurs message.header = true ∧
      (message.header.isError = true ∧ message.payload.atLeast Report.size = true ∨
        message.header.isDone = true ∧ message.payload.atLeast 4 = true) ∧
      message.payload.i32At 0 = Int32.minValue

theorem negated_eq_error_iff {code : Int32} {failure : Failure} :
    negated code = .error failure ↔ failure = .crash ∧ code = Int32.minValue := by
  rw [negated]
  split
  · rename_i hleast
    simp [hleast, eq_comm]
  · rename_i hleast
    simp [hleast]

theorem reportFailure_eq_error_iff {payload : Bytes} {failure : Failure} :
    reportFailure payload = .error failure ↔
      failure = .crash ∧ payload.atLeast Report.size = true ∧
        payload.i32At 0 = Int32.minValue := by
  rw [reportFailure, Report.ofBytes]
  by_cases hlong : payload.atLeast Report.size = true
  · rw [if_pos hlong]
    cases hack : Report.isAck ⟨payload.i32At 0, Header.read (payload.drop 4)⟩ with
    | true =>
        have hzero : payload.i32At 0 = 0 := beq_iff_eq.mp hack
        simp only [hack, if_true]
        exact ⟨nofun, fun h => absurd (hzero.symm.trans h.2.2) (by decide)⟩
    | false =>
        simp only [hack, Bool.false_eq_true, if_false, Report.fault, map_eq_error_iff,
          negated_eq_error_iff, hlong, true_and]
  · rw [if_neg hlong]
    exact ⟨nofun, fun h => absurd h.2.1 hlong⟩

theorem endFailure_eq_error_iff {payload : Bytes} {failure : Failure} :
    endFailure payload = .error failure ↔
      failure = .crash ∧ payload.atLeast 4 = true ∧ payload.i32At 0 = Int32.minValue := by
  rw [endFailure]
  by_cases hlong : payload.atLeast 4 = true
  · simp only [hlong, if_true, true_and]
    split
    · rw [map_eq_error_iff, negated_eq_error_iff]
    · rename_i hcode
      exact ⟨nofun, fun h => absurd (by rw [h.2]; decide) hcode⟩
  · simp only [if_neg hlong]
    exact ⟨nofun, fun h => absurd h.2.1 hlong⟩

theorem changeOf?_of_decode {type : UInt16} {payload : Bytes} {failure : Failure}
    (h : Object.decode type payload = .error failure) :
    ∃ change, Object.changeOf? type = some change := by
  rw [Object.decode] at h
  split at h
  · cases h
  · rename_i change hchange
    exact ⟨change, hchange⟩

/-- Taking a message never comes to a fault; it fails just for a message that ends the program. -/
theorem take_eq_error_iff {exchange : Exchange} {message : Message} {failure : Failure} :
    exchange.take message = .error failure ↔ failure = .crash ∧ exchange.Ruins message := by
  by_cases hread : ∃ change, Object.changeOf? message.header.kind = some change
  · obtain ⟨change, hchange⟩ := hread
    obtain ⟨hoverrun, herror, hdone, hnoop⟩ := kind_of_changeOf? hchange
    rw [take, Ruins]
    simp only [Header.isOverrun, Header.isError, Header.isDone, beq_iff_eq, if_neg hoverrun,
      if_neg hnoop, herror, hdone, if_false, false_and, or_self, and_false, or_false]
    rcases Object.decode message.header.kind message.payload with (fault | _) | _ | ⟨_, _⟩ <;>
      simp [eq_comm]
  · have hnone (told : Failure) : Object.decode message.header.kind message.payload ≠ .error told :=
      fun h => hread (changeOf?_of_decode h)
    rw [take, Ruins, or_iff_right (hnone .crash)]
    split
    · rename_i hoverrun
      rw [Header.isOverrun, beq_iff_eq] at hoverrun
      simp [Header.isError, Header.isDone, hoverrun, MessageType.overrun, MessageType.error,
        MessageType.done]
    split
    · rename_i herror
      have hdone : message.header.isDone = false := by
        rw [Header.isError, beq_iff_eq] at herror
        rw [Header.isDone, herror]
        rfl
      by_cases hours : exchange.isOurs message.header = true
      · simp [hours, herror, hdone, map_eq_error_iff, reportFailure_eq_error_iff]
      · simp [hours]
    split
    · rename_i herror hdone
      by_cases hours : exchange.isOurs message.header = true
      · simp [hours, herror, hdone, map_eq_error_iff, endFailure_eq_error_iff]
      · simp [hours]
    rename_i herror hdone
    split
    · simp [herror, hdone]
    · split
      · simp [herror, hdone]
      · simp [herror, hdone]
      · simp [herror, hdone]
      · rename_i hcrash
        exact absurd hcrash (hnone .crash)

theorem takeAll_ne_fault (exchange : Exchange) (before : List Incoming) (messages : List Message)
    (fault : Fault) : exchange.takeAll before messages ≠ .error (.fault fault) := by
  induction messages generalizing exchange before with
  | nil => exact nofun
  | cons message rest ih =>
      rw [takeAll]
      rcases htake : exchange.take message with failure | ⟨next, incoming⟩
      · obtain ⟨rfl, -⟩ := take_eq_error_iff.mp htake
        exact nofun
      · exact ih next _

/-- Receiving fails just if the socket does, and that for another reason than lost messages. -/
theorem receive_eq_fault_iff {exchange : Exchange} {received : Except Fault Bytes} {fault : Fault} :
    exchange.receive received = .error (.fault fault) ↔
      received = .error fault ∧ fault.isOverrun = false := by
  cases received with
  | ok datagram => exact iff_of_false (takeAll_ne_fault _ _ _ _) (by simp)
  | error failed =>
      rw [receive]
      split
      · rename_i hoverrun
        refine iff_of_false (by simp) ?_
        rintro ⟨hsame, hother⟩
        rw [← Except.error.inj hsame, hoverrun] at hother
        exact absurd hother (by simp)
      · rename_i hoverrun
        simp only [Except.error.injEq, Failure.fault.injEq]
        refine ⟨?_, And.left⟩
        rintro rfl
        exact ⟨rfl, Bool.eq_false_iff.mpr hoverrun⟩

theorem exists_receive_of_ne_crash {exchange : Exchange} {datagram : Bytes}
    (h : exchange.receive (.ok datagram) ≠ .error .crash) :
    ∃ taken, exchange.receive (.ok datagram) = .ok taken := by
  rcases hreceive : exchange.receive (.ok datagram) with (fault | _) | taken
  · exact absurd hreceive (takeAll_ne_fault _ _ _ fault)
  · exact absurd hreceive h
  · exact ⟨taken, rfl⟩

theorem take_notice {exchange : Exchange} (message : Message) {change : Change} {object : Object}
    (hunlisted : exchange.Unlisted message.header.seq message.header.pid)
    (hcalm : message.header.isInterrupted = false)
    (hdecode : Object.decode message.header.kind message.payload = .ok (some (change, object))) :
    exchange.take message = .ok (exchange, some (.notice object.kind change object)) := by
  have hnote : exchange.noteInterruption message.header = exchange := by
    rw [noteInterruption, hcalm]
    rfl
  rw [take_of_decode exchange hdecode, hnote]
  exact congrArg Except.ok (takeObject_eq hunlisted change object)

theorem take_unread {exchange : Exchange} {message : Message} {change : Change}
    (hchange : Object.changeOf? message.header.kind = some change)
    (hdecode : ∀ found, Object.decode message.header.kind message.payload ≠ .ok (some found))
    (hcalm : Object.decode message.header.kind message.payload ≠ .error .crash) :
    exchange.take message = .ok (exchange, none) := by
  obtain ⟨hoverrun, herror, hdone, hnoop⟩ := kind_of_changeOf? hchange
  rw [take]
  simp only [Header.isOverrun, Header.isError, Header.isDone, beq_iff_eq, if_neg hoverrun,
    if_neg herror, if_neg hdone, if_neg hnoop]
  split
  · rename_i found hread
    exact absurd hread (hdecode _)
  · rfl
  · rfl
  · rename_i hcrash
    exact absurd hcrash hcalm

theorem take_crash {exchange : Exchange} {message : Message} {change : Change}
    (hchange : Object.changeOf? message.header.kind = some change)
    (hdecode : Object.decode message.header.kind message.payload = .error .crash) :
    exchange.take message = .error .crash := by
  obtain ⟨hoverrun, herror, hdone, hnoop⟩ := kind_of_changeOf? hchange
  rw [take]
  simp only [Header.isOverrun, Header.isError, Header.isDone, beq_iff_eq, if_neg hoverrun,
    if_neg herror, if_neg hdone, if_neg hnoop, hdecode]

theorem take_ack {exchange : Exchange} (message : Message)
    (hunlisted : exchange.Unlisted message.header.seq message.header.pid)
    (hkind : message.header.kind = MessageType.error)
    (hack : reportFailure message.payload = .ok none) :
    exchange.take message = .ok (exchange, none) ∨
      exchange.take message =
        .ok (exchange.cancel message.header.seq, some (.reply message.header.seq (.ok .ack))) := by
  rw [take_of_error exchange hkind]
  split
  · rename_i hours
    right
    rw [isOurs, Bool.and_eq_true, Bool.and_eq_true] at hours
    obtain ⟨awaited, hawaited⟩ := Table.contains_iff.mp hours.2
    have hown := hunlisted.eq_ack (beq_iff_eq.mp hours.1.2) hawaited
    simp only [Except.map, conclude, hack, hawaited, hown]
    rfl
  · exact Or.inl rfl

theorem messages_toBytes {draft : Draft} (h : draft.IsMeasured) :
    messages draft.toBytes = [⟨draft.header, draft.body⟩] := by
  rw [messages, Message.scan_toBytes_self h]
  rfl

theorem takeAll_cons_of_take {exchange next : Exchange} {message : Message}
    {incoming : Option Incoming} (h : exchange.take message = .ok (next, incoming))
    (before : List Incoming) (rest : List Message) :
    exchange.takeAll before (message :: rest) =
      next.takeAll (incoming.elim before (Incoming.add before)) rest := by
  rw [takeAll, h]
  rfl

theorem takeAll_cons_eq_ok_iff {exchange : Exchange} {before : List Incoming} {message : Message}
    {rest : List Message} {taken : Exchange × List Incoming} :
    exchange.takeAll before (message :: rest) = .ok taken ↔
      ∃ next incoming, exchange.take message = .ok (next, incoming) ∧
        next.takeAll (incoming.elim before (Incoming.add before)) rest = .ok taken := by
  rw [takeAll, bind_eq_ok_iff, Prod.exists]

theorem takeAll_single (exchange : Exchange) (message : Message) :
    exchange.takeAll [] [message] =
      (exchange.take message).map fun (next, incoming) => (next, incoming.elim [] ([·])) := by
  rw [takeAll]
  rcases exchange.take message with failure | ⟨next, incoming⟩
  · rfl
  · cases incoming <;> rfl

theorem changeOf?_type (news : Peer.News) : Object.changeOf? news.type = some news.change := by
  obtain ⟨change, object⟩ := news
  cases change with
  | new => exact Object.changeOf?_newType _
  | del => exact Object.changeOf?_delType _

theorem receive_told {exchange : Exchange} {news : Peer.News} {draft : Draft} {seq pid : UInt32}
    (hunlisted : exchange.Unlisted seq pid)
    (hdraft : news.object.toMessage news.type 0 = .ok draft) :
    exchange.receive (.ok (draft.addressed seq pid).toBytes) = .error .crash ∨
      exchange.receive (.ok (draft.addressed seq pid).toBytes) =
        .ok (exchange, ((news.object.told? news.type).map fun (change, seen) =>
          Incoming.notice seen.kind change seen).toList) := by
  have hmeasured := Object.isMeasured_toMessage hdraft seq pid
  obtain ⟨fields, hfields, hsize, rfl⟩ := Object.toMessage_eq_ok_iff.mp hdraft
  let message : Message := ⟨((Draft.new news.type 0 fields).addressed seq pid).header,
    ((Draft.new news.type 0 fields).addressed seq pid).body⟩
  have htold : news.object.told? news.type =
      (Object.decode message.header.kind message.payload).toOption.join := by
    rw [Object.told?, hdraft]
    show _ = (Object.decode news.type (Draft.new news.type 0 fields).body).toOption.join
    simp only
    cases Object.decode news.type (Draft.new news.type 0 fields).body <;> rfl
  have hchange : Object.changeOf? message.header.kind = some news.change := changeOf?_type news
  rw [receive, messages_toBytes hmeasured, takeAll_single, htold]
  rcases hdecode : Object.decode message.header.kind message.payload with
    (fault | _) | _ | ⟨change, seen⟩
  · rw [take_unread hchange (fun found => by simp [hdecode]) (by simp [hdecode])]
    exact Or.inr rfl
  · rw [take_crash hchange hdecode]
    exact Or.inl rfl
  · rw [take_unread hchange (fun found => by simp [hdecode]) (by simp [hdecode])]
    exact Or.inr rfl
  · rw [take_notice message hunlisted (show hasFlag 0 Flag.interrupted = false by decide) hdecode]
    exact Or.inr rfl

theorem receive_news {exchange : Exchange} {news : Peer.News} {seen : Object} {draft : Draft}
    {seq pid : UInt32} (hunlisted : exchange.Unlisted seq pid)
    (hdraft : news.object.toMessage news.type 0 = .ok draft) (hseen : news.IsSeen seen) :
    exchange.receive (.ok (draft.addressed seq pid).toBytes) =
      .ok (exchange, [.notice seen.kind news.change seen]) := by
  have hdecode : Object.decode news.type draft.body = .ok (some (news.change, seen)) := by
    have htold := hseen.told
    rw [Object.told?, hdraft] at htold
    simp only at htold
    split at htold
    · rename_i told hread
      rw [hread, htold]
    · cases htold
  have hmeasured := Object.isMeasured_toMessage hdraft seq pid
  obtain ⟨fields, -, -, rfl⟩ := Object.toMessage_eq_ok_iff.mp hdraft
  have htake := @take_notice exchange
    ⟨((Draft.new news.type 0 fields).addressed seq pid).header, (Draft.new news.type 0 fields).body⟩
    _ _ hunlisted (show hasFlag 0 Flag.interrupted = false by decide) hdecode
  rw [receive, messages_toBytes hmeasured, takeAll_single]
  exact congrArg (Except.map _) htake

/-- The report on a request, by a code that is zero if the request was carried out. -/
def reportOn (request : Header) (code : Int32) : Draft :=
  (Draft.new MessageType.error 0 [.raw (Bytes.ofInt32 code ++ request.toBytes)]).addressed
    request.seq request.pid

theorem length_reportBody (request : Header) (code : Int32) :
    (Bytes.ofInt32 code ++ request.toBytes).length = Report.size := by
  rw [List.length_append, Header.length_toBytes]
  rfl

theorem body_reportOn (request : Header) (code : Int32) :
    (reportOn request code).body = Bytes.ofInt32 code ++ request.toBytes := by
  refine Field.encodeAll_raw ?_
  rw [length_reportBody]
  exact ⟨5, rfl⟩

theorem isMeasured_reportOn (request : Header) (code : Int32) :
    (reportOn request code).IsMeasured := by
  rw [Draft.IsMeasured, body_reportOn, length_reportBody]
  decide

theorem reportFailure_reportOn (request : Header) (code : Int32) :
    reportFailure (reportOn request code).body =
      if code = 0 then .ok none
      else (negated code).map fun errno => some (.kernel errno none) := by
  have hlong : (Bytes.ofInt32 code ++ request.toBytes).atLeast Report.size = true :=
    Bytes.atLeast_iff.mpr (Nat.le_of_eq (length_reportBody request code).symm)
  have hwordless : Report.words? (Bytes.ofInt32 code ++ request.toBytes) = none := by
    rw [Report.words?, ← length_reportBody request code, List.drop_length, Attribute.find?,
      Attribute.scan]
    rfl
  rw [body_reportOn, reportFailure, Report.ofBytes, if_pos hlong]
  simp only [Report.isAck, Report.fault, Bytes.i32At_ofInt32, hwordless, beq_iff_eq]
  split
  · rfl
  · cases negated code <;> rfl

theorem header_reportOn (request : Header) (code : Int32) :
    (reportOn request code).header.kind = MessageType.error ∧
      (reportOn request code).header.seq = request.seq ∧
      (reportOn request code).header.pid = request.pid := by
  rw [reportOn, Draft.addressed, Draft.header]
  exact ⟨rfl, rfl, rfl⟩

section

variable {exchange : Exchange} {request : Header} (hnumber : request.seq ≠ 0)
  (hpid : request.pid = exchange.pid) {awaited : Awaited}
  (hawaited : exchange.awaited.get? request.seq = some awaited)

include hnumber hpid hawaited

theorem take_reportOn (code : Int32) :
    exchange.take ⟨(reportOn request code).header, (reportOn request code).body⟩ =
      (reportFailure (reportOn request code).body).map (exchange.conclude request.seq) := by
  obtain ⟨hkind, hseq, hown⟩ := header_reportOn request code
  have hours : exchange.isOurs (reportOn request code).header = true := by
    rw [isOurs, hseq, hown, Table.contains, hawaited]
    simp [hnumber, hpid]
  have htake := take_of_error exchange
    (show (Message.mk (reportOn request code).header (reportOn request code).body).header.kind = _
      from hkind)
  rw [htake, if_pos hours, hseq]

theorem receive_reportOn {code : Int32} (hcode : code ≠ Int32.minValue) :
    exchange.receive (.ok (reportOn request code).toBytes) =
      .ok (exchange.cancel request.seq, [.reply request.seq
        (if code = 0 then .ok (replyTo (some awaited))
          else .error (.kernel (-code.toInt) none))]) := by
  rw [receive, messages_toBytes (isMeasured_reportOn request code), takeAll_single,
    take_reportOn hnumber hpid hawaited, reportFailure_reportOn, negated, if_neg hcode]
  by_cases hcode : code = 0
  · simp only [if_pos hcode, Except.map, conclude, hawaited]
    rfl
  · simp only [if_neg hcode, Except.map, conclude]
    rfl

theorem receive_reportOn_minValue :
    exchange.receive (.ok (reportOn request Int32.minValue).toBytes) = .error .crash := by
  rw [receive, messages_toBytes (isMeasured_reportOn request _), takeAll_single,
    take_reportOn hnumber hpid hawaited, reportFailure_reportOn,
    if_neg (show Int32.minValue ≠ 0 by decide), negated, if_pos rfl]
  simp only [Except.map]

end

def ackReport (request : Header) : Draft :=
  (Draft.new MessageType.error 0 [.raw (Bytes.ofInt32 0 ++ request.toBytes)]).addressed request.seq
    request.pid

theorem isMeasured_ackReport (request : Header) : (ackReport request).IsMeasured :=
  isMeasured_reportOn request 0

theorem reportFailure_ackReport (request : Header) :
    reportFailure (ackReport request).body = .ok none :=
  (reportFailure_reportOn request 0).trans (if_pos rfl)

theorem seq_ackReport (request : Header) : (ackReport request).header.seq = request.seq := by
  rw [ackReport, Draft.addressed, Draft.header]

theorem pid_ackReport (request : Header) : (ackReport request).header.pid = request.pid := by
  rw [ackReport, Draft.addressed, Draft.header]

theorem kind_ackReport (request : Header) :
    (ackReport request).header.kind = MessageType.error := by
  rw [ackReport, Draft.addressed, Draft.header]
  rfl

theorem receive_ackReport {exchange : Exchange} {request : Header}
    (hunlisted : exchange.Unlisted request.seq request.pid) :
    exchange.receive (.ok (ackReport request).toBytes) = .ok (exchange, []) ∨
      exchange.receive (.ok (ackReport request).toBytes) =
        .ok (exchange.cancel request.seq, [.reply request.seq (.ok .ack)]) := by
  rw [← seq_ackReport, ← pid_ackReport] at hunlisted
  have htake := take_ack ⟨(ackReport request).header, (ackReport request).body⟩ hunlisted
    (kind_ackReport request) (reportFailure_ackReport request)
  simp only [seq_ackReport] at htake
  rw [receive, messages_toBytes (isMeasured_ackReport request), takeAll_single]
  rcases htake with htake | htake
  · rw [htake]
    exact Or.inl rfl
  · rw [htake]
    exact Or.inr rfl

end NetState.Exchange
