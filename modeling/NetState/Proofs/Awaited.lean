import NetState.Proofs.Listing

namespace NetState

namespace Table

variable {κ ν : Type} [Coded κ] [DecidableEq κ]

theorem mem_keys_insert {table : Table κ ν} {key other : κ} {value : ν} :
    other ∈ (table.insert key value).keys ↔ other = key ∨ other ∈ table.keys := by
  rw [mem_keys_iff, mem_keys_iff]
  simp only [get?_insert]
  by_cases hkey : key = other
  · simp [hkey]
  · simp [hkey, Ne.symm hkey]

theorem mem_keys_erase {table : Table κ ν} {key other : κ} :
    other ∈ (table.erase key).keys ↔ other ∈ table.keys ∧ other ≠ key := by
  rw [mem_keys_iff, mem_keys_iff]
  simp only [get?_erase]
  by_cases hkey : key = other
  · simp [hkey]
  · simp [hkey, Ne.symm hkey]

theorem mem_keys_of_get? {table : Table κ ν} {key : κ} {value : ν}
    (h : table.get? key = some value) :
    key ∈ table.keys :=
  mem_keys_iff.mpr ⟨value, h⟩

theorem mem_keys_insert_of_mem {table : Table κ ν} {key other : κ} (value : ν)
    (h : key ∈ table.keys) : other ∈ (table.insert key value).keys ↔ other ∈ table.keys := by
  rw [mem_keys_insert]
  constructor
  · rintro (rfl | hother)
    · exact h
    · exact hother
  · exact Or.inr

end Table

namespace Incoming

/-- The numbers of the requests whose answers came in. -/
def answered (incoming : List Incoming) : List UInt32 :=
  incoming.filterMap fun
    | .reply seq _ => some seq
    | _ => none

theorem answered_append (first second : List Incoming) :
    answered (first ++ second) = answered first ++ answered second :=
  List.filterMap_append

theorem answered_add (before : List Incoming) (next : Incoming) :
    answered (add before next) = answered before ++ answered [next] := by
  rw [add.eq_def]
  split
  · rename_i hlast
    split
    · rw [answered_append]
      conv_rhs => rw [← List.dropLast_append_getLast? _ hlast, answered_append]
      rw [List.append_assoc]
      rfl
    · exact answered_append _ _
  · exact answered_append _ _

end Incoming

namespace Exchange

/-- Whether an exchange comes from another one by receptions that answer some requests. -/
structure Answers (exchange after : Exchange) (answered : List UInt32) : Prop where
  seq : after.seq = exchange.seq
  keys : ∀ seq, seq ∈ after.awaited.keys ↔ seq ∈ exchange.awaited.keys ∧ seq ∉ answered

namespace Answers

variable {exchange middle after : Exchange} {answered more : List UInt32}

theorem refl (exchange : Exchange) : exchange.Answers exchange [] :=
  ⟨rfl, fun _ => by simp⟩

theorem trans (h : exchange.Answers middle answered) (hmore : middle.Answers after more) :
    exchange.Answers after (answered ++ more) := by
  refine ⟨hmore.seq.trans h.seq, fun seq => ?_⟩
  rw [hmore.keys, h.keys, List.mem_append]
  tauto

end Answers

theorem answers_insert (exchange : Exchange) {seq : UInt32} (awaited : Awaited)
    (h : seq ∈ exchange.awaited.keys) :
    exchange.Answers { exchange with awaited := exchange.awaited.insert seq awaited } [] :=
  ⟨rfl, fun other => by simp [Table.mem_keys_insert_of_mem awaited h]⟩

theorem answers_noteInterruption (exchange : Exchange) (header : Header) :
    exchange.Answers (exchange.noteInterruption header) [] := by
  rcases exchange.noteInterruption_cases header with hsame | ⟨_, _, _, _, hget, hnoted⟩
  · rw [hsame]
    exact .refl exchange
  · rw [hnoted]
    exact answers_insert exchange _ (Table.mem_keys_of_get? hget)

theorem answers_conclude (exchange : Exchange) (seq : UInt32) (failure : Option Fault) :
    exchange.Answers (exchange.conclude seq failure).1
      (Incoming.answered (exchange.conclude seq failure).2.toList) := by
  refine ⟨rfl, fun other => ?_⟩
  show other ∈ (exchange.awaited.erase seq).keys ↔ _ ∧ other ∉ [seq]
  rw [Table.mem_keys_erase, List.mem_singleton]

theorem answers_takeObject (exchange : Exchange) (header : Header) (change : Change)
    (object : Object) :
    exchange.Answers (exchange.takeObject header change object).1
      (Incoming.answered (exchange.takeObject header change object).2.toList) := by
  have htakes := takesObject exchange header change object
  generalize exchange.takeObject header change object = taken at htakes
  cases htakes with
  | held hpid hget => exact answers_insert exchange _ (Table.mem_keys_of_get? hget)
  | stray | handed | notice => exact .refl exchange

variable {exchange : Exchange} {message : Message} {taken : Exchange × Option Incoming}

theorem answers_take (h : exchange.take message = .ok taken) :
    exchange.Answers taken.1 (Incoming.answered taken.2.toList) := by
  have hnote := answers_noteInterruption exchange message.header
  cases takes h with
  | overrun => exact .refl exchange
  | ended failure _ _ hnoted =>
      rcases hnoted with rfl | rfl
      · exact answers_conclude _ _ _
      · exact hnote.trans (answers_conclude _ _ _)
  | told => exact hnote.trans (answers_takeObject _ _ _ _)
  | skipped => exact .refl exchange

end Exchange

/-- Whether a message ends a request of a socket: by a report, or as the end of a listing. -/
def Message.Ends (message : Message) (pid seq : UInt32) : Prop :=
  (message.header.isError = true ∨ message.header.isDone = true) ∧
    message.header.pid = pid ∧ message.header.seq = seq

namespace Exchange

variable {exchange : Exchange} {message : Message} {taken : Exchange × Option Incoming}

theorem pid_answered_takeObject (exchange : Exchange) (header : Header) (change : Change)
    (object : Object) :
    (exchange.takeObject header change object).1.pid = exchange.pid ∧
      Incoming.answered (exchange.takeObject header change object).2.toList = [] := by
  have htakes := takesObject exchange header change object
  generalize exchange.takeObject header change object = taken at htakes
  cases htakes with
  | stray | held | handed | notice => exact ⟨rfl, rfl⟩

theorem pid_take (h : exchange.take message = .ok taken) : taken.1.pid = exchange.pid := by
  cases takes h with
  | overrun => rfl
  | ended failure _ _ hnoted =>
      rcases hnoted with rfl | rfl
      · rfl
      · exact pid_noteInterruption _
  | told => exact (pid_answered_takeObject _ _ _ _).1.trans (pid_noteInterruption _)
  | skipped => rfl

/-- A message answers a request only if that was awaited and the message ends it. -/
theorem answered_take (h : exchange.take message = .ok taken) :
    Incoming.answered taken.2.toList = [] ∨
      Incoming.answered taken.2.toList = [message.header.seq] ∧
        message.header.seq ∈ exchange.awaited.keys ∧
        message.Ends exchange.pid message.header.seq := by
  cases takes h with
  | overrun => exact Or.inl rfl
  | ended failure hends hours _ =>
      rw [isOurs, Bool.and_eq_true, Bool.and_eq_true, beq_iff_eq] at hours
      exact Or.inr ⟨rfl, Table.mem_keys_iff.mpr (Table.contains_iff.mp hours.2), hends, hours.1.2,
        rfl⟩
  | told => exact Or.inl (pid_answered_takeObject _ _ _ _).2
  | skipped => exact Or.inl rfl

/-- Whether an exchange comes from another one by messages that end some requests, each of which was
awaited and is ended once. -/
structure Settles (exchange after : Exchange) (messages : List Message)
    (answered : List UInt32) : Prop
    extends Answers exchange after answered where
  pid : after.pid = exchange.pid
  once : answered.Nodup
  ended : ∀ seq ∈ answered, seq ∈ exchange.awaited.keys ∧
    ∃ message ∈ messages, message.Ends exchange.pid seq

namespace Settles

variable {exchange middle after : Exchange} {messages rest : List Message}
  {answered more : List UInt32}

theorem refl (exchange : Exchange) : exchange.Settles exchange [] [] :=
  ⟨.refl exchange, rfl, List.nodup_nil, by simp⟩

theorem trans (h : exchange.Settles middle messages answered)
    (hrest : middle.Settles after rest more) :
    exchange.Settles after (messages ++ rest) (answered ++ more) := by
  refine ⟨h.toAnswers.trans hrest.toAnswers, hrest.pid.trans h.pid, ?_, ?_⟩
  · refine List.Nodup.append h.once hrest.once ?_
    intro seq hanswered hmore
    exact ((h.keys seq).mp (hrest.ended seq hmore).1).2 hanswered
  · intro seq hseq
    rcases List.mem_append.mp hseq with hseq | hseq
    · obtain ⟨hawaited, message, hmessage, hends⟩ := h.ended seq hseq
      exact ⟨hawaited, message, List.mem_append_left rest hmessage, hends⟩
    · obtain ⟨hawaited, message, hmessage, hends⟩ := hrest.ended seq hseq
      rw [h.pid] at hends
      exact ⟨((h.keys seq).mp hawaited).1, message, List.mem_append_right messages hmessage, hends⟩

end Settles

theorem settles_take (h : exchange.take message = .ok taken) :
    exchange.Settles taken.1 [message] (Incoming.answered taken.2.toList) := by
  have hanswers := answers_take h
  have hpid := pid_take h
  rcases answered_take h with hnone | ⟨hsome, hawaited, hends⟩
  · rw [hnone] at hanswers ⊢
    exact ⟨hanswers, hpid, List.nodup_nil, by simp⟩
  · rw [hsome] at hanswers ⊢
    refine ⟨hanswers, hpid, List.nodup_singleton _, ?_⟩
    intro seq hseq
    rw [List.mem_singleton.mp hseq]
    exact ⟨hawaited, message, List.mem_singleton_self message, hends⟩

theorem settles_takeAll {after : Exchange} {before incoming : List Incoming}
    {messages : List Message} (h : exchange.takeAll before messages = .ok (after, incoming)) :
    ∃ more, Incoming.answered incoming = Incoming.answered before ++ more ∧
      exchange.Settles after messages more := by
  induction messages generalizing exchange before with
  | nil =>
      cases h
      exact ⟨[], (List.append_nil _).symm, .refl _⟩
  | cons message rest ih =>
      obtain ⟨next, incoming, htake, hrest⟩ := takeAll_cons_eq_ok_iff.mp h
      obtain ⟨more, hanswered, hsettles⟩ := ih hrest
      refine ⟨Incoming.answered incoming.toList ++ more, ?_, (settles_take htake).trans hsettles⟩
      rw [hanswered, ← List.append_assoc]
      congr 1
      cases incoming with
      | none => exact (List.append_nil _).symm
      | some next => exact Incoming.answered_add before next

def heardIn : Except Fault Bytes → List Message
  | .ok datagram => messages datagram
  | .error _ => []

theorem settles_receive {exchange after : Exchange} {received : Except Fault Bytes}
    {incoming : List Incoming} (h : exchange.receive received = .ok (after, incoming)) :
    exchange.Settles after (heardIn received) (Incoming.answered incoming) := by
  cases received with
  | ok datagram =>
      obtain ⟨more, hanswered, hsettles⟩ := settles_takeAll h
      rw [hanswered]
      exact hsettles
  | error fault =>
      rw [receive] at h
      split at h
      · cases h
        exact .refl exchange
      · cases h

theorem answers_receive {exchange after : Exchange} {received : Except Fault Bytes}
    {incoming : List Incoming} (h : exchange.receive received = .ok (after, incoming)) :
    exchange.Answers after (Incoming.answered incoming) :=
  (settles_receive h).toAnswers

end Exchange

end NetState
