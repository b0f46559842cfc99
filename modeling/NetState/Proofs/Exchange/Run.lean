import NetState.Proofs.Awaited

namespace NetState

namespace Incoming

/-- Whether what is read off pieces of a listing is the same however they are put together. -/
structure Additive {α : Type} (view : Incoming → List α) : Prop where
  part : ∀ seq objects more,
    view (.part seq (objects ++ more)) = view (.part seq objects) ++ view (.part seq more)
  overrun : view .overrun = []

theorem Additive.flatMap_add {α : Type} {view : Incoming → List α} (h : Additive view)
    (before : List Incoming) (next : Incoming) :
    (add before next).flatMap view = before.flatMap view ++ view next := by
  have hlonely : (before ++ [next]).flatMap view = before.flatMap view ++ view next := by
    rw [List.flatMap_append, List.flatMap_singleton]
  rw [add.eq_def]
  split
  · rename_i seq objects other more hlast
    split
    · rename_i hsame
      obtain rfl := hsame
      rw [List.flatMap_append, List.flatMap_singleton, h.part, ← List.append_assoc]
      conv_rhs => rw [← List.dropLast_append_getLast? _ hlast, List.flatMap_append,
        List.flatMap_singleton]
    · exact hlonely
  · exact hlonely

end Incoming

namespace Exchange

/-- What is done with an exchange. -/
inductive Act where
  /-- A request is sent, and its answer is awaited. -/
  | ask (awaited : Awaited)
  /-- A request gets a number but fails to be sent. -/
  | askInVain
  | withdraw (seq : UInt32)
  /-- Something is received, or receiving fails. -/
  | hear (received : Except Fault Bytes)

/-- What is to be seen of an act from outside. -/
inductive Entry where
  | asked (seq : UInt32)
  | askedInVain (seq : UInt32)
  /-- An answer was awaited, and is no longer. -/
  | withdrawn (seq : UInt32)
  | came (incoming : Incoming)

def Act.takesNumber : Act → Bool
  | .ask _ => true
  | .askInVain => true
  | _ => false

namespace Entry

/-- The numbers that were used up, by whatever request. -/
def numbers (log : List Entry) : List UInt32 :=
  log.filterMap fun
    | .asked seq => some seq
    | .askedInVain seq => some seq
    | _ => none

def requests (log : List Entry) : List UInt32 :=
  log.filterMap fun
    | .asked seq => some seq
    | _ => none

def withdrawals (log : List Entry) : List UInt32 :=
  log.filterMap fun
    | .withdrawn seq => some seq
    | _ => none

def incoming (log : List Entry) : List Incoming :=
  log.filterMap fun
    | .came incoming => some incoming
    | _ => none

def answered (log : List Entry) : List UInt32 :=
  Incoming.answered (incoming log)

theorem requests_subset (log : List Entry) : requests log ⊆ numbers log := by
  intro seq hseq
  obtain ⟨entry, hentry, hasked⟩ := List.mem_filterMap.mp hseq
  refine List.mem_filterMap.mpr ⟨entry, hentry, ?_⟩
  cases entry with
  | asked => exact hasked
  | _ => exact absurd hasked (by simp)

section

variable (log more : List Entry)

theorem numbers_append : numbers (log ++ more) = numbers log ++ numbers more :=
  List.filterMap_append

theorem requests_append : requests (log ++ more) = requests log ++ requests more :=
  List.filterMap_append

theorem withdrawals_append : withdrawals (log ++ more) = withdrawals log ++ withdrawals more :=
  List.filterMap_append

theorem incoming_append : incoming (log ++ more) = incoming log ++ incoming more :=
  List.filterMap_append

theorem answered_append : answered (log ++ more) = answered log ++ answered more := by
  rw [answered, incoming_append, Incoming.answered_append]
  rfl

end

theorem mem_answered_iff {log : List Entry} {seq : UInt32} :
    seq ∈ answered log ↔ ∃ result, .came (.reply seq result) ∈ log := by
  simp only [answered, Incoming.answered, incoming, List.mem_filterMap]
  constructor
  · rintro ⟨next, ⟨entry, hentry, hnext⟩, hreply⟩
    cases entry with
    | came found =>
        obtain rfl := Option.some.inj hnext
        cases found with
        | reply other result =>
            obtain rfl := Option.some.inj hreply
            exact ⟨result, hentry⟩
        | _ => exact absurd hreply (by simp)
    | _ => exact absurd hnext (by simp)
  · rintro ⟨result, hmem⟩
    exact ⟨_, ⟨_, hmem, rfl⟩, rfl⟩

section

variable (incoming : List Incoming)

@[simp]
theorem numbers_came : numbers (incoming.map .came) = [] :=
  List.filterMap_eq_nil_iff.mpr (by simp)

@[simp]
theorem requests_came : requests (incoming.map .came) = [] :=
  List.filterMap_eq_nil_iff.mpr (by simp)

@[simp]
theorem withdrawals_came : withdrawals (incoming.map .came) = [] :=
  List.filterMap_eq_nil_iff.mpr (by simp)

@[simp]
theorem incoming_came : Entry.incoming (incoming.map .came) = incoming := by
  rw [Entry.incoming, List.filterMap_map]
  exact List.filterMap_some

end

end Entry

/-- An exchange after an act, and what is to be seen of that, unless the act ends the program. -/
def perform (exchange : Exchange) : Act → Option (Exchange × List Entry)
  | .ask awaited => some (exchange.advance.expect awaited, [.asked exchange.advance.seq])
  | .askInVain => some (exchange.advance, [.askedInVain exchange.advance.seq])
  | .withdraw seq =>
    some (exchange.cancel seq, if exchange.awaited.contains seq then [.withdrawn seq] else [])
  | .hear received =>
    match exchange.receive received with
    | .ok (after, incoming) => some (after, incoming.map .came)
    | .error (.fault _) => some (exchange, [])
    | .error .crash => none

/-- An exchange after one act and another, and what is to be seen of them. Nothing is done after an
act that ends the program. -/
def run (exchange : Exchange) : List Act → Exchange × List Entry
  | [] => (exchange, [])
  | act :: rest =>
    match exchange.perform act with
    | none => (exchange, [])
    | some (next, first) => ((next.run rest).1, first ++ (next.run rest).2)

theorem perform_error (exchange : Exchange) (fault : Fault) :
    exchange.perform (.hear (.error fault)) =
      some (exchange, if fault.isOverrun then [.came .overrun] else []) := by
  rw [perform, receive]
  by_cases hoverrun : fault.isOverrun = true
  · rw [if_pos hoverrun, if_pos hoverrun]
    rfl
  · rw [if_neg hoverrun, if_neg hoverrun]

section

variable {exchange next : Exchange} {act : Act} {first : List Entry}

theorem run_cons (h : exchange.perform act = some (next, first)) (rest : List Act) :
    exchange.run (act :: rest) = ((next.run rest).1, first ++ (next.run rest).2) := by
  rw [run, h]

theorem run_crash (h : exchange.perform act = none) (rest : List Act) :
    exchange.run (act :: rest) = (exchange, []) := by
  rw [run, h]

theorem perform_hear {received : Except Fault Bytes}
    (h : exchange.perform (.hear received) = some (next, first)) :
    (∃ incoming, exchange.receive received = .ok (next, incoming) ∧ first = incoming.map .came) ∨
      next = exchange ∧ first = [] := by
  rw [perform] at h
  split at h
  · rename_i after incoming hreceive
    cases h
    exact Or.inl ⟨incoming, hreceive, rfl⟩
  · cases h
    exact Or.inr ⟨rfl, rfl⟩
  · cases h

theorem numbers_perform (h : exchange.perform act = some (next, first)) :
    Entry.numbers first = if act.takesNumber then [seqAfter exchange.seq] else [] := by
  cases act with
  | ask awaited =>
      cases h
      rfl
  | askInVain =>
      cases h
      rfl
  | withdraw seq =>
      cases h
      split <;> rfl
  | hear received =>
      rcases perform_hear h with ⟨incoming, -, rfl⟩ | ⟨-, rfl⟩
      · exact Entry.numbers_came incoming
      · rfl

theorem seq_perform (h : exchange.perform act = some (next, first)) :
    next.seq = if act.takesNumber then seqAfter exchange.seq else exchange.seq := by
  cases act with
  | hear received =>
      rcases perform_hear h with ⟨incoming, hreceive, -⟩ | ⟨rfl, -⟩
      · exact (settles_receive hreceive).seq
      · rfl
  | _ =>
      cases h
      rfl

end

theorem exists_toNat_of_mem_numbers {exchange : Exchange} {acts : List Act} {seq : UInt32}
    (h : seq ∈ Entry.numbers (exchange.run acts).2) :
    ∃ k < acts.countP Act.takesNumber,
      seq.toNat = (exchange.seq.toNat + k) % (2 ^ 32 - 1) + 1 := by
  induction acts generalizing exchange with
  | nil => exact absurd h List.not_mem_nil
  | cons act rest ih =>
      rcases hperform : exchange.perform act with _ | ⟨next, first⟩
      · rw [run_crash hperform] at h
        exact absurd h List.not_mem_nil
      rw [run_cons hperform, Entry.numbers_append, List.mem_append, numbers_perform hperform] at h
      rw [List.countP_cons]
      by_cases htakes : act.takesNumber = true
      · rw [if_pos htakes] at h ⊢
        rcases h with h | h
        · refine ⟨0, Nat.succ_pos _, ?_⟩
          rw [List.mem_singleton.mp h]
          exact toNat_seqAfter_mod exchange.seq
        · obtain ⟨k, hk, hseq⟩ := ih h
          refine ⟨k + 1, Nat.succ_lt_succ hk, ?_⟩
          rw [hseq, seq_perform hperform, if_pos htakes, toNat_seqAfter_mod]
          omega
      · rw [if_neg htakes] at h ⊢
        obtain ⟨k, hk, hseq⟩ := ih (h.resolve_left List.not_mem_nil)
        refine ⟨k, hk, ?_⟩
        rw [hseq, seq_perform hperform, if_neg htakes]

/-- A number comes again only after all others. -/
theorem not_mem_numbers_run {exchange : Exchange} {acts : List Act} (hnumber : exchange.seq ≠ 0)
    (hroom : acts.countP Act.takesNumber < 2 ^ 32 - 1) :
    exchange.seq ∉ Entry.numbers (exchange.run acts).2 := by
  intro hmem
  obtain ⟨k, hk, hseq⟩ := exists_toNat_of_mem_numbers hmem
  have hlast := exchange.seq.toNat_lt
  have hpositive : exchange.seq.toNat ≠ 0 := fun hzero => hnumber (UInt32.toNat_inj.mp hzero)
  omega

theorem receive_ne_fault (exchange : Exchange) (datagram : Bytes) (fault : Fault) :
    exchange.receive (.ok datagram) ≠ .error (.fault fault) :=
  takeAll_ne_fault exchange [] (messages datagram) fault

def Act.messages : Act → List Message
  | .hear received => heardIn received
  | _ => []

/-- Some messages, each with the exchange that takes it. -/
def takings (exchange : Exchange) : List Message → List (Exchange × Message)
  | [] => []
  | message :: rest =>
    match exchange.take message with
    | .ok (next, _) => (exchange, message) :: next.takings rest
    | .error _ => []

/-- The messages of a run, each with the exchange that takes it, up to where the program ends. -/
def heard (exchange : Exchange) : List Act → List (Exchange × Message)
  | [] => []
  | act :: rest =>
    match exchange.perform act with
    | none => []
    | some (next, _) => exchange.takings act.messages ++ next.heard rest

theorem takings_cons {exchange next : Exchange} {message : Message} {incoming : Option Incoming}
    (h : exchange.take message = .ok (next, incoming)) (rest : List Message) :
    exchange.takings (message :: rest) = (exchange, message) :: next.takings rest := by
  rw [takings, h]

theorem heard_cons {exchange next : Exchange} {act : Act} {first : List Entry}
    (h : exchange.perform act = some (next, first)) (rest : List Act) :
    exchange.heard (act :: rest) = exchange.takings act.messages ++ next.heard rest := by
  rw [heard, h]

theorem heard_crash {exchange : Exchange} {act : Act} (h : exchange.perform act = none)
    (rest : List Act) : exchange.heard (act :: rest) = [] := by
  rw [heard, h]

theorem map_takings {exchange : Exchange} {before : List Incoming} {messages : List Message}
    {taken : Exchange × List Incoming} (h : exchange.takeAll before messages = .ok taken) :
    (exchange.takings messages).map Prod.snd = messages := by
  induction messages generalizing exchange before with
  | nil => rfl
  | cons message rest ih =>
      obtain ⟨next, incoming, htake, hrest⟩ := takeAll_cons_eq_ok_iff.mp h
      rw [takings_cons htake]
      exact congrArg (message :: ·) (ih hrest)

theorem perform_datagram {exchange next : Exchange} {datagram : Bytes} {first : List Entry}
    (h : exchange.perform (.hear (.ok datagram)) = some (next, first)) :
    ∃ incoming, exchange.takeAll [] (messages datagram) = .ok (next, incoming) ∧
      first = incoming.map .came := by
  rw [perform] at h
  split at h
  · rename_i after incoming hreceive
    cases h
    exact ⟨incoming, hreceive, rfl⟩
  · rename_i fault hreceive
    exact absurd hreceive (receive_ne_fault exchange datagram fault)
  · cases h

theorem map_takings_messages {exchange next : Exchange} {act : Act} {first : List Entry}
    (h : exchange.perform act = some (next, first)) :
    (exchange.takings act.messages).map Prod.snd = act.messages := by
  cases act with
  | hear received =>
      cases received with
      | error fault => rfl
      | ok datagram =>
          obtain ⟨incoming, htaken, -⟩ := perform_datagram h
          exact map_takings htaken
  | _ => rfl

theorem exists_take_of_mem_takings {exchange : Exchange} {messages : List Message}
    {taking : Exchange × Message} (h : taking ∈ exchange.takings messages) :
    ∃ taken, taking.1.take taking.2 = .ok taken := by
  induction messages generalizing exchange with
  | nil => exact absurd h List.not_mem_nil
  | cons message rest ih =>
      rw [takings] at h
      split at h
      · rename_i next incoming htake
        rcases List.mem_cons.mp h with rfl | h
        · exact ⟨_, htake⟩
        · exact ih h
      · exact absurd h List.not_mem_nil

theorem exists_take_of_mem_heard {exchange : Exchange} {acts : List Act}
    {taking : Exchange × Message} (h : taking ∈ exchange.heard acts) :
    ∃ taken, taking.1.take taking.2 = .ok taken := by
  induction acts generalizing exchange with
  | nil => exact absurd h List.not_mem_nil
  | cons act rest ih =>
      rw [heard] at h
      split at h
      · exact absurd h List.not_mem_nil
      · rcases List.mem_append.mp h with h | h
        · exact exists_take_of_mem_takings h
        · exact ih h

theorem exists_messages_eq (exchange : Exchange) (acts : List Act) :
    ∃ unheard, acts.flatMap Act.messages = (exchange.heard acts).map Prod.snd ++ unheard := by
  induction acts generalizing exchange with
  | nil => exact ⟨[], rfl⟩
  | cons act rest ih =>
      rcases hperform : exchange.perform act with _ | ⟨next, first⟩
      · exact ⟨_, by rw [heard_crash hperform, List.map_nil, List.nil_append]⟩
      obtain ⟨unheard, hrest⟩ := ih next
      refine ⟨unheard, ?_⟩
      rw [heard_cons hperform, List.map_append, map_takings_messages hperform, List.flatMap_cons,
        hrest, List.append_assoc]

/-- What is read off what one message brings in. -/
def seen {α : Type} (view : Incoming → List α) (taking : Exchange × Message) : List α :=
  match taking.1.take taking.2 with
  | .ok (_, incoming) => incoming.toList.flatMap view
  | .error _ => []

theorem seen_eq {α : Type} {exchange next : Exchange} {message : Message}
    {incoming : Option Incoming} (h : exchange.take message = .ok (next, incoming))
    (view : Incoming → List α) :
    seen view (exchange, message) = incoming.toList.flatMap view := by
  rw [seen, h]

theorem flatMap_takeAll {α : Type} {view : Incoming → List α} (h : Incoming.Additive view)
    {exchange : Exchange} {before : List Incoming} {messages : List Message}
    {taken : Exchange × List Incoming} (htaken : exchange.takeAll before messages = .ok taken) :
    taken.2.flatMap view =
      before.flatMap view ++ (exchange.takings messages).flatMap (seen view) := by
  induction messages generalizing exchange before with
  | nil =>
      cases htaken
      exact (List.append_nil _).symm
  | cons message rest ih =>
      obtain ⟨next, incoming, htake, hrest⟩ := takeAll_cons_eq_ok_iff.mp htaken
      rw [takings_cons htake, List.flatMap_cons, seen_eq htake, ← List.append_assoc]
      refine (ih hrest).trans ?_
      congr 1
      cases incoming with
      | none => exact (List.append_nil _).symm
      | some first =>
          refine (h.flatMap_add before first).trans ?_
          show _ = before.flatMap view ++ (view first ++ [])
          rw [List.append_nil]

/-- However messages are put into datagrams, what comes in is what each of them brings in. -/
theorem flatMap_run {α : Type} {view : Incoming → List α} (h : Incoming.Additive view)
    (exchange : Exchange) (acts : List Act) :
    (Entry.incoming (exchange.run acts).2).flatMap view =
      (exchange.heard acts).flatMap (seen view) := by
  induction acts generalizing exchange with
  | nil => rfl
  | cons act rest ih =>
      rcases hperform : exchange.perform act with _ | ⟨next, first⟩
      · rw [run_crash hperform, heard_crash hperform]
        rfl
      rw [run_cons hperform, Entry.incoming_append, List.flatMap_append, ih, heard_cons hperform,
        List.flatMap_append]
      congr 1
      cases act with
      | ask awaited =>
          cases hperform
          rfl
      | askInVain =>
          cases hperform
          rfl
      | withdraw seq =>
          cases hperform
          split <;> rfl
      | hear received =>
          cases received with
          | ok datagram =>
              obtain ⟨incoming, htaken, rfl⟩ := perform_datagram hperform
              rw [Entry.incoming_came]
              exact flatMap_takeAll h htaken
          | error fault =>
              rw [perform_error] at hperform
              cases hperform
              split
              · show view .overrun ++ [] = []
                rw [h.overrun, List.append_nil]
              · rfl

theorem pid_perform {exchange next : Exchange} {act : Act} {first : List Entry}
    (h : exchange.perform act = some (next, first)) : next.pid = exchange.pid := by
  cases act with
  | hear received =>
      rcases perform_hear h with ⟨incoming, hreceive, -⟩ | ⟨rfl, -⟩
      · exact (settles_receive hreceive).pid
      · rfl
  | _ =>
      cases h
      rfl

theorem pid_run (exchange : Exchange) (acts : List Act) :
    (exchange.run acts).1.pid = exchange.pid := by
  induction acts generalizing exchange with
  | nil => rfl
  | cons act rest ih =>
      rcases hperform : exchange.perform act with _ | ⟨next, first⟩
      · rw [run_crash hperform]
      · rw [run_cons hperform]
        exact (ih next).trans (pid_perform hperform)

end Exchange

end NetState
