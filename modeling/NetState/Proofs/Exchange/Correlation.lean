import NetState.Proofs.Exchange.Run

/-!
Answers find the requests that they are for.

Numbers are given out in order, so none is used twice before they run out. A request is awaited from
when it is sent until it is answered or given up, and only once does an answer to it come in.
-/

namespace NetState.Exchange

open Entry

/-- The numbers that have been given out so far, the last of which is known. -/
structure Numbered (last : UInt32) (given : List UInt32) : Prop where
  counted : last.toNat = given.length
  ascending : given.Pairwise (· < ·)
  within : ∀ seq ∈ given, seq ≠ 0 ∧ seq ≤ last

namespace Numbered

variable {last : UInt32} {given : List UInt32}

theorem lt_next (h : Numbered last given) (hroom : last.toNat + 1 < 2 ^ 32) {seq : UInt32}
    (hseq : seq ∈ given) : seq < seqAfter last := by
  have hle := UInt32.le_iff_toNat_le.mp (h.within seq hseq).2
  rw [UInt32.lt_iff_toNat_lt, toNat_seqAfter hroom]
  omega

theorem next (h : Numbered last given) (hroom : last.toNat + 1 < 2 ^ 32) :
    Numbered (seqAfter last) (given ++ [seqAfter last]) where
  counted := by
    rw [toNat_seqAfter hroom, h.counted, List.length_append, List.length_singleton]
  ascending := by
    refine List.pairwise_append.mpr ⟨h.ascending, List.pairwise_singleton _ _, ?_⟩
    intro seq hseq next hnext
    rw [List.mem_singleton.mp hnext]
    exact h.lt_next hroom hseq
  within := by
    intro seq hseq
    rcases List.mem_append.mp hseq with hseq | hseq
    · exact ⟨(h.within seq hseq).1, UInt32.le_of_lt (h.lt_next hroom hseq)⟩
    · rw [List.mem_singleton.mp hseq]
      exact ⟨seqAfter_ne_zero last, UInt32.le_refl _⟩

end Numbered

/-- What an act does to the numbers that are awaited, by what is to be seen of it. -/
structure Yields (exchange after : Exchange) (more : List Entry) : Prop where
  numbered : ∀ given, Numbered exchange.seq given → Numbered after.seq (given ++ numbers more)
  keys : ∀ seq, seq ∈ after.awaited.keys ↔ (seq ∈ exchange.awaited.keys ∨ seq ∈ requests more) ∧
    seq ∉ answered more ∧ seq ∉ withdrawals more
  known : ∀ seq, seq ∈ answered more ∨ seq ∈ withdrawals more → seq ∈ exchange.awaited.keys
  once : (answered more).Nodup
  /-- Answers do not come in while others are given up. -/
  apart : answered more = [] ∨ withdrawals more = []

theorem yields_ask (exchange : Exchange) (hroom : exchange.seq.toNat + 1 < 2 ^ 32)
    (awaited : Awaited) :
    exchange.Yields (exchange.advance.expect awaited) [.asked (seqAfter exchange.seq)] where
  numbered _ h := h.next hroom
  keys seq := by
    show seq ∈ (exchange.awaited.insert (seqAfter exchange.seq) awaited).keys ↔
      (_ ∨ seq ∈ [seqAfter exchange.seq]) ∧ seq ∉ [] ∧ seq ∉ []
    rw [Table.mem_keys_insert, List.mem_singleton]
    simp [or_comm]
  known _ h := absurd h (by simp [answered, Incoming.answered, incoming, withdrawals])
  once := List.nodup_nil
  apart := Or.inl rfl

theorem yields_askInVain (exchange : Exchange) (hroom : exchange.seq.toNat + 1 < 2 ^ 32) :
    exchange.Yields exchange.advance [.askedInVain (seqAfter exchange.seq)] where
  numbered _ h := h.next hroom
  keys seq := by
    show seq ∈ exchange.awaited.keys ↔ (_ ∨ seq ∈ []) ∧ seq ∉ [] ∧ seq ∉ []
    simp
  known _ h := absurd h (by simp [answered, Incoming.answered, incoming, withdrawals])
  once := List.nodup_nil
  apart := Or.inl rfl

theorem yields_nil {exchange after : Exchange} (hlast : after.seq = exchange.seq)
    (hkeys : ∀ seq, seq ∈ after.awaited.keys ↔ seq ∈ exchange.awaited.keys) :
    exchange.Yields after [] where
  numbered given h := by
    show Numbered after.seq (given ++ [])
    rw [List.append_nil, hlast]
    exact h
  keys seq := by
    show _ ↔ (_ ∨ seq ∈ []) ∧ seq ∉ [] ∧ seq ∉ []
    rw [hkeys]
    simp
  known _ h := absurd h (by simp [answered, Incoming.answered, incoming, withdrawals])
  once := List.nodup_nil
  apart := Or.inl rfl

theorem yields_withdraw (exchange : Exchange) (seq : UInt32) :
    exchange.Yields (exchange.cancel seq)
      (if exchange.awaited.contains seq then [.withdrawn seq] else []) := by
  have hkeys (other : UInt32) : other ∈ (exchange.cancel seq).awaited.keys ↔
      other ∈ exchange.awaited.keys ∧ other ≠ seq := Table.mem_keys_erase
  by_cases hawaited : exchange.awaited.contains seq = true
  · rw [if_pos hawaited]
    refine ⟨fun given h => ?_, fun other => ?_, ?_, List.nodup_nil, Or.inl rfl⟩
    · show Numbered exchange.seq (given ++ [])
      rw [List.append_nil]
      exact h
    · show _ ↔ (_ ∨ other ∈ []) ∧ other ∉ [] ∧ other ∉ [seq]
      rw [hkeys, List.mem_singleton]
      simp
    · rintro other (hother | hother)
      · exact absurd hother List.not_mem_nil
      · rw [List.mem_singleton.mp hother]
        exact Table.mem_keys_iff.mpr (Table.contains_iff.mp hawaited)
  · rw [if_neg hawaited]
    refine yields_nil rfl fun other => (hkeys other).trans (and_iff_left_of_imp ?_)
    rintro hother rfl
    exact hawaited (Table.contains_iff.mpr (Table.mem_keys_iff.mp hother))

theorem Settles.yields {exchange after : Exchange} {messages : List Message}
    {incoming : List Incoming}
    (h : exchange.Settles after messages (Incoming.answered incoming)) :
    exchange.Yields after (incoming.map .came) := by
  have hanswered : answered (incoming.map .came) = Incoming.answered incoming := by
    rw [answered, incoming_came]
  refine ⟨fun given hgiven => ?_, fun seq => ?_, ?_, ?_, Or.inr (withdrawals_came incoming)⟩
  · rw [numbers_came, List.append_nil, h.seq]
    exact hgiven
  · rw [h.keys, hanswered, requests_came, withdrawals_came]
    simp
  · rw [hanswered, withdrawals_came]
    rintro seq (hseq | hseq)
    · exact (h.ended seq hseq).1
    · exact absurd hseq List.not_mem_nil
  · rw [hanswered]
    exact h.once

theorem yields_perform {exchange next : Exchange} {act : Act} {first : List Entry}
    (hperform : exchange.perform act = some (next, first))
    (hroom : exchange.seq.toNat + [act].countP Act.takesNumber < 2 ^ 32) :
    exchange.Yields next first := by
  cases act with
  | ask awaited =>
      cases hperform
      exact yields_ask exchange hroom awaited
  | askInVain =>
      cases hperform
      exact yields_askInVain exchange hroom
  | withdraw seq =>
      cases hperform
      exact yields_withdraw exchange seq
  | hear received =>
      rcases perform_hear hperform with ⟨incoming, hreceive, rfl⟩ | ⟨rfl, rfl⟩
      · exact (settles_receive hreceive).yields
      · exact yields_nil rfl fun _ => Iff.rfl

/-- What has been seen of an exchange accounts for what it awaits. -/
structure Accounts (exchange : Exchange) (log : List Entry) : Prop where
  numbered : Numbered exchange.seq (numbers log)
  awaits : ∀ seq, seq ∈ exchange.awaited.keys ↔
    seq ∈ requests log ∧ seq ∉ answered log ∧ seq ∉ withdrawals log
  withdrawn : withdrawals log ⊆ requests log
  once : (answered log).Nodup
  /-- An answer comes after the request, and before that is given up. -/
  inOrder : ∀ earlier seq result later, log = earlier ++ .came (.reply seq result) :: later →
    seq ∈ requests earlier ∧ seq ∉ withdrawals earlier

namespace Accounts

variable {exchange after : Exchange} {log more : List Entry}

theorem new (pid : UInt32) : (Exchange.new pid).Accounts [] where
  numbered := ⟨rfl, List.Pairwise.nil, fun _ hseq => absurd hseq List.not_mem_nil⟩
  awaits _ := ⟨fun hseq => absurd hseq List.not_mem_nil, fun hseq => absurd hseq.1 List.not_mem_nil⟩
  withdrawn := List.Subset.refl _
  once := List.nodup_nil
  inOrder _ _ _ _ hlog := by simp at hlog

theorem answered_subset (h : exchange.Accounts log) : answered log ⊆ requests log := by
  intro seq hseq
  obtain ⟨result, hmem⟩ := mem_answered_iff.mp hseq
  obtain ⟨earlier, later, hlog⟩ := List.append_of_mem hmem
  rw [hlog, requests_append]
  exact List.mem_append_left _ (h.inOrder earlier seq result later hlog).1

theorem inOrder_append (h : exchange.Accounts log)
    (hmore : ∀ earlier seq result later, more = earlier ++ .came (.reply seq result) :: later →
      seq ∈ requests (log ++ earlier) ∧ seq ∉ withdrawals (log ++ earlier)) :
    ∀ earlier seq result later, log ++ more = earlier ++ .came (.reply seq result) :: later →
      seq ∈ requests earlier ∧ seq ∉ withdrawals earlier := by
  intro earlier seq result later hlog
  rcases List.append_eq_append_iff.mp hlog with ⟨piece, rfl, hpiece⟩ | ⟨piece, hpiece, hrest⟩
  · exact hmore piece seq result later hpiece
  · cases piece with
    | nil =>
        rw [List.append_nil] at hpiece
        obtain rfl := hpiece
        have hfirst := hmore [] seq result later hrest.symm
        rw [List.append_nil] at hfirst
        exact hfirst
    | cons first piece =>
        obtain ⟨rfl, rfl⟩ := List.cons.inj hrest
        exact h.inOrder earlier seq result piece hpiece

theorem not_mem_requests (h : exchange.Accounts log) (hyields : exchange.Yields after more)
    {seq : UInt32} (hseq : seq ∈ requests more) : seq ∉ requests log := by
  intro hmem
  have hascending := (hyields.numbered _ h.numbered).ascending
  exact UInt32.lt_irrefl seq ((List.pairwise_append.mp hascending).2.2 seq
    (requests_subset log hmem) seq (requests_subset more hseq))

theorem extend (h : exchange.Accounts log) (hyields : exchange.Yields after more) :
    after.Accounts (log ++ more) := by
  refine ⟨?_, ?_, ?_, ?_, h.inOrder_append ?_⟩
  · rw [numbers_append]
    exact hyields.numbered _ h.numbered
  · intro seq
    have hfresh : seq ∈ requests more → seq ∉ answered log ∧ seq ∉ withdrawals log := by
      intro hseq
      have hnew := h.not_mem_requests hyields hseq
      exact ⟨fun hmem => hnew (h.answered_subset hmem), fun hmem => hnew (h.withdrawn hmem)⟩
    rw [hyields.keys, h.awaits, requests_append, answered_append, withdrawals_append,
      List.mem_append, List.mem_append, List.mem_append]
    tauto
  · rw [withdrawals_append, requests_append]
    refine List.append_subset.mpr ⟨fun seq hseq => ?_, fun seq hseq => ?_⟩
    · exact List.mem_append_left _ (h.withdrawn hseq)
    · exact List.mem_append_left _ ((h.awaits seq).mp (hyields.known seq (Or.inr hseq))).1
  · rw [answered_append]
    refine List.Nodup.append h.once hyields.once ?_
    intro seq hseq hmore
    exact ((h.awaits seq).mp (hyields.known seq (Or.inl hmore))).2.1 hseq
  · intro earlier seq result later hmore
    have hanswered : seq ∈ answered more :=
      mem_answered_iff.mpr ⟨result, hmore ▸ List.mem_append_right _ List.mem_cons_self⟩
    have hnone : withdrawals more = [] :=
      hyields.apart.resolve_left fun hnil => absurd (hnil ▸ hanswered) List.not_mem_nil
    obtain ⟨hrequest, -, hopen⟩ := (h.awaits seq).mp (hyields.known seq (Or.inl hanswered))
    rw [hmore, withdrawals_append, List.append_eq_nil_iff] at hnone
    rw [requests_append, withdrawals_append, hnone.1, List.append_nil]
    exact ⟨List.mem_append_left _ hrequest, hopen⟩

theorem run (h : exchange.Accounts log) {acts : List Act}
    (hroom : exchange.seq.toNat + acts.countP Act.takesNumber < 2 ^ 32) :
    (exchange.run acts).1.Accounts (log ++ (exchange.run acts).2) := by
  induction acts generalizing exchange log with
  | nil =>
      show exchange.Accounts (log ++ [])
      rw [List.append_nil]
      exact h
  | cons act rest ih =>
      rcases hperform : exchange.perform act with _ | ⟨next, first⟩
      · rw [run_crash hperform, List.append_nil]
        exact h
      rw [← List.singleton_append, List.countP_append, ← Nat.add_assoc] at hroom
      have hnext := h.extend (yields_perform hperform (Nat.lt_of_le_of_lt
        (Nat.le_add_right _ _) hroom))
      rw [run_cons hperform, ← List.append_assoc]
      -- The act has used up as many numbers as the log has got, so the room for the rest is what it
      -- was.
      refine ih hnext ?_
      have hcount : (numbers first).length = [act].countP Act.takesNumber := by
        rw [numbers_perform hperform, List.countP_singleton]
        split <;> rfl
      rw [hnext.numbered.counted, numbers_append, List.length_append, ← h.numbered.counted, hcount]
      exact hroom

end Accounts

theorem exists_ends_of_receive {exchange after : Exchange} {datagram : Bytes}
    {incoming : List Incoming} (h : exchange.receive (.ok datagram) = .ok (after, incoming)) :
    ∀ seq ∈ exchange.awaited.keys, seq ∉ after.awaited.keys →
      ∃ message ∈ messages datagram, message.Ends exchange.pid seq := by
  intro seq hseq hgone
  have hsettles := settles_receive h
  rw [hsettles.keys] at hgone
  exact (hsettles.ended seq (by tauto)).2

/-- Whether a datagram ends the program: one of its messages does, when those before it have been
taken. -/
def IsRuined (exchange : Exchange) (datagram : Bytes) : Prop :=
  ∃ taken message left middle, messages datagram = taken ++ message :: left ∧
    exchange.takeAll [] taken = .ok middle ∧ middle.1.Ruins message

theorem takeAll_eq_error_iff {exchange : Exchange} {before : List Incoming}
    {messages : List Message} {failure : Failure} :
    exchange.takeAll before messages = .error failure ↔
      failure = .crash ∧ ∃ taken message left middle, messages = taken ++ message :: left ∧
        exchange.takeAll before taken = .ok middle ∧ middle.1.Ruins message := by
  induction messages generalizing exchange before with
  | nil =>
      refine ⟨nofun, ?_⟩
      rintro ⟨-, taken, message, left, -, hnil, -⟩
      exact absurd hnil (by simp)
  | cons first rest ih =>
      rcases htake : exchange.take first with told | ⟨next, incoming⟩
      · obtain ⟨rfl, hruins⟩ := take_eq_error_iff.mp htake
        rw [takeAll, htake]
        constructor
        · intro h
          exact ⟨(Except.error.inj h).symm, [], first, rest, (exchange, before), rfl, rfl, hruins⟩
        · rintro ⟨rfl, -⟩
          rfl
      rw [takeAll_cons_of_take htake, ih]
      refine and_congr_right fun _ => ?_
      constructor
      · rintro ⟨taken, message, left, middle, rfl, htaken, hruins⟩
        exact ⟨first :: taken, message, left, middle, rfl,
          takeAll_cons_eq_ok_iff.mpr ⟨next, incoming, htake, htaken⟩, hruins⟩
      · rintro ⟨taken, message, left, middle, hmessages, htaken, hruins⟩
        cases taken with
        | nil =>
            obtain ⟨rfl, -⟩ := List.cons.inj hmessages
            cases htaken
            have hcrash := take_eq_error_iff.mpr ⟨rfl, hruins⟩
            exact absurd (htake.symm.trans hcrash) (by simp)
        | cons second taken =>
            obtain ⟨rfl, rfl⟩ := List.cons.inj hmessages
            obtain ⟨other, heard, hother, htaken⟩ := takeAll_cons_eq_ok_iff.mp htaken
            obtain ⟨rfl, rfl⟩ := Prod.mk.inj (Except.ok.inj (htake.symm.trans hother))
            exact ⟨taken, message, left, middle, rfl, htaken, hruins⟩

/-- As long as numbers do not run out, none is used twice, every request is answered at most once
and while it is awaited, what is awaited is what was sent and neither answered nor given up, and
only a message that ends a request answers it. A datagram is taken unless one of its messages ends
the program. -/
theorem correlates (pid : UInt32) {acts : List Act}
    (hroom : acts.countP Act.takesNumber < 2 ^ 32 - 1) :
    let (exchange, log) := (new pid).run acts
    ((numbers log).Nodup ∧ ∀ seq ∈ numbers log, seq ≠ 0) ∧
      ((answered log).Nodup ∧ ∀ earlier seq result later,
        log = earlier ++ .came (.reply seq result) :: later →
          seq ∈ requests earlier ∧ seq ∉ withdrawals earlier) ∧
      (∀ seq, seq ∈ exchange.awaited.keys ↔
        seq ∈ requests log ∧ seq ∉ answered log ∧ seq ∉ withdrawals log) ∧
      ∀ earlier datagram later, acts = earlier ++ .hear (.ok datagram) :: later →
        let before := ((new pid).run earlier).1
        (∀ after incoming, before.receive (.ok datagram) = .ok (after, incoming) →
          ∀ seq ∈ before.awaited.keys, seq ∉ after.awaited.keys →
            ∃ message ∈ messages datagram, message.Ends pid seq) ∧
          ∀ failure, before.receive (.ok datagram) = .error failure ↔
            failure = .crash ∧ before.IsRuined datagram := by
  have hstart : (new pid).seq.toNat + acts.countP Act.takesNumber < 2 ^ 32 := by
    show 0 + _ < _
    omega
  have haccounts : ((new pid).run acts).1.Accounts ((new pid).run acts).2 :=
    (Accounts.new pid).run hstart
  refine ⟨⟨?_, fun seq hseq => (haccounts.numbered.within seq hseq).1⟩,
    ⟨haccounts.once, haccounts.inOrder⟩, haccounts.awaits, ?_⟩
  · exact haccounts.numbered.ascending.imp UInt32.ne_of_lt
  · intro earlier datagram later _ before
    refine ⟨fun after incoming hreceive => ?_, fun failure => takeAll_eq_error_iff⟩
    have hends := exists_ends_of_receive hreceive
    rw [pid_run] at hends
    exact hends

/-- Three requests are sent, and one fails to be. Then the first is given up, and reports come in on
it, on the second one, twice, and on one that nobody sent. -/
def conversation : List Act :=
  let report (seq : UInt32) : Bytes :=
    (ackReport ⟨16, MessageType.newLink, Flag.ack, seq, 77⟩).toBytes
  [.ask .ack, .ask (fresh .link .whole), .askInVain, .ask .ack, .withdraw 1,
    .hear (.ok (report 1 ++ report 2 ++ report 2 ++ report 9 ++ [0]))]

theorem correlates_conversation :
    let (exchange, log) := (new 77).run conversation
    conversation.countP Act.takesNumber < 2 ^ 32 - 1 ∧ exchange.awaited.keys = [4] ∧
      answered log = [2] ∧ withdrawals log = [1] ∧
      ∀ seq, seq ∈ exchange.awaited.keys ↔
        seq ∈ requests log ∧ seq ∉ answered log ∧ seq ∉ withdrawals log := by
  have hroom : conversation.countP Act.takesNumber < 2 ^ 32 - 1 := by decide
  exact ⟨hroom, by decide +kernel, by decide +kernel, by decide +kernel,
    (correlates 77 hroom).2.2.1⟩

/-- A message about a link whose largest packet is told in a single octet. -/
def shortMessage : Bytes :=
  (Draft.new MessageType.newLink 0
    [.raw (LinkHead.toBytes ⟨0, 1, 2, 0, 0⟩), .leaf Link.mtuAttr [1]]).toBytes

theorem exists_receive_crash : ∃ datagram, (new 77).receive (.ok datagram) = .error .crash :=
  ⟨shortMessage, eq_crash_of_isCrash (by decide +kernel)⟩

end NetState.Exchange
