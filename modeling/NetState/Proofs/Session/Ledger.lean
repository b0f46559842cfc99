import Mathlib.Data.List.Pairwise
import NetState.Proofs.Awaited
import NetState.Proofs.Session.Stage
import NetState.Proofs.Session.Transmit

/-!
Which answers a session waits for: one to each request that an operation has sent, and besides these
only the one to the listing that is under way.

Numbers of requests are words of 32 bits, and begin anew after the last one. So all this is known as
long as they have not run out.
-/

namespace NetState

/-- The numbers of the requests that the operations under way wait for. -/
def Session.tokens (session : Session) : List UInt32 :=
  session.operations.filterMap Operation.seq?

namespace Operation

variable {operations : List Operation} {seq : UInt32}

theorem tokens_cons (op : Operation) (rest : List Operation) :
    (op :: rest).filterMap Operation.seq? =
      op.seq?.toList ++ rest.filterMap Operation.seq? := by
  rw [List.filterMap_cons]
  cases op.seq? <;> rfl

theorem eq_of_seq? (h : (operations.filterMap seq?).Nodup) {first second : Operation}
    (hfirst : first ∈ operations) (hsecond : second ∈ operations)
    (hfirstSeq : first.seq? = some seq) (hsecondSeq : second.seq? = some seq) :
    first = second := by
  have hpairs := List.pairwise_filterMap.mp (List.nodup_iff_pairwise_ne.mp h)
  by_contra hne
  have hsymm : Std.Symm fun a b : Operation =>
      ∀ c, a.seq? = some c → ∀ d, b.seq? = some d → c ≠ d :=
    ⟨fun _ _ hab c hc d hd hcd => hab d hd c hc hcd.symm⟩
  exact hpairs.forall hfirst hsecond hne seq hfirstSeq seq hsecondSeq rfl

theorem seq?_advance (op : Operation) (deadline : Nat) : (op.advance deadline).seq? = none := by
  rw [advance, Operation.seq?]
  cases op.steps.tail <;> rfl

theorem seq?_of_isDue {op : Operation} {now : Nat} (h : op.isDue now = true) : op.seq? = none := by
  rw [isDue] at h
  rw [Operation.seq?]
  split
  · rename_i hstage
    rw [hstage] at h
    exact absurd h (by simp)
  · rfl

theorem eq_of_id (h : (operations.map Operation.id).Nodup) {first second : Operation}
    (hfirst : first ∈ operations) (hsecond : second ∈ operations) (hid : first.id = second.id) :
    first = second :=
  List.inj_on_of_nodup_map h hfirst hsecond hid

theorem mem_tokens_filter (h : (operations.filterMap seq?).Nodup) (keep : Operation → Bool) :
    seq ∈ (operations.filter keep).filterMap seq? ↔
      seq ∈ operations.filterMap seq? ∧ seq ∉ (operations.filter (!keep ·)).filterMap seq? := by
  simp only [List.mem_filterMap, List.mem_filter]
  constructor
  · rintro ⟨op, ⟨hop, hkeep⟩, hseq⟩
    refine ⟨⟨op, hop, hseq⟩, ?_⟩
    rintro ⟨other, ⟨hother, hdrop⟩, hotherSeq⟩
    rw [eq_of_seq? h hother hop hotherSeq hseq, hkeep] at hdrop
    exact absurd hdrop (by simp)
  · rintro ⟨⟨op, hop, hseq⟩, hothers⟩
    refine ⟨op, ⟨hop, ?_⟩, hseq⟩
    by_contra hdrop
    exact hothers ⟨op, ⟨hop, by simpa using hdrop⟩, hseq⟩

theorem sublist_filterMap {waits : Operation → Option UInt32}
    (h : ∀ op ∈ operations, waits op = none ∨ waits op = op.seq?) :
    (operations.filterMap waits).Sublist (operations.filterMap seq?) := by
  induction operations with
  | nil => exact List.Sublist.slnil
  | cons op rest ih =>
      have hrest := ih fun other hother => h other (List.mem_cons_of_mem op hother)
      rw [List.filterMap_cons, List.filterMap_cons]
      rcases h op List.mem_cons_self with hnone | hsame
      · rw [hnone]
        cases op.seq? with
        | none => exact hrest
        | some seq => exact hrest.cons seq
      · rw [hsame]
        cases op.seq? with
        | none => exact hrest
        | some seq => exact hrest.cons_cons seq

end Operation

namespace Exchange

theorem mem_keys_cancelAll {exchange : Exchange} {seqs : List UInt32} {seq : UInt32} :
    seq ∈ (seqs.foldl cancel exchange).awaited.keys ↔
      seq ∈ exchange.awaited.keys ∧ seq ∉ seqs := by
  induction seqs generalizing exchange with
  | nil => simp
  | cons first rest ih =>
      rw [List.foldl_cons, ih, cancel, Table.mem_keys_erase, List.mem_cons]
      tauto

theorem seq_cancelAll (exchange : Exchange) (seqs : List UInt32) :
    (seqs.foldl cancel exchange).seq = exchange.seq :=
  Cancels.seq_eq ⟨seqs, rfl⟩

end Exchange

/-- Whether an exchange waits for what it should: for the answers to requests numbered `tokens` but
for those that are `owing`, which have come in and are still to be looked at, and besides for the
listing that is under way. -/
structure Ledger (exchange : Exchange) (tokens : List UInt32) (listing : Option UInt32)
    (owing : List UInt32) : Prop where
  distinct : tokens.Nodup
  backed : ∀ seq ∈ tokens, seq ∈ exchange.awaited.keys ∨ seq ∈ owing
  owned : ∀ seq ∈ exchange.awaited.keys, seq ∈ tokens ∨ listing = some seq
  apart : ∀ seq ∈ owing, seq ∉ exchange.awaited.keys
  foreign : ∀ seq ∈ tokens, listing ≠ some seq
  within : ∀ seq ∈ tokens, seq ≤ exchange.seq

namespace Ledger

variable {exchange after : Exchange} {tokens left owing : List UInt32} {listing : Option UInt32}

theorem new (pid : UInt32) : Ledger (Exchange.new pid) [] none [] where
  distinct := List.nodup_nil
  backed _ hmem := absurd hmem List.not_mem_nil
  owned _ hkey := absurd hkey List.not_mem_nil
  apart _ howing := absurd howing List.not_mem_nil
  foreign _ hmem := absurd hmem List.not_mem_nil
  within _ hmem := absurd hmem List.not_mem_nil

theorem cancel (h : Ledger exchange tokens listing owing) (hleft : left.Sublist tokens)
    (hkeys : ∀ seq, seq ∈ after.awaited.keys ↔
      seq ∈ exchange.awaited.keys ∧ (seq ∈ tokens → seq ∈ left))
    (hseq : after.seq = exchange.seq) : Ledger after left listing owing where
  distinct := h.distinct.sublist hleft
  backed seq hmem := by
    rcases h.backed seq (hleft.subset hmem) with hkey | howing
    · exact Or.inl ((hkeys seq).mpr ⟨hkey, fun _ => hmem⟩)
    · exact Or.inr howing
  owned seq hkey := by
    obtain ⟨hkey, hkept⟩ := (hkeys seq).mp hkey
    exact (h.owned seq hkey).imp_left hkept
  apart seq howing hkey := h.apart seq howing ((hkeys seq).mp hkey).1
  foreign seq hmem := h.foreign seq (hleft.subset hmem)
  within seq hmem := hseq ▸ h.within seq (hleft.subset hmem)

theorem answers (h : Ledger exchange tokens listing []) (hanswers : exchange.Answers after owing) :
    Ledger after tokens listing owing where
  distinct := h.distinct
  backed seq hmem := by
    have hkey := (h.backed seq hmem).resolve_right List.not_mem_nil
    by_cases howing : seq ∈ owing
    · exact Or.inr howing
    · exact Or.inl ((hanswers.keys seq).mpr ⟨hkey, howing⟩)
  owned seq hkey := h.owned seq ((hanswers.keys seq).mp hkey).1
  apart seq howing hkey := ((hanswers.keys seq).mp hkey).2 howing
  foreign := h.foreign
  within seq hmem := hanswers.seq ▸ h.within seq hmem

theorem settle {seq : UInt32} (h : Ledger exchange tokens listing (seq :: owing))
    (hleft : left.Sublist tokens) (hmem : ∀ other, other ∈ left ↔ other ∈ tokens ∧ other ≠ seq) :
    Ledger exchange left listing owing where
  distinct := h.distinct.sublist hleft
  backed other hother := by
    obtain ⟨hother, hne⟩ := (hmem other).mp hother
    rcases h.backed other hother with hkey | howing
    · exact Or.inl hkey
    · exact Or.inr ((List.mem_cons.mp howing).resolve_left hne)
  owned other hkey := by
    refine (h.owned other hkey).imp_left fun hother => (hmem other).mpr ⟨hother, ?_⟩
    rintro rfl
    exact h.apart other List.mem_cons_self hkey
  apart other howing := h.apart other (List.mem_cons_of_mem seq howing)
  foreign other hother := h.foreign other (hleft.subset hother)
  within other hother := h.within other (hleft.subset hother)

theorem hear {seq : UInt32} {more : List UInt32} (h : Ledger exchange tokens (some seq) owing)
    (hmore : ∀ other, other ∈ more ↔ other ∈ owing ∧ other ≠ seq)
    (hlisting : listing = some seq ∨ listing = none ∧ seq ∈ owing) :
    Ledger exchange tokens listing more where
  distinct := h.distinct
  backed other hother := by
    have hne : other ≠ seq := by
      rintro rfl
      exact h.foreign other hother rfl
    exact (h.backed other hother).imp_right fun howing => (hmore other).mpr ⟨howing, hne⟩
  owned other hkey := by
    refine (h.owned other hkey).imp_right fun hother => ?_
    rcases hlisting with hsame | ⟨-, howing⟩
    · rw [hsame]
      exact hother
    · rw [Option.some.inj hother] at howing
      exact absurd hkey (h.apart other howing)
  apart other howing := h.apart other ((hmore other).mp howing).1
  foreign other hother := by
    rcases hlisting with rfl | ⟨rfl, -⟩
    · exact h.foreign other hother
    · simp
  within := h.within

theorem giveUp {seq : UInt32} (h : Ledger exchange tokens (some seq) []) :
    Ledger (exchange.cancel seq) tokens none [] where
  distinct := h.distinct
  backed other hother := by
    have hkey := (h.backed other hother).resolve_right List.not_mem_nil
    refine Or.inl (Table.mem_keys_erase.mpr ⟨hkey, ?_⟩)
    rintro rfl
    exact h.foreign other hother rfl
  owned other hkey := by
    obtain ⟨hkey, hne⟩ := Table.mem_keys_erase.mp hkey
    refine (h.owned other hkey).imp_right fun hother => ?_
    exact absurd (Option.some.inj hother).symm hne
  apart _ howing := absurd howing List.not_mem_nil
  foreign _ _ := by simp
  within := h.within

section

variable (hroom : exchange.seq.toNat + 1 < 2 ^ 32)

include hroom

theorem lt_seqAfter (h : Ledger exchange tokens listing owing) {seq : UInt32}
    (hseq : seq ∈ tokens) :
    seq < Exchange.seqAfter exchange.seq := by
  have hwithin := UInt32.le_iff_toNat_le.mp (h.within seq hseq)
  rw [UInt32.lt_iff_toNat_lt, Exchange.toNat_seqAfter hroom]
  omega

theorem advance (h : Ledger exchange tokens listing owing) :
    Ledger exchange.advance tokens listing owing :=
  ⟨h.distinct, h.backed, h.owned, h.apart, h.foreign,
    fun _ hseq => UInt32.le_of_lt (h.lt_seqAfter hroom hseq)⟩

theorem ask (h : Ledger exchange tokens none []) (awaited : Awaited) :
    Ledger (exchange.advance.expect awaited) tokens (some (Exchange.seqAfter exchange.seq)) [] where
  distinct := h.distinct
  backed seq hseq := by
    have hkey := (h.backed seq hseq).resolve_right List.not_mem_nil
    exact Or.inl (Table.mem_keys_insert.mpr (Or.inr hkey))
  owned seq hkey := by
    rcases Table.mem_keys_insert.mp hkey with rfl | hkey
    · exact Or.inr rfl
    · exact Or.inl ((h.owned seq hkey).resolve_right (by simp))
  apart _ howing := absurd howing List.not_mem_nil
  foreign seq hseq hsame := by
    have hlt := h.lt_seqAfter hroom hseq
    rw [Option.some.inj hsame] at hlt
    exact UInt32.lt_irrefl _ hlt
  within := (h.advance hroom).within

theorem send {before rest : List UInt32} (h : Ledger exchange (before ++ rest) none [])
    (awaited : Awaited) :
    Ledger (exchange.advance.expect awaited)
      (before ++ Exchange.seqAfter exchange.seq :: rest) none [] := by
  have hask := h.ask hroom awaited
  have hnew : Exchange.seqAfter exchange.seq ∉ before ++ rest :=
    fun hmem => UInt32.lt_irrefl _ (h.lt_seqAfter hroom hmem)
  have hmem (seq : UInt32) : seq ∈ before ++ Exchange.seqAfter exchange.seq :: rest ↔
      seq = Exchange.seqAfter exchange.seq ∨ seq ∈ before ++ rest := by
    simp only [List.mem_append, List.mem_cons]
    tauto
  refine ⟨?_, ?_, ?_, hask.apart, fun _ _ => by simp, ?_⟩
  · rw [List.nodup_middle, List.nodup_cons]
    exact ⟨hnew, h.distinct⟩
  · intro seq hseq
    rcases (hmem seq).mp hseq with rfl | hseq
    · exact Or.inl (Table.mem_keys_insert.mpr (Or.inl rfl))
    · exact hask.backed seq hseq
  · intro seq hkey
    refine Or.inl ((hmem seq).mpr ?_)
    rcases hask.owned seq hkey with hseq | hsame
    · exact Or.inr hseq
    · exact Or.inl (Option.some.inj hsame).symm
  · intro seq hseq
    rcases (hmem seq).mp hseq with rfl | hseq
    · exact UInt32.le_refl _
    · exact hask.within seq hseq

end

end Ledger

namespace Session

variable {session after : Session} {listing : Option UInt32} {owing : List UInt32}

theorem ledger_filter {keep : Operation → Bool}
    (h : Ledger session.exchange session.tokens listing owing)
    (hoperations : after.operations = session.operations.filter keep)
    (hexchange : after.exchange =
      ((session.operations.filter (!keep ·)).filterMap Operation.seq?).foldl Exchange.cancel
        session.exchange) :
    Ledger after.exchange after.tokens listing owing := by
  rw [tokens, hoperations, hexchange]
  refine h.cancel (List.filter_sublist.filterMap _) (fun seq => ?_) (Exchange.seq_cancelAll _ _)
  rw [Exchange.mem_keys_cancelAll]
  refine and_congr_right fun _ => ?_
  constructor
  · intro hdropped hmem
    exact (Operation.mem_tokens_filter h.distinct keep).mpr ⟨hmem, hdropped⟩
  · intro hkept hdropped
    have hmem := (List.filter_sublist.filterMap Operation.seq?).subset hdropped
    exact ((Operation.mem_tokens_filter h.distinct keep).mp (hkept hmem)).2 hdropped

theorem ledger_confirm (h : Ledger session.exchange session.tokens listing owing) :
    Ledger session.confirm.exchange session.confirm.tokens listing owing := by
  refine ledger_filter h rfl ?_
  have hnone : (session.operations.filter fun op =>
      !((session.confirmation? op).map Except.ok : Option (Except Fault Outcome)).isNone).filterMap
        Operation.seq? = [] := by
    rw [List.filterMap_eq_nil_iff]
    intro op hop
    have hshown := (List.mem_filter.mp hop).2
    rw [confirmation?] at hshown
    split at hshown
    · rename_i hacked
      exact Operation.seq?_of_isAcked hacked
    · exact absurd hshown (by simp)
  rw [hnone]
  rfl

theorem ledger_expire (h : Ledger session.exchange session.tokens listing owing) (now : Nat) :
    Ledger (session.expire now).exchange (session.expire now).tokens listing owing := by
  refine ledger_filter h rfl ?_
  simp only [Option.not_isNone]
  rfl

theorem ledger_abandon (h : Ledger session.exchange session.tokens listing owing)
    (interface : UInt32) :
    Ledger (session.abandon interface).exchange (session.abandon interface).tokens listing
      owing := by
  refine ledger_filter h rfl ?_
  have hdependent (op : Operation) : (!(if op.target? == some interface then
      some (.ok .abandoned) else none : Option (Except Fault Outcome)).isNone) =
        (op.target? == some interface) := by
    cases op.target? == some interface <;> rfl
  simp only [hdependent]
  rfl

theorem ledger_ignore {seq : UInt32}
    (h : Ledger session.exchange session.tokens listing (seq :: owing))
    (hnone : ∀ op ∈ session.operations, op.seq? ≠ some seq) :
    Ledger session.exchange session.tokens listing owing := by
  refine h.settle (List.Sublist.refl _) fun other => ⟨fun hother => ⟨hother, ?_⟩, And.left⟩
  rintro rfl
  obtain ⟨op, hop, hseq⟩ := List.mem_filterMap.mp hother
  exact hnone op hop hseq

section

variable {op : Operation} {seq : UInt32} (hids : (session.operations.map Operation.id).Nodup)
  (hop : op ∈ session.operations) (hseq : op.seq? = some seq)
  (h : Ledger session.exchange session.tokens listing (seq :: owing))

include hids hop hseq h

/-- The operation that an answer is for waits for it no longer, and all others wait as before. -/
theorem ledger_answered (waits : Operation → Option UInt32)
    (hsame : ∀ other, other.id ≠ op.id → waits other = other.seq?)
    (hnone : ∀ other, other.id = op.id → waits other = none) :
    Ledger session.exchange (session.operations.filterMap waits) listing owing := by
  refine h.settle (Operation.sublist_filterMap fun other _ => ?_) fun number => ?_
  · by_cases hid : other.id = op.id
    · exact Or.inl (hnone other hid)
    · exact Or.inr (hsame other hid)
  · rw [tokens, List.mem_filterMap, List.mem_filterMap]
    constructor
    · rintro ⟨other, hother, hwaits⟩
      have hid : other.id ≠ op.id := by
        intro hid
        rw [hnone other hid] at hwaits
        exact absurd hwaits (by simp)
      rw [hsame other hid] at hwaits
      refine ⟨⟨other, hother, hwaits⟩, ?_⟩
      rintro rfl
      exact hid (congrArg Operation.id (Operation.eq_of_seq? h.distinct hother hop hwaits hseq))
    · rintro ⟨⟨other, hother, hotherSeq⟩, hne⟩
      refine ⟨other, hother, ?_⟩
      rw [hsame other, hotherSeq]
      intro hid
      rw [Operation.eq_of_id hids hother hop hid, hseq] at hotherSeq
      exact hne (Option.some.inj hotherSeq).symm

theorem ledger_finish (result : Except Fault Outcome) :
    Ledger (session.finish op result).exchange (session.finish op result).tokens listing owing := by
  rw [tokens, finish, List.filterMap_filter]
  exact ledger_answered hids hop hseq h _ (fun other hother => by simp [hother])
    fun other hother => by simp [hother]

theorem ledger_update {new : Operation} (hid : new.id = op.id) (hnew : new.seq? = none) :
    Ledger (session.update new).exchange (session.update new).tokens listing owing := by
  rw [tokens, update, List.filterMap_map]
  exact ledger_answered hids hop hseq h _ (fun other hother => by simp [hid, hother])
    fun other hother => by simp [hid, hother, hnew]

end

theorem Replied.ledger {after : Session} {now : Nat} {seq : UInt32} {result : Except Fault Reply}
    (hreplied : session.Replied now seq result after)
    (hids : (session.operations.map Operation.id).Nodup)
    (h : Ledger session.exchange session.tokens listing (seq :: owing)) :
    Ledger after.exchange after.tokens listing owing := by
  cases hreplied with
  | ignored hfind =>
      refine ledger_ignore h fun op hop hseq => ?_
      exact absurd (List.find?_eq_none.mp hfind op hop) (by simp [hseq])
  | @acked op hfind | @skipped op _ hfind =>
      exact ledger_update hids (List.mem_of_find?_eq_some hfind) (seq?_of_find? hfind) h rfl
        (op.seq?_advance _)
  | @gone op _ watched hfind =>
      exact @ledger_finish { session with watched } listing owing op seq hids
        (List.mem_of_find?_eq_some hfind) (seq?_of_find? hfind) h _
  | postponed hfind =>
      exact ledger_update hids (List.mem_of_find?_eq_some hfind) (seq?_of_find? hfind) h rfl rfl
  | failed hfind =>
      exact ledger_finish hids (List.mem_of_find?_eq_some hfind) (seq?_of_find? hfind) h _

theorem ledger_takeRemoval (h : Ledger session.exchange session.tokens listing owing)
    (slot : Slot) :
    Ledger (session.takeRemoval slot).exchange (session.takeRemoval slot).tokens listing owing := by
  have hconfirm := @ledger_confirm { session with watched := (session.watched.remove slot).2 }
    listing owing h
  rcases session.takeRemoval_cases slot with ⟨-, hkept⟩ | ⟨l, -, hgone⟩
  · rw [hkept]
    exact hconfirm
  · rw [hgone]
    exact ledger_abandon hconfirm _

theorem ledger_take (hids : (session.operations.map Operation.id).Nodup) {incoming : Incoming}
    {rest : List Incoming}
    (h : Ledger session.exchange session.tokens listing (Incoming.answered (incoming :: rest)))
    (now : Nat) :
    Ledger (session.take now incoming).exchange (session.take now incoming).tokens listing
      (Incoming.answered rest) := by
  cases incoming with
  | notice kind change object =>
      cases change with
      | new =>
          exact @ledger_confirm { session with watched := (session.watched.upsert object).2 } _ _ h
      | del => exact ledger_takeRemoval h _
  | reply seq result =>
      exact ledger_confirm ((session.replied_takeReply now seq result).ledger hids h)
  | part seq objects => exact ledger_confirm h
  | overrun => exact @ledger_confirm { session with stale := true } _ _ h

theorem ledger_takeAll {limit : Nat} (hstaged : Operation.Staged limit session.operations)
    {incoming : List Incoming}
    (h : Ledger session.exchange session.tokens listing (Incoming.answered incoming)) (now : Nat) :
    Ledger (incoming.foldl (Session.take · now) session).exchange
      (incoming.foldl (Session.take · now) session).tokens listing [] := by
  induction incoming generalizing session with
  | nil => exact h
  | cons first rest ih =>
      exact ih ((progresses_take session now first).staged hstaged)
        (ledger_take hstaged.distinct h now)

theorem ledger_reconcile (h : Ledger session.exchange session.tokens listing owing) (kind : Kind)
    (objects : List Object) :
    Ledger (session.reconcile kind objects).2.exchange (session.reconcile kind objects).2.tokens
      listing owing := by
  rw [reconcile]
  rcases session.watched.reconcile kind objects with ⟨tally, watched⟩
  have hconfirm := @ledger_confirm { session with watched } listing owing h
  refine @List.foldlRecOn _ _
    (fun session : Session => Ledger session.exchange session.tokens listing owing) _ abandon _
    hconfirm ?_
  intro session hsession interface _
  exact ledger_abandon hsession interface

end Session

namespace World

theorem exchange_of_transmit_error {world after : World} {draft : Draft} {awaited : Awaited}
    {fault : Fault} (h : world.transmit draft awaited = (after, .error fault)) :
    after.session.exchange = world.session.exchange.advance := by
  rw [transmit] at h
  simp only at h
  split at h <;> cases h
  rfl

theorem exchange_transmitStep {world after : World} {step : Step} {result : Except Fault UInt32}
    (h : world.transmitStep step = (after, result)) :
    ((step.object.request step.verb).toBool = false ∧ after = world ∧
        ∃ fault, result = .error fault) ∨
      (step.object.request step.verb).toBool = true ∧
        ((result = .ok (Exchange.seqAfter world.session.exchange.seq) ∧
            after.session.exchange = world.session.exchange.advance.expect .ack) ∨
          (∃ fault, result = .error fault) ∧
            after.session.exchange = world.session.exchange.advance) := by
  rcases world.transmitStep_cases step with
    ⟨fault, hrequest, -, hsend⟩ | ⟨draft, hrequest, -, hsend⟩
  · obtain ⟨rfl, rfl⟩ := Prod.mk.inj (hsend.symm.trans h)
    rw [hrequest]
    exact Or.inl ⟨rfl, rfl, fault, rfl⟩
  · rw [hrequest]
    rw [hsend] at h
    refine Or.inr ⟨rfl, ?_⟩
    cases result with
    | ok seq =>
        obtain ⟨rfl, rfl⟩ := transmit_eq_ok h
        exact Or.inl ⟨rfl, rfl⟩
    | error fault => exact Or.inr ⟨⟨fault, rfl⟩, exchange_of_transmit_error h⟩

theorem ledger_pumpOne {world : World} {op : Operation} {before rest : List UInt32}
    (h : Ledger world.session.exchange (before ++ (op.seq?.toList ++ rest)) none [])
    (hroom : world.session.exchange.seq.toNat + (if op.takesNumber world.now then 1 else 0) <
      2 ^ 32) :
    Ledger (world.pumpOne op).1.session.exchange
        (before ++ (((world.pumpOne op).2.toOption.bind Operation.seq?).toList ++ rest)) none [] ∧
      (world.pumpOne op).1.session.exchange.seq.toNat =
        world.session.exchange.seq.toNat + (if op.takesNumber world.now then 1 else 0) := by
  rw [Operation.takesNumber] at hroom ⊢
  rcases world.pumpOne_cases op with ⟨hidle, hrest⟩ | ⟨step, hstep, hdue, hsend⟩
  · have hnone : (op.isDue world.now && op.current?.any fun step =>
        (step.object.request step.verb).toBool) = false := by
      rcases hidle with hnone | hdue
      · rw [hnone, Option.any_none, Bool.and_false]
      · rw [hdue, Bool.false_and]
    rw [hrest, hnone]
    exact ⟨h, rfl⟩
  · rw [hstep, hdue, Option.any_some, Bool.true_and] at hroom ⊢
    rw [Operation.seq?_of_isDue hdue] at h
    rw [hsend]
    rcases htransmit : world.transmitStep step with ⟨after, result⟩
    rcases exchange_transmitStep htransmit with ⟨hmade, rfl, fault, rfl⟩ | ⟨hmade, hsent⟩
    · rw [hmade]
      exact ⟨h, rfl⟩
    · rw [hmade] at hroom ⊢
      have hnumber := Exchange.toNat_seqAfter hroom
      rcases hsent with ⟨rfl, hexchange⟩ | ⟨⟨fault, rfl⟩, hexchange⟩
      · simp only [hexchange]
        exact ⟨h.send hroom .ack, hnumber⟩
      · simp only [hexchange]
        exact ⟨h.advance hroom, hnumber⟩

theorem ledger_pumpEach {world : World} {operations : List Operation} {before : List UInt32}
    (h : Ledger world.session.exchange (before ++ operations.filterMap Operation.seq?) none [])
    (hroom : world.session.exchange.seq.toNat +
      operations.countP (·.takesNumber world.now) < 2 ^ 32) :
    Ledger (world.pumpEach operations).1.session.exchange
        (before ++ (world.pumpEach operations).2.1.filterMap Operation.seq?) none [] ∧
      (world.pumpEach operations).1.session.exchange.seq.toNat =
        world.session.exchange.seq.toNat + operations.countP (·.takesNumber world.now) := by
  -- On the operations still to be pumped. `before` are the tokens of those that have been, which
  -- wait further on in the same ledger.
  induction operations generalizing world before with
  | nil => exact ⟨h, rfl⟩
  | cons op rest ih =>
      rw [List.countP_cons] at hroom ⊢
      rw [Operation.tokens_cons] at h
      obtain ⟨hone, hnumber⟩ := ledger_pumpOne h (by omega)
      have hnow := (sends_pumpOne world op).now
      rcases hpumped : world.pumpOne op with ⟨middle, fault | pumped⟩
      · rw [hpumped] at hone hnumber hnow
        simp only at hnumber hnow
        have hrest := @ih middle before hone (by rw [hnow]; omega)
        rw [hnow] at hrest
        rw [pumpEach_cons_error hpumped]
        exact ⟨hrest.1, by rw [hrest.2]; omega⟩
      · rw [hpumped] at hone hnumber hnow
        simp only at hnumber hnow
        have hmiddle : Ledger middle.session.exchange
            (before ++ pumped.seq?.toList ++ rest.filterMap Operation.seq?) none [] := by
          rw [List.append_assoc]
          exact hone
        have hrest := ih hmiddle (by rw [hnow]; omega)
        rw [hnow, List.append_assoc, ← Operation.tokens_cons] at hrest
        rw [pumpEach_cons_ok hpumped]
        exact ⟨hrest.1, by rw [hrest.2]; omega⟩

theorem ledger_pump {world : World}
    (h : Ledger world.session.exchange world.session.tokens none [])
    (hroom : world.session.exchange.seq.toNat +
      world.session.operations.countP (·.takesNumber world.now) < 2 ^ 32) :
    Ledger world.pump.session.exchange world.pump.session.tokens none [] ∧
      world.pump.session.exchange.seq.toNat =
        world.session.exchange.seq.toNat +
          world.session.operations.countP (·.takesNumber world.now) :=
  @ledger_pumpEach world world.session.operations [] h hroom

end World

theorem Mark.total_losses (incoming : List Incoming) : total (losses incoming) = 0 := by
  induction incoming with
  | nil => rfl
  | cons first rest ih =>
      cases first with
      | overrun => exact (Nat.zero_add _).trans ih
      | _ => exact ih

theorem Mark.total_delivered (received : Except Fault Bytes) (trace : List Mark) :
    total (.delivered received :: trace) = total trace :=
  Nat.zero_add _

/-- Whether the socket never failed while a listing was awaited, but for messages that were lost. -/
def Mark.Unfailing (trace : List Mark) : Prop :=
  ∀ fault, .delivered (.error fault) ∈ trace → fault.isOverrun = true

namespace Mark.Unfailing

variable {trace more : List Mark}

theorem left (h : Unfailing (trace ++ more)) : Unfailing trace :=
  fun fault hmem => h fault (List.mem_append_left more hmem)

theorem right (h : Unfailing (trace ++ more)) : Unfailing more :=
  fun fault hmem => h fault (List.mem_append_right trace hmem)

end Mark.Unfailing

namespace Flow

variable {seq : UInt32} {incoming : List Incoming}

theorem mem_answered_besides {other : UInt32} :
    other ∈ Incoming.answered (besides seq incoming) ↔
      other ∈ Incoming.answered incoming ∧ other ≠ seq := by
  simp only [Incoming.answered, besides, List.mem_filterMap, List.mem_filter]
  constructor
  · rintro ⟨element, ⟨hmem, hkept⟩, hanswered⟩
    refine ⟨⟨element, hmem, hanswered⟩, ?_⟩
    cases element with
    | reply answered result =>
        cases hanswered
        simpa using hkept
    | _ => exact absurd hanswered (by simp)
  · rintro ⟨⟨element, hmem, hanswered⟩, hne⟩
    refine ⟨element, ⟨hmem, ?_⟩, hanswered⟩
    cases element with
    | reply answered result =>
        cases hanswered
        simpa using hne
    | _ => rfl

theorem mem_answered_of_answerTo? {result : Except Fault Reply}
    (h : answerTo? seq incoming = some result) : seq ∈ Incoming.answered incoming := by
  obtain ⟨element, hmem, hfound⟩ := List.exists_of_findSome?_eq_some h
  rw [List.mem_reverse] at hmem
  refine List.mem_filterMap.mpr ⟨element, hmem, ?_⟩
  cases element with
  | reply answered found =>
      simp only at hfound
      split at hfound
      · rename_i hsame
        rw [hsame]
      · exact absurd hfound (by simp)
  | _ => exact absurd hfound (by simp)

end Flow

/-- What is known of the numbers of requests while a call is made, after the moves that have been
told. -/
structure World.Accounted (trace : List Mark) (control : Control) (world : World) : Prop where
  number : world.session.exchange.seq.toNat = Mark.total trace
  ledger : Ledger world.session.exchange world.session.tokens (control.listing.map (·.1)) []

namespace World.Accounted

variable {trace marks : List Mark} {control next : Control} {world after : World}

theorem same (h : world.Accounted trace control) (htotal : Mark.total marks = 0)
    (hlisting : next.listing = control.listing)
    (hexchange : after.session.exchange = world.session.exchange)
    (htokens : after.session.tokens = world.session.tokens) :
    after.Accounted (trace ++ marks) next := by
  refine ⟨?_, ?_⟩
  · rw [hexchange, Mark.total_append, htotal]
    exact h.number
  · rw [hexchange, htokens, hlisting]
    exact h.ledger

theorem absorbed {answered : List Incoming} {channel : Channel} {exchange : Exchange}
    {limit : Nat} (hstaged : Operation.Staged limit world.session.operations)
    (hnumber : exchange.seq.toNat = Mark.total trace)
    (hledger : Ledger exchange world.session.tokens (control.listing.map (·.1))
      (Incoming.answered answered)) :
    (world.absorbed channel exchange answered).Accounted trace control := by
  refine ⟨?_, ?_⟩
  · rw [← hnumber]
    exact congrArg UInt32.toNat
      (Session.evolves_takeAll { world.session with exchange } world.now answered).cancels.seq_eq
  · exact @Session.ledger_takeAll { world.session with exchange } _ limit hstaged
      answered hledger world.now

theorem expire (h : world.Accounted trace control) : world.expire.Accounted trace control :=
  ⟨(congrArg UInt32.toNat (Session.follows_expire _ world.now).cancels.seq_eq).trans h.number,
    Session.ledger_expire h.ledger world.now⟩

/-- As long as there are numbers left and the socket does not fail while a listing is awaited, every
move keeps the accounts. -/
theorem move (hmove : Move control world marks next after) (horder : world.InOrder control)
    (hroom : Mark.total (trace ++ marks) < 2 ^ 32) (hunfailing : Mark.Unfailing marks)
    (h : world.Accounted trace control) : after.Accounted (trace ++ marks) next := by
  have hnumber := h.number
  have hledger := h.ledger
  -- The number used last counts those used so far, so there is room behind it for those of the
  -- move.
  rw [Mark.total_append, ← hnumber] at hroom
  cases hmove with
  | ask hlisting htransmit =>
      rw [hlisting, Option.map_none] at hledger
      obtain ⟨rfl, rfl⟩ := transmit_eq_ok htransmit
      refine ⟨?_, hledger.ask hroom _⟩
      rw [Mark.total_append, ← hnumber]
      exact Exchange.toNat_seqAfter hroom
  | askInVain hlisting htransmit =>
      have hexchange := exchange_of_transmit_error htransmit
      have hsession := (sends_transmit htransmit).session
      refine ⟨?_, ?_⟩
      · rw [Mark.total_append, ← hnumber, hexchange]
        exact Exchange.toNat_seqAfter hroom
      · rw [hsession, hexchange]
        exact hledger.advance hroom
  | @hear seq kind received channel exchange incoming hlisting hreceived hexchange =>
      have hanswers := Exchange.answers_receive hexchange
      rw [hlisting, Option.map_some] at hledger
      refine (absorbed horder.staged ?_ ?_).expire
      · rw [Mark.total_append, Mark.total_delivered, Mark.total_losses, hanswers.seq]
        exact hnumber
      · refine (hledger.answers hanswers).hear (fun _ => Flow.mem_answered_besides) ?_
        cases hanswer : Flow.answerTo? seq incoming with
        | none => exact Or.inl (congrArg (Option.map (·.1)) hlisting)
        | some answer =>
            refine Or.inr ⟨?_, Flow.mem_answered_of_answerTo? hanswer⟩
            rcases answer with _ | _ | _ <;> rfl
  | cutOff hlisting hreceived hfailed =>
      obtain ⟨rfl, hfault⟩ := Exchange.receive_eq_fault_iff.mp hfailed
      exact absurd (hunfailing _ List.mem_cons_self) (by simp [hfault])
  | giveUp hlisting =>
      rw [hlisting, Option.map_some] at hledger
      exact ⟨by rw [List.append_nil]; exact hnumber, hledger.giveUp⟩
  | @sync kind objects hlisting hgathers hround =>
      have hcancels := (world.session.follows_reconcile kind objects).cancels
      refine ⟨(congrArg UInt32.toNat hcancels.seq_eq).trans ?_,
        Session.ledger_reconcile hledger kind objects⟩
      rw [Mark.total_append]
      exact hnumber
  | begin => exact h.same rfl rfl rfl rfl
  | take hlisting hreceived hexchange =>
      have hanswers := Exchange.answers_receive hexchange
      refine absorbed horder.staged ?_ (hledger.answers hanswers)
      rw [Mark.total_append, Mark.total_losses, hanswers.seq]
      exact hnumber
  | miss => exact h.same rfl rfl rfl rfl
  | pass => exact h.same rfl rfl rfl rfl
  | expire =>
      rw [List.append_nil]
      exact h.expire
  | pump hlisting =>
      rw [hlisting, Option.map_none] at hledger
      have hpump := ledger_pump hledger hroom
      refine ⟨?_, hlisting ▸ hpump.1⟩
      rw [Mark.total_append, ← hnumber, hpump.2]
      rfl
  | reserve => exact h.same rfl rfl rfl rfl
  | start target goal hlisting hreserved hsteps =>
      refine h.same rfl rfl rfl ?_
      show (world.session.operations ++ [_]).filterMap Operation.seq? = _
      rw [List.filterMap_append]
      exact List.append_nil _
  | note results => exact h.same rfl rfl rfl rfl
  | probe probe => exact h.same rfl rfl rfl rfl

end World.Accounted

/-- After every call, as long as there are numbers left and the socket has not failed while a
listing was awaited, the accounts of what is awaited are right. -/
theorem Operated.accounted {trace : List Mark} {world : World} (h : Operated trace world)
    (hroom : Mark.total trace < 2 ^ 32) (hunfailing : Mark.Unfailing trace) :
    world.Accounted trace .idle := by
  -- The two bounds hold of every earlier part of the trace as well, so they go into the invariant.
  have hkept : world.InOrder .idle ∧ (Mark.total trace < 2 ^ 32 → Mark.Unfailing trace →
      world.Accounted trace .idle) := by
    refine @keeps _ _ (fun trace control world => world.InOrder control ∧
      (Mark.total trace < 2 ^ 32 → Mark.Unfailing trace → world.Accounted trace control)) h ?opened
        ?disturbed ?watched ?moved ?failed
    case opened =>
      intro config files channel
      exact ⟨(Operated.opened config files channel).inOrder, fun _ _ => ⟨rfl, Ledger.new _⟩⟩
    case disturbed =>
      rintro trace world now horizon channel ⟨horder, haccounted⟩
      refine ⟨horder.same rfl rfl rfl rfl, fun hroom hunfailing => ?_⟩
      exact ⟨(haccounted hroom hunfailing).number, (haccounted hroom hunfailing).ledger⟩
    case watched =>
      rintro trace world watched hsame ⟨horder, haccounted⟩
      refine ⟨horder.same rfl hsame rfl rfl, fun hroom hunfailing => ?_⟩
      exact ⟨(haccounted hroom hunfailing).number, (haccounted hroom hunfailing).ledger⟩
    case moved =>
      rintro trace marks control next world after hmove ⟨horder, haccounted⟩
      refine ⟨horder.move hmove, fun hroom hunfailing => ?_⟩
      have hbefore : Mark.total trace < 2 ^ 32 := by
        rw [Mark.total_append] at hroom
        omega
      exact (haccounted hbefore hunfailing.left).move hmove horder hroom hunfailing.right
    case failed =>
      rintro trace control world hlisting ⟨horder, haccounted⟩
      refine ⟨horder.release.same rfl rfl rfl rfl, fun hroom hunfailing => ?_⟩
      rw [Mark.total_append] at hroom
      have hlast := haccounted (by omega) hunfailing.left
      refine ⟨?_, ?_⟩
      · rw [Mark.total_append]
        exact hlast.number
      · have hledger := hlast.ledger
        rw [hlisting] at hledger
        exact hledger
  exact hkept.2 hroom hunfailing

end NetState
