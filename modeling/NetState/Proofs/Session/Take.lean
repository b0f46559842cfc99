import NetState.Proofs.Exchange
import NetState.Session.Run

namespace NetState

/-- Whether an exchange differs from another only in that it has ceased to wait for some answers. -/
def Exchange.Cancels (exchange after : Exchange) : Prop :=
  ∃ seqs : List UInt32, after = seqs.foldl Exchange.cancel exchange

namespace Exchange.Cancels

variable {exchange middle after : Exchange}

theorem refl (exchange : Exchange) : exchange.Cancels exchange :=
  ⟨[], rfl⟩

theorem single (exchange : Exchange) (seq : UInt32) : exchange.Cancels (exchange.cancel seq) :=
  ⟨[seq], rfl⟩

theorem trans (h : exchange.Cancels middle) (hmore : middle.Cancels after) :
    exchange.Cancels after := by
  obtain ⟨seqs, rfl⟩ := h
  obtain ⟨more, rfl⟩ := hmore
  exact ⟨seqs ++ more, List.foldl_append.symm⟩

theorem keeps (h : exchange.Cancels after) (property : Exchange → Prop)
    (hcancel : ∀ exchange seq, property exchange → property (exchange.cancel seq))
    (hproperty : property exchange) : property after := by
  obtain ⟨seqs, rfl⟩ := h
  exact List.foldlRecOn seqs Exchange.cancel hproperty fun _ hbefore seq _ => hcancel _ seq hbefore

theorem unlisted (h : exchange.Cancels after) {seq pid : UInt32}
    (hunlisted : exchange.Unlisted seq pid) : after.Unlisted seq pid :=
  h.keeps (fun other => other.Unlisted seq pid) (fun _ other hbefore => hbefore.cancel other)
    hunlisted

theorem pid_eq (h : exchange.Cancels after) : after.pid = exchange.pid :=
  h.keeps (fun other => other.pid = exchange.pid) (fun _ _ hbefore => hbefore) rfl

theorem seq_eq (h : exchange.Cancels after) : after.seq = exchange.seq :=
  h.keeps (fun other => other.seq = exchange.seq) (fun _ _ hbefore => hbefore) rfl

end Exchange.Cancels

namespace Session

theorem forget_eq (session : Session) (object : Object) :
    ∃ watched, session.forget object = { session with watched } := by
  rw [forget]
  split
  · exact ⟨session.watched, rfl⟩
  · exact ⟨_, rfl⟩

theorem seq?_of_find? {operations : List Operation} {seq : UInt32} {op : Operation}
    (h : operations.find? (fun op => op.seq? == some seq) = some op) : op.seq? = some seq := by
  simpa using List.find?_some h

/-- What comes of an answer. Nobody may wait for it; else the operation that it is for goes on to
its next request, or waits to repeat this one, or ends. -/
inductive Replied (session : Session) (now : Nat) (seq : UInt32) :
    Except Fault Reply → Session → Prop where
  | ignored {result : Except Fault Reply}
      (hfind : session.operations.find? (fun op => op.seq? == some seq) = none) :
      Replied session now seq result session
  | acked {op : Operation}
      (hfind : session.operations.find? (fun op => op.seq? == some seq) = some op) (reply : Reply) :
      Replied session now seq (.ok reply)
        (session.update (op.advance (now + session.config.confirmTimeout.nanos)))
  /-- What the last request is to delete is gone already. -/
  | gone {op : Operation} {fault : Fault} {watched : Watched}
      (hfind : session.operations.find? (fun op => op.seq? == some seq) = some op)
      (hmoot : op.isMoot fault = true) (hlast : op.steps.tail = [])
      (hforget : session.forget op.desired = { session with watched }) :
      Replied session now seq (.error fault)
        (({ session with watched } : Session).finish op (.ok .alreadyAbsent))
  /-- What a request is to make room for is gone already. -/
  | skipped {op : Operation} {fault : Fault}
      (hfind : session.operations.find? (fun op => op.seq? == some seq) = some op)
      (hmoot : op.isMoot fault = true) (hmore : op.steps.tail ≠ []) :
      Replied session now seq (.error fault) (session.update (op.advance now))
  | postponed {op : Operation} {fault : Fault}
      (hfind : session.operations.find? (fun op => op.seq? == some seq) = some op)
      (hmoot : op.isMoot fault = false)
      (hagain : (fault.isTransient && op.attempt < session.config.maxRetries) = true) :
      Replied session now seq (.error fault)
        (session.update { op with
          attempt := op.attempt + 1
          stage := .backoff (now + (session.config.backoffFor (op.attempt + 1)).nanos) })
  | failed {op : Operation} {fault : Fault}
      (hfind : session.operations.find? (fun op => op.seq? == some seq) = some op)
      (hmoot : op.isMoot fault = false)
      (hfinal : (fault.isTransient && op.attempt < session.config.maxRetries) = false) :
      Replied session now seq (.error fault) (session.finish op (.error (fault.during op.text)))

theorem replied_takeReply (session : Session) (now : Nat) (seq : UInt32)
    (result : Except Fault Reply) :
    session.Replied now seq result (session.takeReply now seq result) := by
  rw [takeReply]
  split
  · rename_i hfind
    exact .ignored hfind
  · rename_i op hfind
    cases result with
    | ok reply => exact .acked hfind reply
    | error fault =>
        simp only
        rw [takeRefusal]
        split
        · rename_i hmoot
          split
          · rename_i hlast
            obtain ⟨watched, hforget⟩ := forget_eq session op.desired
            rw [hforget]
            exact .gone hfind hmoot (List.isEmpty_iff.mp hlast) hforget
          · rename_i hmore
            exact .skipped hfind hmoot (mt List.isEmpty_iff.mpr hmore)
        · rename_i hmoot
          split
          · rename_i hagain
            exact .postponed hfind (Bool.eq_false_iff.mpr hmoot) hagain
          · rename_i hfinal
            exact .failed hfind (Bool.eq_false_iff.mpr hmoot) (Bool.eq_false_iff.mpr hfinal)

theorem takeRemoval_cases (session : Session) (slot : Slot) :
    (∀ l, (session.watched.remove slot).1 ≠ some (.link l)) ∧ session.takeRemoval slot =
        ({ session with watched := (session.watched.remove slot).2 } : Session).confirm ∨
      ∃ l, (session.watched.remove slot).1 = some (.link l) ∧ session.takeRemoval slot =
        (({ session with watched := (session.watched.remove slot).2 } : Session).confirm).abandon
          l.index := by
  rw [takeRemoval]
  rcases session.watched.remove slot with ⟨removed, watched⟩
  simp only
  split
  · rename_i l
    exact Or.inr ⟨l, rfl, rfl⟩
  · rename_i hother
    exact Or.inl ⟨hother, rfl⟩

/-- Whether a session differs from another in nothing that matters to its inventory. -/
structure Follows (session after : Session) : Prop where
  inventory : after.inventory = session.inventory
  cancels : session.exchange.Cancels after.exchange

namespace Follows

variable {session middle after : Session}

theorem refl (session : Session) : session.Follows session :=
  ⟨rfl, Exchange.Cancels.refl _⟩

theorem trans (h : session.Follows middle) (hmore : middle.Follows after) :
    session.Follows after :=
  ⟨hmore.inventory.trans h.inventory, h.cancels.trans hmore.cancels⟩

end Follows

theorem follows_conclude (session : Session)
    (verdict : Operation → Option (Except Fault Outcome)) :
    session.Follows (session.conclude verdict) :=
  ⟨rfl, Exchange.Cancels.refl _⟩

theorem follows_confirm (session : Session) : session.Follows session.confirm :=
  follows_conclude session _

theorem follows_cancelAll (session : Session) (operations : List Operation) :
    session.Follows (session.cancelAll operations) :=
  ⟨rfl, operations.filterMap Operation.seq?, rfl⟩

theorem follows_abandon (session : Session) (interface : UInt32) :
    session.Follows (session.abandon interface) :=
  (follows_cancelAll session _).trans (follows_conclude _ _)

theorem follows_foldl_abandon (session : Session) (lost : List UInt32) :
    session.Follows (lost.foldl abandon session) := by
  induction lost generalizing session with
  | nil => exact Follows.refl session
  | cons first rest ih => exact (follows_abandon session first).trans (ih _)

theorem follows_reconcile (session : Session) (kind : Kind) (objects : List Object) :
    ({ session with watched := (session.watched.reconcile kind objects).2 } : Session).Follows
      (session.reconcile kind objects).2 :=
  (follows_confirm _).trans (follows_foldl_abandon _ _)

theorem follows_expire (session : Session) (now : Nat) : session.Follows (session.expire now) :=
  (follows_cancelAll session _).trans (follows_conclude _ _)

theorem follows_takeRemoval (session : Session) (slot : Slot) :
    ({ session with watched := (session.watched.remove slot).2 } : Session).Follows
      (session.takeRemoval slot) := by
  rcases session.takeRemoval_cases slot with ⟨-, hkept⟩ | ⟨l, -, hgone⟩
  · rw [hkept]
    exact follows_confirm _
  · rw [hgone]
    exact (follows_confirm _).trans (follows_abandon _ _)

theorem take_notice (session : Session) (now : Nat) (news : Peer.News) (seen : Object) :
    (session.take now (.notice seen.kind news.change seen)).inventory =
        (session.inventory.perform (news.command seen)).inventory ∧
      session.exchange.Cancels
        (session.take now (.notice seen.kind news.change seen)).exchange := by
  obtain ⟨change, object⟩ := news
  cases change with
  | new =>
      have hfollows := follows_confirm
        ({ session with watched := (session.watched.upsert seen).2 } : Session)
      exact ⟨hfollows.inventory, hfollows.cancels⟩
  | del =>
      have hfollows := follows_takeRemoval session seen.slot
      exact ⟨hfollows.inventory, hfollows.cancels⟩

theorem Replied.follows {session after : Session} {now : Nat} {seq : UInt32} {reply : Reply}
    (h : session.Replied now seq (.ok reply) after) : session.Follows after := by
  cases h with
  | ignored => exact Follows.refl session
  | acked => exact ⟨rfl, Exchange.Cancels.refl _⟩

/-- The answer that a request was carried out moves on the operation that it belongs to. -/
theorem follows_take_reply (session : Session) (now : Nat) (seq : UInt32) (reply : Reply) :
    session.Follows (session.take now (.reply seq (.ok reply))) :=
  (session.replied_takeReply now seq (.ok reply)).follows.trans (follows_confirm _)

/-- Whether a session comes from another one by what came in: its inventory is as consistent as
before, and the exchange waits for nothing more. -/
structure Evolves (session after : Session) : Prop where
  consistent : session.inventory.Consistent → after.inventory.Consistent
  cancels : session.exchange.Cancels after.exchange

namespace Evolves

variable {session middle after : Session}

theorem trans (h : session.Evolves middle) (hmore : middle.Evolves after) :
    session.Evolves after :=
  ⟨fun hconsistent => hmore.consistent (h.consistent hconsistent), h.cancels.trans hmore.cancels⟩

end Evolves

theorem Follows.evolves {session after : Session} (h : session.Follows after) :
    session.Evolves after :=
  ⟨fun hconsistent => h.inventory ▸ hconsistent, h.cancels⟩

theorem evolves_remove (session : Session) (slot : Slot) :
    session.Evolves { session with watched := (session.watched.remove slot).2 } :=
  ⟨fun hconsistent => hconsistent.perform (.remove slot), Exchange.Cancels.refl _⟩

theorem evolves_forget (session : Session) (object : Object) :
    session.Evolves (session.forget object) := by
  rw [forget]
  split
  · exact (Follows.refl session).evolves
  · exact evolves_remove session _

theorem Replied.evolves {session after : Session} {now : Nat} {seq : UInt32}
    {result : Except Fault Reply} (h : session.Replied now seq result after) :
    session.Evolves after := by
  cases h with
  | ignored => exact (Follows.refl session).evolves
  | gone hfind hmoot hlast hforget =>
      refine Evolves.trans (hforget ▸ evolves_forget session _) ?_
      exact ⟨id, Exchange.Cancels.refl _⟩
  | acked | skipped | postponed | failed => exact ⟨id, Exchange.Cancels.refl _⟩

theorem evolves_take (session : Session) (now : Nat) (incoming : Incoming) :
    session.Evolves (session.take now incoming) := by
  cases incoming with
  | notice kind change object =>
      cases change with
      | new =>
          refine Evolves.trans ?_ (follows_confirm
            { session with watched := (session.watched.upsert object).2 }).evolves
          exact ⟨fun hconsistent => hconsistent.perform (.upsert object), Exchange.Cancels.refl _⟩
      | del => exact (evolves_remove session _).trans (follows_takeRemoval session _).evolves
  | reply seq result =>
      exact (session.replied_takeReply now seq result).evolves.trans (follows_confirm _).evolves
  | part seq objects => exact (follows_confirm session).evolves
  | overrun =>
      refine Evolves.trans ?_ (follows_confirm { session with stale := true }).evolves
      exact ⟨id, Exchange.Cancels.refl _⟩

theorem evolves_takeAll (session : Session) (now : Nat) (incoming : List Incoming) :
    session.Evolves (incoming.foldl (Session.take · now) session) := by
  induction incoming generalizing session with
  | nil => exact (Follows.refl session).evolves
  | cons first rest ih => exact (evolves_take session now first).trans (ih _)

end Session

end NetState
