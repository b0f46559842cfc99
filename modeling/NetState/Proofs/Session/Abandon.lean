import NetState.Proofs.Inventory.Find
import NetState.Proofs.Session.Ledger

namespace NetState

namespace Inventory

variable {inventory : Inventory} {index : UInt32}

/-- Whether a link is in one inventory and no more in another. -/
def Loses (inventory : Inventory) (index : UInt32) (after : Inventory) : Prop :=
  (inventory.link? index).isSome = true ∧ after.link? index = none

theorem Consistent.exists_link_of_lookup (h : inventory.Consistent) {object : Object}
    (hobject : inventory.lookup ⟨.link, .link index⟩ = some object) :
    ∃ l, object = .link l ∧ l.index = index := by
  have hslot := h.placed hobject
  obtain ⟨l, rfl⟩ := Object.exists_link_of_kind (congrArg Slot.kind hslot)
  exact ⟨l, rfl, Key.link.inj (congrArg Slot.key hslot)⟩

theorem Consistent.link?_eq_none_iff (h : inventory.Consistent) :
    inventory.link? index = none ↔ inventory.lookup ⟨.link, .link index⟩ = none := by
  rw [link?]
  cases hobject : inventory.lookup ⟨.link, .link index⟩ with
  | none => exact iff_of_true rfl rfl
  | some object =>
      obtain ⟨l, rfl, -⟩ := h.exists_link_of_lookup hobject
      simp

theorem Consistent.loses_iff (h : inventory.Consistent) {after : Inventory}
    (hafter : after.Consistent) :
    inventory.Loses index after ↔
      (∃ l, inventory.lookup ⟨.link, .link index⟩ = some (.link l) ∧ l.index = index) ∧
        after.lookup ⟨.link, .link index⟩ = none := by
  rw [Loses, hafter.link?_eq_none_iff]
  refine and_congr_left fun _ => ?_
  rw [← Option.ne_none_iff_isSome, Ne, h.link?_eq_none_iff, ← Ne, Option.ne_none_iff_exists']
  constructor
  · rintro ⟨object, hobject⟩
    obtain ⟨l, rfl, hindex⟩ := h.exists_link_of_lookup hobject
    exact ⟨l, hobject, hindex⟩
  · rintro ⟨l, hl, -⟩
    exact ⟨_, hl⟩

theorem Consistent.not_loses_upsert (h : inventory.Consistent) (object : Object) :
    ¬ inventory.Loses index (inventory.upsert object).2.inventory := by
  intro hlost
  obtain ⟨⟨l, hl, -⟩, hnone⟩ := (h.loses_iff (h.upsert object)).mp hlost
  rw [lookup_upsert h, hl] at hnone
  split at hnone
  · exact absurd hnone (by simp)
  · simp [Option.filter_some, Object.hangsAt] at hnone

theorem Consistent.exists_link_of_loses_remove (h : inventory.Consistent) {place : Slot}
    (hlost : inventory.Loses index (inventory.remove place).2.inventory) :
    ∃ l, inventory.lookup place = some (.link l) ∧ l.index = index := by
  obtain ⟨⟨l, hl, hindex⟩, hnone⟩ := (h.loses_iff (h.remove place)).mp hlost
  cases hplace : inventory.lookup place with
  | none =>
      rw [remove_of_eq_none hplace, hl] at hnone
      exact absurd hnone (by simp)
  | some gone =>
      rw [lookup_remove h hplace, hl, Option.filter_some] at hnone
      simp only [ite_eq_right_iff, Option.some_ne_none, imp_false, Bool.and_eq_true, bne_iff_ne,
        Bool.not_eq_true', not_and, Bool.not_eq_false] at hnone
      by_cases hsame : (Object.link l).slot = place
      · have hslot : (Object.link l).slot = ⟨.link, .link index⟩ := h.placed hl
        rw [← hsame, hslot, hl] at hplace
        exact ⟨l, hplace.symm, hindex⟩
      · have htakes := hnone hsame
        cases gone with
        | link other =>
            have howner := beq_iff_eq.mp htakes
            rw [Object.owner?] at howner
            split at howner
            · exact absurd howner (by simp)
            · exact ⟨other, rfl, (Option.some.inj howner).symm.trans hindex⟩
        | _ => simp [Object.takesAlong, Object.hangsAt] at htakes

theorem Consistent.loses_remove (h : inventory.Consistent) {place : Slot} {l : Link}
    (hl : inventory.lookup place = some (.link l)) :
    inventory.Loses l.index (inventory.remove place).2.inventory := by
  obtain rfl : ⟨.link, .link l.index⟩ = place := h.placed hl
  refine (h.loses_iff (h.remove _)).mpr ⟨⟨l, hl, rfl⟩, ?_⟩
  rw [lookup_remove h hl, hl, Option.filter_some, if_neg]
  have hslot : (Object.link l).slot = ⟨.link, .link l.index⟩ := h.placed hl
  simp [hslot]

theorem Consistent.loses_of_owner? (h : inventory.Consistent) {after : Inventory} {object : Object}
    (hobject : object ∈ inventory.ofKind .link) (howner : object.owner? = some index)
    (hnone : after.link? index = none) : inventory.Loses index after := by
  obtain ⟨slot, hslot, hkind⟩ := mem_ofKind_iff.mp hobject
  have hplaced := h.placed hslot
  obtain ⟨l, rfl⟩ := Object.exists_link_of_kind ((congrArg Slot.kind hplaced).trans hkind)
  rw [Object.owner?] at howner
  split at howner
  · exact absurd howner (by simp)
  · obtain rfl : l.index = index := Option.some.inj howner
    obtain rfl : ⟨.link, .link l.index⟩ = slot := hplaced
    refine ⟨?_, hnone⟩
    rw [link?, hslot]
    rfl

theorem Consistent.kind_of_loses_reconcile (h : inventory.Consistent) {kind : Kind}
    {objects : List Object}
    (hlost : inventory.Loses index (inventory.reconcile kind objects).2.inventory) :
    kind = .link := by
  obtain ⟨⟨l, hl, -⟩, hnone⟩ := (h.loses_iff (h.reconcile kind objects)).mp hlost
  by_contra hkind
  rw [lookup_reconcile h, if_neg (Ne.symm hkind), hl, Option.filter_some, ite_eq_right_iff] at hnone
  refine absurd (hnone ?_) (by simp)
  rw [Bool.and_eq_true, Bool.not_eq_true', Bool.not_eq_true', List.any_eq_false, List.any_eq_false]
  refine ⟨fun gone hgone => ?_, fun hook _ => by simp [Object.hangsAt]⟩
  obtain ⟨slot, hslot, hother, -⟩ := mem_missing_iff.mp hgone
  have hgoneKind : gone.kind = kind := (congrArg Slot.kind (h.placed hslot)).trans hother
  cases gone with
  | link other => exact absurd hgoneKind.symm hkind
  | _ => simp [Object.takesAlong, Object.hangsAt]

end Inventory

theorem Operation.target?_ne_zero {op : Operation} {index : UInt32}
    (h : op.target? = some index) : index ≠ 0 := by
  have howner : op.desired.owner? = some index := by
    rw [target?] at h
    split at h
    · exact absurd h (by simp)
    · exact h
  rw [Object.owner?] at howner
  split at howner
  · exact absurd howner (by simp)
  · rename_i hzero
    exact Option.some.inj howner ▸ hzero

namespace Session

theorem mem_operations_conclude {session : Session}
    {verdict : Operation → Option (Except Fault Outcome)} {op : Operation} :
    op ∈ (session.conclude verdict).operations ↔ op ∈ session.operations ∧ verdict op = none := by
  rw [conclude, List.mem_filter, Option.isNone_iff_eq_none]

theorem mem_results_conclude {session : Session}
    {verdict : Operation → Option (Except Fault Outcome)} {entry : Nat × Except Fault Outcome} :
    entry ∈ (session.conclude verdict).results ↔ entry ∈ session.results ∨
      ∃ op ∈ session.operations, ∃ result, verdict op = some result ∧ (op.id, result) = entry := by
  simp only [conclude, List.mem_append, List.mem_filterMap, Option.map_eq_some_iff]

/-- Whether a session comes from another one in that operations ended, with the result that the
inventory shows or else abandoned, and nothing is awaited for those any more. -/
structure Closes (session after : Session) : Prop where
  inventory : after.inventory = session.inventory
  results : ∀ entry ∈ session.results, entry ∈ after.results
  kept : ∀ op ∈ after.operations, op ∈ session.operations
  awaited : ∀ seq ∈ after.exchange.awaited.keys, seq ∈ session.exchange.awaited.keys
  ended : ∀ op ∈ session.operations, op ∈ after.operations ∨
    (op.id, .ok ((session.confirmation? op).getD .abandoned)) ∈ after.results ∧
      ∀ seq, op.seq? = some seq → seq ∉ after.exchange.awaited.keys

namespace Closes

variable {session middle after : Session}

theorem refl (session : Session) : session.Closes session :=
  ⟨rfl, fun _ => id, fun _ => id, fun _ => id, fun _ => Or.inl⟩

theorem confirmation?_eq (h : session.Closes after) (op : Operation) :
    after.confirmation? op = session.confirmation? op := by
  rw [confirmation?, confirmation?, h.inventory]

theorem trans (h : session.Closes middle) (hmore : middle.Closes after) : session.Closes after where
  inventory := hmore.inventory.trans h.inventory
  results entry hentry := hmore.results entry (h.results entry hentry)
  kept op hop := h.kept op (hmore.kept op hop)
  awaited seq hseq := h.awaited seq (hmore.awaited seq hseq)
  ended op hop := by
    rcases h.ended op hop with hmiddle | ⟨hresult, hignored⟩
    · rw [← h.confirmation?_eq op]
      exact hmore.ended op hmiddle
    · exact Or.inr ⟨hmore.results _ hresult,
        fun seq hseq hmem => hignored seq hseq (hmore.awaited seq hmem)⟩

end Closes

theorem closes_confirm (session : Session) : session.Closes session.confirm where
  inventory := rfl
  results _ hentry := mem_results_conclude.mpr (Or.inl hentry)
  kept _ hop := (mem_operations_conclude.mp hop).1
  awaited _ := id
  ended op hop := by
    cases hshown : session.confirmation? op with
    | none => exact Or.inl (mem_operations_conclude.mpr ⟨hop, by rw [hshown]; rfl⟩)
    | some outcome =>
        refine Or.inr ⟨mem_results_conclude.mpr (Or.inr ⟨op, hop, .ok outcome, ?_, rfl⟩), ?_⟩
        · rw [hshown]
          rfl
        · intro seq hseq
          rw [confirmation?, if_neg (by simp [Operation.isAcked_of_seq? hseq])] at hshown
          exact absurd hshown (by simp)

theorem mem_operations_abandon {session : Session} {index : UInt32} {op : Operation} :
    op ∈ (session.abandon index).operations ↔
      op ∈ session.operations ∧ op.target? ≠ some index := by
  rw [abandon, mem_operations_conclude]
  simp [cancelAll]

theorem closes_abandon {session : Session} (h : session.Hidden) (index : UInt32) :
    session.Closes (session.abandon index) where
  inventory := rfl
  results _ hentry := mem_results_conclude.mpr (Or.inl hentry)
  kept _ hop := (mem_operations_abandon.mp hop).1
  awaited _ hseq := (Exchange.mem_keys_cancelAll.mp hseq).1
  ended op hop := by
    by_cases htarget : op.target? = some index
    · refine Or.inr ⟨mem_results_conclude.mpr (Or.inr ⟨op, hop, .ok .abandoned, ?_, ?_⟩), ?_⟩
      · simp [htarget]
      · rw [h op hop]
        rfl
      · intro seq hseq hmem
        refine (Exchange.mem_keys_cancelAll.mp hmem).2 (List.mem_filterMap.mpr ⟨op, ?_, hseq⟩)
        exact List.mem_filter.mpr ⟨hop, beq_iff_eq.mpr htarget⟩
    · exact Or.inl (mem_operations_abandon.mpr ⟨hop, htarget⟩)

/-- Abandoning one link after the other leaves no operation on any of them. -/
theorem closes_foldl_abandon {session : Session} (h : session.Hidden) (lost : List UInt32) :
    session.Closes (lost.foldl abandon session) ∧
      ∀ index ∈ lost, ∀ op ∈ (lost.foldl abandon session).operations,
        op.target? ≠ some index := by
  induction lost generalizing session with
  | nil => exact ⟨.refl session, fun _ hmem => absurd hmem List.not_mem_nil⟩
  | cons first rest ih =>
      obtain ⟨hcloses, hrest⟩ := ih (h.abandon first)
      refine ⟨(closes_abandon h first).trans hcloses, fun index hindex op hop => ?_⟩
      rcases List.mem_cons.mp hindex with rfl | hmem
      · exact (mem_operations_abandon.mp (hcloses.kept op hop)).2
      · exact hrest index hmem op hop

/-- What can change the inventory of a session. -/
inductive Turn where
  /-- Something comes in. -/
  | taken (incoming : Incoming)
  /-- A kind is brought up to date with a listing. -/
  | reconciled (kind : Kind) (objects : List Object)

def turn (session : Session) (now : Nat) : Turn → Session
  | .taken incoming => session.take now incoming
  | .reconciled kind objects => (session.reconcile kind objects).2

/-- Whether a turn is the refusal of the last request of an operation because what it is to delete
is gone already. -/
def IsMoot (session : Session) (turn : Turn) : Prop :=
  ∃ seq fault op, turn = .taken (.reply seq (.error fault)) ∧
    session.operations.find? (fun op => op.seq? == some seq) = some op ∧
      op.isMoot fault = true ∧ op.steps.tail = []

/-- Whether the operations on a link are over: none is left; each has ended, confirmed if that was
shown and abandoned if not; and no answer is awaited for it any more. -/
structure Relinquishes (session : Session) (index : UInt32) (after : Session) : Prop where
  left : ∀ op ∈ after.operations, op.target? ≠ some index
  ended : ∀ op ∈ session.operations, op.target? = some index →
    (op.id, .ok ((after.confirmation? op).getD .abandoned)) ∈ after.results
  ignored : ∀ op ∈ session.operations, op.target? = some index →
    ∀ seq, op.seq? = some seq → seq ∉ after.exchange.awaited.keys

theorem Relinquishes.of_operations {session other after : Session} {index : UInt32}
    (h : other.Relinquishes index after) (hsame : session.operations = other.operations) :
    session.Relinquishes index after :=
  ⟨h.left, hsame ▸ h.ended, hsame ▸ h.ignored⟩

theorem Closes.relinquishes {session after : Session} (h : session.Closes after) {index : UInt32}
    (hleft : ∀ op ∈ after.operations, op.target? ≠ some index) :
    session.Relinquishes index after where
  left := hleft
  ended op hop htarget := by
    rw [h.confirmation?_eq]
    rcases h.ended op hop with hkept | ⟨hresult, -⟩
    · exact absurd htarget (hleft op hkept)
    · exact hresult
  ignored op hop htarget := by
    rcases h.ended op hop with hkept | ⟨-, hignored⟩
    · exact absurd htarget (hleft op hkept)
    · exact hignored

theorem relinquishes_takeRemoval {session : Session} (h : session.inventory.Consistent)
    {slot : Slot} {index : UInt32}
    (hlost : session.inventory.Loses index (session.takeRemoval slot).inventory) :
    session.Relinquishes index (session.takeRemoval slot) := by
  rw [(follows_takeRemoval session slot).inventory] at hlost
  obtain ⟨l, hl, rfl⟩ := h.exists_link_of_loses_remove hlost
  have htake : session.takeRemoval slot =
      (({ session with watched := (session.watched.remove slot).2 } : Session).confirm).abandon
        l.index := by
    have hremoved : (session.watched.remove slot).1 = some (.link l) :=
      (Inventory.remove_fst _ _).trans hl
    rcases session.takeRemoval_cases slot with ⟨hother, -⟩ | ⟨gone, hgone, htake⟩
    · exact absurd hremoved (hother l)
    · obtain rfl : gone = l := Object.link.inj (Option.some.inj (hgone.symm.trans hremoved))
      exact htake
  have hcloses := (closes_confirm { session with watched := (session.watched.remove slot).2 }).trans
    (closes_abandon (hidden_confirm _) l.index)
  have hover := hcloses.relinquishes fun op hop => (mem_operations_abandon.mp hop).2
  rw [htake]
  exact hover.of_operations rfl

theorem relinquishes_reconcile {session : Session} (h : session.inventory.Consistent) {kind : Kind}
    {objects : List Object} {index : UInt32}
    (hlost : session.inventory.Loses index (session.reconcile kind objects).2.inventory) :
    session.Relinquishes index (session.reconcile kind objects).2 := by
  rw [(follows_reconcile session kind objects).inventory] at hlost
  obtain rfl := h.kind_of_loses_reconcile hlost
  obtain ⟨⟨l, hl, rfl⟩, -⟩ := (h.loses_iff (h.reconcile .link objects)).mp hlost
  obtain ⟨hcloses, hleft⟩ := closes_foldl_abandon (hidden_confirm
    { session with watched := (session.watched.reconcile .link objects).2 })
    (((session.inventory.ofKind .link).filterMap Object.owner?).filter fun index =>
      ((session.inventory.reconcile .link objects).2.inventory.link? index).isNone)
  refine Relinquishes.of_operations
    (((closes_confirm _).trans hcloses).relinquishes fun op hop htarget => ?_) rfl
  refine hleft l.index (List.mem_filter.mpr ⟨List.mem_filterMap.mpr ⟨.link l, ?_, ?_⟩, ?_⟩) op hop
    htarget
  · exact Inventory.mem_ofKind_iff.mpr ⟨_, hl, rfl⟩
  · exact if_neg (Operation.target?_ne_zero htarget)
  · exact Option.isNone_iff_eq_none.mpr hlost.2

theorem turn_of_isMoot {session : Session} {turn : Turn} (h : session.IsMoot turn) (now : Nat) :
    ∃ op ∈ session.operations,
      session.turn now turn =
        ((session.forget op.desired).finish op (.ok .alreadyAbsent)).confirm := by
  obtain ⟨seq, fault, op, rfl, hfind, hmoot, hlast⟩ := h
  refine ⟨op, List.mem_of_find?_eq_some hfind, ?_⟩
  rw [Session.turn, take, takeReply, hfind]
  simp only [takeRefusal, hmoot, if_true, hlast, List.isEmpty_nil]

theorem Replied.inventory_eq {session after : Session} {now : Nat} {seq : UInt32}
    {result : Except Fault Reply} (hreplied : session.Replied now seq result after)
    (h : ¬ session.IsMoot (.taken (.reply seq result))) : after.inventory = session.inventory := by
  cases hreplied with
  | gone hfind hmoot hlast => exact absurd ⟨seq, _, _, rfl, hfind, hmoot, hlast⟩ h
  | ignored | acked | skipped | postponed | failed => rfl

theorem inventory_take_reply {session : Session} {now : Nat} {seq : UInt32}
    {result : Except Fault Reply} (h : ¬ session.IsMoot (.taken (.reply seq result))) :
    (session.take now (.reply seq result)).inventory = session.inventory :=
  (session.replied_takeReply now seq result).inventory_eq h

theorem inventory_forget (session : Session) (object : Object) :
    (session.forget object).inventory = match session.inventory.find? object with
      | none => session.inventory
      | some known => (session.inventory.remove known.slot).2.inventory := by
  rw [forget]
  cases session.inventory.find? object <;> rfl

theorem kind_of_loses_forget {session : Session} (h : session.inventory.Consistent)
    {object : Object} {index : UInt32}
    (hlost : session.inventory.Loses index (session.forget object).inventory) :
    object.kind = .link := by
  rw [inventory_forget] at hlost
  split at hlost
  · exact absurd hlost.1 (by simp [hlost.2])
  · rename_i known hknown
    obtain ⟨l, hl, -⟩ := h.exists_link_of_loses_remove hlost
    obtain ⟨hlookup, hkind⟩ := h.lookup_of_find? hknown
    rw [← hkind, Option.some.inj (hlookup.symm.trans hl)]
    rfl

/-- Whether the operations on a link go on as before, apart from those that the inventory shows the
result of. -/
structure Persists (session : Session) (index : UInt32) (after : Session) : Prop where
  kept : ∀ op ∈ session.operations, op.target? = some index →
    after.confirmation? op = none → op ∈ after.operations
  awaited : after.exchange = session.exchange

theorem persists_of_isMoot {session : Session} (h : session.inventory.Consistent)
    (hids : (session.operations.map Operation.id).Nodup) {now : Nat} {turn : Turn} {index : UInt32}
    (hmoot : session.IsMoot turn)
    (hlost : session.inventory.Loses index (session.turn now turn).inventory) :
    session.Persists index (session.turn now turn) := by
  obtain ⟨moot, hmem, hturn⟩ := turn_of_isMoot hmoot now
  obtain ⟨watched, hforget⟩ := forget_eq session moot.desired
  rw [hturn] at hlost ⊢
  have hlink : moot.desired.kind = .link := kind_of_loses_forget h hlost
  rw [hforget]
  refine ⟨fun op hop htarget hunshown => ?_, rfl⟩
  have hother : op.id ≠ moot.id := by
    intro hid
    obtain rfl := Operation.eq_of_id hids hop hmem hid
    obtain ⟨l, hl⟩ := Object.exists_link_of_kind hlink
    rw [Operation.target?, hl] at htarget
    exact absurd htarget (by simp)
  refine mem_operations_conclude.mpr ⟨List.mem_filter.mpr ⟨hop, by simpa using hother⟩, ?_⟩
  exact Option.map_eq_none_iff.mpr hunshown

end Session

theorem World.consistent_move {control next : Control} {world after : World} {marks : List Mark}
    (hmove : Move control world marks next after) (h : world.session.inventory.Consistent) :
    after.session.inventory.Consistent := by
  have hsame (hinventory : after.session.inventory = world.session.inventory) :
      after.session.inventory.Consistent := hinventory ▸ h
  cases hmove with
  | ask _ htransmit => exact hsame (by rw [(sends_transmit htransmit).session]; rfl)
  | askInVain _ htransmit => exact hsame (by rw [(sends_transmit htransmit).session]; rfl)
  | hear => exact (Session.evolves_takeAll _ _ _).consistent h
  | take => exact (Session.evolves_takeAll _ _ _).consistent h
  | @sync kind objects =>
      show (world.session.reconcile kind objects).2.inventory.Consistent
      rw [(Session.follows_reconcile world.session kind objects).inventory]
      exact h.reconcile kind objects
  | pump => exact hsame (inventory_pump world)
  | _ => exact h

theorem Operated.consistent {trace : List Mark} {world : World} (h : Operated trace world) :
    world.session.inventory.Consistent := by
  refine @keeps _ _ (fun _ _ world => world.session.inventory.Consistent) h
    (fun _ _ _ => Inventory.consistent_empty) (fun _ _ _ hworld => hworld) ?_
    (fun hmove hworld => World.consistent_move hmove hworld) (fun _ hworld => hworld)
  intro _ world watched hsame hworld
  show watched.inventory.Consistent
  rw [hsame]
  exact hworld

namespace Session

/-- What a session comes to: by calls and their moves, and by what comes in one after the other. -/
inductive Arises : Session → Prop where
  | within {trace more : List Mark} {control : Control} {world place : World}
      (h : Operated trace world) (hmoves : Moves .idle world more control place) :
      Arises place.session
  | receiving {session : Session} (h : Arises session) (exchange : Exchange) :
      Arises { session with exchange }
  | taking {session : Session} (h : Arises session) (now : Nat) (incoming : Incoming) :
      Arises (session.take now incoming)

theorem Arises.consistent {session : Session} (h : session.Arises) :
    session.inventory.Consistent := by
  induction h with
  | within h hmoves =>
      exact @Moves.keeps _ _ _ _ _ (fun _ _ world => world.session.inventory.Consistent) [] hmoves
        (fun hmove hworld => World.consistent_move hmove hworld) h.consistent
  | receiving _ _ ih => exact ih
  | @taking session _ now incoming ih => exact (evolves_take session now incoming).consistent ih

theorem Arises.staged {session : Session} (h : session.Arises) :
    ∃ limit, Operation.Staged limit session.operations := by
  induction h with
  | within h hmoves =>
      have horder := @Moves.keeps _ _ _ _ _ (fun _ control world => world.InOrder control) [] hmoves
        (fun hmove hworld => World.InOrder.move hmove hworld) h.inOrder
      exact ⟨_, horder.staged⟩
  | receiving _ _ ih => exact ih
  | @taking session _ now incoming ih =>
      obtain ⟨limit, hstaged⟩ := ih
      exact ⟨limit, (progresses_take session now incoming).staged hstaged⟩

/-- Whenever a session loses a link, the operations on it are over, unless that was because the link
was not there to be deleted: then those that the inventory does not show the result of go on. -/
theorem Arises.relinquishes_of_loses {session : Session} (h : session.Arises) {now : Nat}
    {turn : Turn} {index : UInt32}
    (hlost : session.inventory.Loses index (session.turn now turn).inventory) :
    (¬ session.IsMoot turn → session.Relinquishes index (session.turn now turn)) ∧
      (session.IsMoot turn → session.Persists index (session.turn now turn)) := by
  have hsame {after : Inventory} (hafter : after = session.inventory) :
      ¬ session.inventory.Loses index after := by
    rintro ⟨hbefore, hnone⟩
    rw [hafter] at hnone
    exact absurd hbefore (by simp [hnone])
  refine ⟨fun hmoot => ?_, fun hmoot => ?_⟩
  · cases turn with
    | reconciled kind objects => exact relinquishes_reconcile h.consistent hlost
    | taken incoming =>
        cases incoming with
        | notice kind change object =>
            cases change with
            | new => exact absurd hlost (h.consistent.not_loses_upsert object)
            | del => exact relinquishes_takeRemoval h.consistent hlost
        | reply seq result => exact absurd hlost (hsame (inventory_take_reply hmoot))
        | part seq objects => exact absurd hlost (hsame rfl)
        | overrun => exact absurd hlost (hsame rfl)
  · obtain ⟨limit, hstaged⟩ := h.staged
    exact persists_of_isMoot h.consistent hstaged.distinct hmoot hlost

end Session

/-- An address that is wanted on the first link after the loopback. -/
def Address.onSecond : Address where
  interface := 2
  ip := .v4 0x0A000001
  length := 24
  label := none
  flags := 0
  scope := none
  validFor := forever
  preferredFor := forever

/-- A world with a link whose kernel does not report on requests. -/
def World.unreported : World :=
  let world := (Call.apply (.link (.new "a" .dummy)) .present).after equipped
  { world with
    channel :=
      { world.channel with peer := { world.channel.peer with repliesDropped := true } } }

/-- The world after an address was asked for there, and the link went without a word. -/
def World.vacated : World :=
  let world := (Call.submit (.address .onSecond) .present).after unreported
  { world with
    channel :=
      { world.channel with
        peer :=
          { (world.channel.peer.intervene (.link (.new "a" .dummy)) .absent true).1 with
            repliesDropped := false } } }

/-- The session that asks for the link to be deleted there; the address is still awaited. -/
def Session.deleting : Session :=
  ((Call.submit (.link (.new "a" .dummy)) .absent).after World.vacated).session

theorem Session.arises_deleting : Session.deleting.Arises := by
  obtain ⟨_, h⟩ := Operated.equipped.exists_after (.apply (.link (.new "a" .dummy)) .present)
    (by decide +kernel)
  have hunreported : Operated _ World.unreported := h.disturbed _ _ _
  obtain ⟨_, h⟩ := hunreported.exists_after (.submit (.address .onSecond) .present)
    (by decide +kernel)
  have hvacated : Operated _ World.vacated := h.disturbed _ _ _
  obtain ⟨_, h⟩ := hvacated.exists_after (.submit (.link (.new "a" .dummy)) .absent)
    (by decide +kernel)
  exact Arises.within h Moves.nil

theorem Session.relinquishes_of_loses_deleting :
    let turn := Turn.taken (.notice .link .del (.link { Link.new "a" .dummy with index := 2 }))
    Session.deleting.inventory.Loses 2 (Session.deleting.turn 0 turn).inventory ∧
      ¬ Session.deleting.IsMoot turn ∧
      Session.deleting.Relinquishes 2 (Session.deleting.turn 0 turn) := by
  intro turn
  have hlost : Session.deleting.inventory.Loses 2 (Session.deleting.turn 0 turn).inventory :=
    ⟨by decide +kernel, by decide +kernel⟩
  have hmoot : ¬ Session.deleting.IsMoot turn := by
    rintro ⟨seq, fault, op, hturn, -⟩
    exact absurd hturn (by simp [turn])
  exact ⟨hlost, hmoot, (arises_deleting.relinquishes_of_loses hlost).1 hmoot⟩

/-- When the kernel says that there is no link to be deleted, the session loses it and goes on
waiting for its address. -/
theorem Session.exists_loses_not_relinquishes :
    ∃ (session : Session) (now : Nat) (turn : Turn) (index : UInt32), session.Arises ∧
      session.inventory.Loses index (session.turn now turn).inventory ∧
      ∃ op ∈ (session.turn now turn).operations, op.target? = some index := by
  refine ⟨.deleting, 0, .taken (.reply 3 (.error (.kernel 19 none))), 2, arises_deleting,
    ⟨by decide +kernel, by decide +kernel⟩, ?_⟩
  decide +kernel

end NetState
