import NetState.Proofs.Inventory.Consistent

/-!
What goes along with an object that goes.

All removals come down to `drop`, which empties one slot: a property that it keeps is kept by every
cascade. What a cascade takes is told by the objects alone: with a link goes what it owns, with a
discipline go the filters below it. That the disciplines of a link drop filters themselves adds
nothing, because those belong to the link too.
-/

namespace NetState

/-- Whether an object is a filter that hangs at a place. -/
def Object.hangsAt (object : Object) (hook : Hook) : Bool :=
  match object with
  | .filter f => f.hangsAt hook
  | _ => false

/-- Whether `object` goes when `gone` does. -/
def Object.takesAlong (gone object : Object) : Bool :=
  match gone with
  | .link l => object.owner? == some l.index
  | _ => gone.hooks.any object.hangsAt

namespace Revision

/-- A property of revisions that emptying a slot keeps. -/
def KeptByDrop (property : Revision → Prop) : Prop :=
  ∀ revision slot, property revision → property (revision.drop slot)

section

variable {property : Revision → Prop}

theorem KeptByDrop.foldl_drop (h : KeptByDrop property) (slots : List Slot) {revision : Revision}
    (hrevision : property revision) : property (slots.foldl drop revision) :=
  List.foldlRecOn slots drop hrevision fun _ hbefore slot _ => h _ slot hbefore

theorem KeptByDrop.dropAt (h : KeptByDrop property) (hook : Hook) {revision : Revision}
    (hrevision : property revision) : property (revision.dropAt hook) :=
  h.foldl_drop _ hrevision

theorem KeptByDrop.dropAtAll (h : KeptByDrop property) (hooks : List Hook) {revision : Revision}
    (hrevision : property revision) : property (revision.dropAtAll hooks) :=
  List.foldlRecOn hooks Revision.dropAt hrevision fun _ hbefore hook _ => h.dropAt hook hbefore

theorem KeptByDrop.dropWithFilters (h : KeptByDrop property) (slot : Slot) {revision : Revision}
    (hrevision : property revision) : property (revision.dropWithFilters slot) := by
  rw [Revision.dropWithFilters]
  split
  · exact hrevision
  · exact h.dropAtAll _ (h revision slot hrevision)

theorem KeptByDrop.foldl_dropWithFilters (h : KeptByDrop property) (slots : List Slot)
    {revision : Revision} (hrevision : property revision) :
    property (slots.foldl Revision.dropWithFilters revision) :=
  List.foldlRecOn slots Revision.dropWithFilters hrevision
    fun _ hbefore slot _ => h.dropWithFilters slot hbefore

theorem KeptByDrop.cascade (h : KeptByDrop property) (gone : Object) {revision : Revision}
    (hrevision : property revision) : property (revision.cascade gone) := by
  rw [Revision.cascade.eq_def]
  split
  · exact h.foldl_dropWithFilters _ hrevision
  · exact h.dropAtAll _ hrevision

theorem KeptByDrop.foldl_cascade (h : KeptByDrop property) (gone : List Object)
    {revision : Revision} (hrevision : property revision) :
    property (gone.foldl Revision.cascade revision) :=
  List.foldlRecOn gone Revision.cascade hrevision
    fun _ hbefore object _ => h.cascade object hbefore

end

theorem lookup_drop (revision : Revision) (place slot : Slot) :
    (revision.drop place).inventory.lookup slot =
      if place = slot then none else revision.inventory.lookup slot := by
  rw [drop]
  split
  · rename_i hnone
    split
    · rename_i heq
      rw [← heq, hnone]
    · rfl
  · exact Inventory.lookup_discard _ _ _ _

theorem keptByDrop_consistent : KeptByDrop fun revision => revision.inventory.Consistent := by
  intro revision slot h
  rw [drop]
  split
  · exact h
  · rename_i object hobject
    exact h.discard hobject

theorem keptByDrop_sub (inventory : Inventory) : KeptByDrop fun revision =>
    ∀ slot object, revision.inventory.lookup slot = some object →
      inventory.lookup slot = some object := by
  intro revision place h slot object hobject
  rw [lookup_drop] at hobject
  split at hobject
  · exact absurd hobject (by simp)
  · exact h slot object hobject

theorem keptByDrop_empty (slot : Slot) : KeptByDrop fun revision =>
    revision.inventory.lookup slot = none := by
  intro revision place h
  rw [lookup_drop, h, ite_self]

theorem lookup_foldl_drop (slots : List Slot) (revision : Revision) (slot : Slot) :
    (slots.foldl drop revision).inventory.lookup slot =
      if slot ∈ slots then none else revision.inventory.lookup slot := by
  induction slots generalizing revision with
  | nil => rfl
  | cons first rest ih =>
      rw [List.foldl_cons, ih, lookup_drop]
      by_cases hrest : slot ∈ rest
      · simp [hrest]
      · by_cases hfirst : first = slot
        · simp [hfirst]
        · simp [hrest, hfirst, Ne.symm hfirst]

end Revision

namespace Inventory

theorem mem_ofKind_iff {inventory : Inventory} {kind : Kind} {object : Object} :
    object ∈ inventory.ofKind kind ↔
      ∃ slot, inventory.lookup slot = some object ∧ slot.kind = kind := by
  simp only [ofKind, List.mem_map, List.mem_filter, beq_iff_eq, lookup, Table.get?_eq_some_iff]
  constructor
  · rintro ⟨⟨slot, _⟩, ⟨hmem, hkind⟩, rfl⟩
    exact ⟨slot, hmem, hkind⟩
  · rintro ⟨slot, hmem, hkind⟩
    exact ⟨(slot, object), ⟨hmem, hkind⟩, rfl⟩

theorem Consistent.mem_slotsAt_iff {inventory : Inventory} (h : inventory.Consistent) {hook : Hook}
    {slot : Slot} :
    slot ∈ inventory.slotsAt hook ↔
      ∃ object, inventory.lookup slot = some object ∧ object.hangsAt hook := by
  simp only [slotsAt, List.mem_filterMap, mem_ofKind_iff]
  constructor
  · rintro ⟨object, ⟨place, hplace, -⟩, hslot⟩
    cases object with
    | filter f =>
        simp only [Option.ite_none_right_eq_some, Option.some.injEq] at hslot
        obtain ⟨hhangs, rfl⟩ := hslot
        exact ⟨.filter f, h.placed hplace ▸ hplace, hhangs⟩
    | _ => exact absurd hslot (by simp)
  · rintro ⟨object, hobject, hhangs⟩
    cases object with
    | filter f =>
        refine ⟨.filter f, ⟨slot, hobject, ?_⟩, ?_⟩
        · rw [← h.placed hobject]
          rfl
        · rw [← h.placed hobject]
          exact if_pos hhangs
    | _ => exact absurd hhangs (by simp [Object.hangsAt])

theorem Consistent.filter_dropped {inventory : Inventory} (h : inventory.Consistent)
    (place slot : Slot) (keep : Object → Bool) :
    (if place = slot then none else inventory.lookup slot).filter keep =
      (inventory.lookup slot).filter fun object => object.slot != place && keep object := by
  cases hobject : inventory.lookup slot with
  | none => simp
  | some object =>
      have hslot := h.placed hobject
      by_cases heq : place = slot
      · rw [if_pos heq, Option.filter_some, heq, hslot]
        simp
      · have hne : ¬object.slot = place := fun hsame => heq (hsame ▸ hslot)
        simp [heq, hne, Option.filter_some]

end Inventory

namespace Revision

theorem lookup_dropAt {revision : Revision} (h : revision.inventory.Consistent) (hook : Hook)
    (slot : Slot) :
    (revision.dropAt hook).inventory.lookup slot =
      (revision.inventory.lookup slot).filter fun object => !object.hangsAt hook := by
  rw [dropAt, lookup_foldl_drop]
  simp only [h.mem_slotsAt_iff]
  cases revision.inventory.lookup slot with
  | none => simp
  | some object => by_cases hhangs : object.hangsAt hook <;> simp [hhangs, Option.filter_some]

theorem lookup_dropAtAll {revision : Revision} (h : revision.inventory.Consistent)
    (hooks : List Hook) (slot : Slot) :
    (revision.dropAtAll hooks).inventory.lookup slot =
      (revision.inventory.lookup slot).filter fun object => !hooks.any object.hangsAt := by
  induction hooks generalizing revision with
  | nil =>
      rw [dropAtAll, List.foldl_nil]
      cases revision.inventory.lookup slot <;> rfl
  | cons hook rest ih =>
      have hrest := ih (keptByDrop_consistent.dropAt hook h)
      rw [dropAtAll] at hrest
      rw [dropAtAll, List.foldl_cons, hrest, lookup_dropAt h, Option.filter_filter]
      congr 1
      funext object
      simp

theorem owner?_of_hangsAt {gone object : Object} {interface : UInt32} {hook : Hook}
    (hgone : gone.owner? = some interface) (hhook : hook ∈ gone.hooks)
    (hhangs : object.hangsAt hook) : object.owner? = some interface := by
  cases gone with
  | discipline d =>
      cases object with
      | filter f =>
          have hsame : (Object.filter f).interface = (Object.discipline d).interface := by
            rw [Object.hooks, Discipline.hooks] at hhook
            split at hhook
            · exact absurd hhook (by simp)
            · rw [List.mem_singleton] at hhook
              rw [hhook] at hhangs
              simp only [Object.hangsAt, Filter.hangsAt, Bool.and_eq_true, beq_iff_eq] at hhangs
              exact hhangs.1
          rw [Object.owner?, hsame]
          exact hgone
      | _ => exact absurd hhangs (by simp [Object.hangsAt])
  | _ => exact absurd hhook (by simp [Object.hooks])

theorem lookup_dropWithFilters {revision : Revision} (h : revision.inventory.Consistent)
    {place : Slot} {gone : Object} (hplace : revision.inventory.lookup place = some gone)
    (slot : Slot) :
    (revision.dropWithFilters place).inventory.lookup slot =
      (revision.inventory.lookup slot).filter fun object =>
        object.slot != place && !gone.hooks.any object.hangsAt := by
  rw [dropWithFilters, hplace]
  simp only
  rw [lookup_dropAtAll (keptByDrop_consistent revision place h), lookup_drop]
  exact h.filter_dropped place slot _

section

variable {interface : UInt32} {slots : List Slot}

theorem lookup_foldl_dropWithFilters_of_mem {revision : Revision} {slot : Slot}
    (hslot : slot ∈ slots) :
    (slots.foldl dropWithFilters revision).inventory.lookup slot = none := by
  induction slots generalizing revision with
  | nil => exact absurd hslot (by simp)
  | cons first rest ih =>
      rw [List.foldl_cons]
      rcases List.mem_cons.mp hslot with rfl | hrest
      · refine (keptByDrop_empty slot).foldl_dropWithFilters rest ?_
        rw [dropWithFilters]
        split
        · assumption
        · refine (keptByDrop_empty slot).dropAtAll _ ?_
          rw [lookup_drop, if_pos rfl]
      · exact ih hrest

theorem lookup_foldl_dropWithFilters_of_owner {revision : Revision}
    (h : revision.inventory.Consistent)
    (hslots : ∀ slot ∈ slots, ∀ object, revision.inventory.lookup slot = some object →
      object.owner? = some interface) {slot : Slot} {object : Object}
    (hobject : revision.inventory.lookup slot = some object)
    (howner : object.owner? ≠ some interface) :
    (slots.foldl dropWithFilters revision).inventory.lookup slot = some object := by
  induction slots generalizing revision with
  | nil => exact hobject
  | cons first rest ih =>
      rw [List.foldl_cons]
      have hsub := (keptByDrop_sub revision.inventory).dropWithFilters first
        fun _ _ hsame => hsame
      refine ih (keptByDrop_consistent.dropWithFilters first h) ?_ ?_
      · intro place hplace found hfound
        exact hslots place (List.mem_cons_of_mem first hplace) found (hsub place found hfound)
      · cases hfirst : revision.inventory.lookup first with
        | none => rwa [dropWithFilters, hfirst]
        | some gone =>
            have hgone := hslots first List.mem_cons_self gone hfirst
            rw [lookup_dropWithFilters h hfirst, hobject, Option.filter_some, if_pos]
            rw [Bool.and_eq_true, bne_iff_ne, Bool.not_eq_true', List.any_eq_false]
            refine ⟨?_, ?_⟩
            · intro hsame
              rw [← h.placed hobject, hsame] at hobject
              rw [hfirst] at hobject
              exact howner (Option.some.inj hobject ▸ hgone)
            · intro hook hhook hhangs
              exact howner (owner?_of_hangsAt hgone hhook hhangs)

end

/-- What a cascade leaves is what does not go along. -/
theorem lookup_cascade {revision : Revision} (h : revision.inventory.Consistent) (gone : Object)
    (slot : Slot) :
    (revision.cascade gone).inventory.lookup slot =
      (revision.inventory.lookup slot).filter fun object => !gone.takesAlong object := by
  cases gone with
  | link l =>
      rw [cascade]
      have hslots : ∀ place ∈ revision.inventory.slotsOwnedBy l.index, ∀ object,
          revision.inventory.lookup place = some object → object.owner? = some l.index := by
        intro place hplace object hobject
        obtain ⟨owned, howned, howner⟩ := h.noted_iff.mp hplace
        rw [hobject] at howned
        rw [Option.some.inj howned, howner]
      cases hobject : revision.inventory.lookup slot with
      | none =>
          rw [Option.filter_none]
          exact (keptByDrop_empty slot).foldl_dropWithFilters _ hobject
      | some object =>
          by_cases howner : object.owner? = some l.index
          · rw [lookup_foldl_dropWithFilters_of_mem
              (h.noted_iff.mpr ⟨object, hobject, howner⟩)]
            simp [Option.filter_some, Object.takesAlong, howner]
          · rw [lookup_foldl_dropWithFilters_of_owner h hslots hobject howner]
            simp [Option.filter_some, Object.takesAlong, howner]
  | _ => exact lookup_dropAtAll h _ slot

theorem lookup_foldl_cascade {revision : Revision} (h : revision.inventory.Consistent)
    (gone : List Object) (slot : Slot) :
    (gone.foldl cascade revision).inventory.lookup slot =
      (revision.inventory.lookup slot).filter fun object => !gone.any (·.takesAlong object) := by
  induction gone generalizing revision with
  | nil =>
      rw [List.foldl_nil]
      cases revision.inventory.lookup slot <;> rfl
  | cons first rest ih =>
      rw [List.foldl_cons, ih (keptByDrop_consistent.cascade first h), lookup_cascade h,
        Option.filter_filter]
      congr 1
      funext object
      simp

end Revision

end NetState
