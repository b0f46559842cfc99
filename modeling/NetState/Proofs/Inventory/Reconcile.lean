import NetState.Proofs.Inventory.Find
import NetState.Proofs.Inventory.Replay
import NetState.Proofs.Inventory.Withdrawal

namespace NetState

/-- Whether an event is what became of the entry in its slot. -/
def Event.Tells (event : Event) (before after : Inventory) : Prop :=
  match event.alteration with
  | .added => before.lookup event.object.slot = none ∧
      after.lookup event.object.slot = some event.object
  | .updated => (∃ previous, before.lookup event.object.slot = some previous ∧
      previous ≠ event.object) ∧ after.lookup event.object.slot = some event.object
  | .removed => before.lookup event.object.slot = some event.object ∧
      after.lookup event.object.slot = none

/-- Whether an object goes because an entry of a kind did, or because one took another handle. -/
def Object.Follows (object : Object) (kind : Kind) (before after : Inventory) : Prop :=
  ∃ slot previous, slot.kind = kind ∧ before.lookup slot = some previous ∧
    (after.lookup slot = none ∧ object.LeavesWith previous ∨
      ∃ fresh, after.lookup slot = some fresh ∧ object.LosesHold previous fresh)

namespace Table

variable {κ ν μ : Type} [Coded κ] [DecidableEq κ]

theorem size_eq_of_keys {first : Table κ ν} {second : Table κ μ}
    (h : ∀ key, (first.get? key).isSome = (second.get? key).isSome) :
    first.size = second.size := by
  have hperm : first.keys.Perm second.keys := by
    refine (List.perm_ext_iff_of_nodup first.nodup_keys second.nodup_keys).mpr ?_
    intro key
    rw [mem_keys_iff, mem_keys_iff, ← Option.isSome_iff_exists, ← Option.isSome_iff_exists, h]
  have hlength := hperm.length_eq
  rwa [keys, keys, List.length_map, List.length_map] at hlength

omit [DecidableEq κ] in
theorem size_filter_add (table : Table κ ν) (keep : κ → ν → Bool) :
    (table.filter keep).size + (table.filter fun key value => !keep key value).size =
      table.size :=
  (List.length_eq_length_filter_add _).symm

end Table

namespace Inventory

theorem Consistent.owned_of_lookup {first second : Inventory} (hfirst : first.Consistent)
    (hsecond : second.Consistent) (h : ∀ slot, first.lookup slot = second.lookup slot)
    {interface : UInt32} {slots : Table Slot Unit}
    (hslots : first.owned.get? interface = some slots) :
    second.owned.get? interface = some slots := by
  have hnoted (slot : Slot) :
      IsNoted first.owned interface slot ↔ IsNoted second.owned interface slot := by
    rw [← mem_slotsOwnedBy_iff, ← mem_slotsOwnedBy_iff, hfirst.noted_iff, hsecond.noted_iff, h]
  obtain ⟨⟨place, _⟩, hplace⟩ := List.exists_mem_of_ne_nil _ (hfirst.occupied hslots)
  have hcontains : slots.contains place :=
    Table.contains_iff.mpr ⟨_, Table.get?_eq_some_iff.mpr hplace⟩
  obtain ⟨others, hothers, -⟩ := (hnoted place).mp ⟨slots, hslots, hcontains⟩
  have hsame : slots = others := by
    refine Table.ext_get? ?_
    intro slot
    have hslot := hnoted slot
    simp only [IsNoted, hslots, hothers, Option.some.injEq, exists_eq_left',
      Table.contains] at hslot
    rw [← Bool.eq_iff_iff] at hslot
    cases hleft : slots.get? slot <;> cases hright : others.get? slot <;> simp_all
  rw [hothers, hsame]

/-- Consistent inventories with the same lookups are the same, their notes included. -/
theorem Consistent.ext {first second : Inventory} (hfirst : first.Consistent)
    (hsecond : second.Consistent) (h : ∀ slot, first.lookup slot = second.lookup slot) :
    first = second := by
  have howned : first.owned = second.owned := by
    refine Table.ext_get? ?_
    intro interface
    ext slots
    exact ⟨hfirst.owned_of_lookup hsecond h,
      hsecond.owned_of_lookup hfirst fun slot => (h slot).symm⟩
  have hentries : first.entries = second.entries := Table.ext_get? h
  cases first
  cases second
  simp only at howned hentries
  rw [howned, hentries]

theorem Consistent.exists_tells_iff {before after : Inventory} (hbefore : before.Consistent)
    (hafter : after.Consistent) {slot : Slot} :
    (∃ event : Event, event.object.slot = slot ∧ event.Tells before after) ↔
      before.lookup slot ≠ after.lookup slot := by
  constructor
  · rintro ⟨⟨alteration, object⟩, rfl, htells⟩
    cases alteration with
    | added => simp [htells.1, htells.2]
    | updated =>
        obtain ⟨⟨previous, hprevious, hne⟩, hnow⟩ := htells
        simpa [hprevious, hnow] using hne
    | removed => simp [htells.1, htells.2]
  · intro hne
    cases hnow : after.lookup slot with
    | some object =>
        obtain rfl := hafter.placed hnow
        cases hprevious : before.lookup object.slot with
        | none => exact ⟨⟨.added, object⟩, rfl, hprevious, hnow⟩
        | some previous =>
            refine ⟨⟨.updated, object⟩, rfl, ⟨previous, hprevious, ?_⟩, hnow⟩
            rintro rfl
            exact hne (hprevious.trans hnow.symm)
    | none =>
        cases hprevious : before.lookup slot with
        | none => exact absurd (hprevious.trans hnow.symm) hne
        | some previous =>
            obtain rfl := hbefore.placed hprevious
            exact ⟨⟨.removed, previous⟩, rfl, hprevious, hnow⟩

variable {inventory : Inventory} {kind : Kind} {objects : List Object}

theorem get?_listed {slot : Slot} (hkind : slot.kind = kind) :
    (listed kind objects).get? slot = objects.reverse.find? (·.slot == slot) := by
  rw [listed, Table.get?_ofList, Table.lookup, ← List.map_reverse, List.find?_map, Option.map_map,
    ← List.filter_reverse, List.find?_filter]
  have hsame : (fun object : Object => object.kind == kind && object.slot == slot) =
      fun object => object.slot == slot := by
    funext object
    by_cases hslot : object.slot = slot
    · have hobject : object.kind = kind := (congrArg Slot.kind hslot).trans hkind
      simp [hslot, hobject]
    · simp [hslot]
  simp only [Function.comp_def, Bool.decide_and, Bool.decide_eq_true, hsame, Option.map_id']

theorem kind_of_listed {slot : Slot} {object : Object}
    (h : (listed kind objects).get? slot = some object) : slot.kind = kind := by
  obtain ⟨-, hkind, hslot⟩ := mem_listed h
  rw [← hslot]
  exact hkind

theorem Consistent.lookup_reconcile_listed (h : inventory.Consistent) {slot : Slot}
    (hkind : slot.kind = kind) :
    (inventory.reconcile kind objects).2.inventory.lookup slot =
      (listed kind objects).get? slot := by
  rw [lookup_reconcile h, if_pos hkind]

theorem Consistent.part_reconcile (h : inventory.Consistent) :
    (inventory.reconcile kind objects).2.inventory.part kind = listed kind objects := by
  refine Table.ext_get? ?_
  intro slot
  rw [get?_part]
  split
  · rename_i hkind
    exact h.lookup_reconcile_listed hkind
  · rename_i hkind
    cases hlisted : (listed kind objects).get? slot with
    | none => rfl
    | some object => exact absurd (kind_of_listed hlisted) hkind

theorem count_eq_size_part (inventory : Inventory) (kind : Kind) :
    inventory.count kind = (inventory.part kind).size := by
  rw [count, ofKind, List.length_map]
  rfl

theorem length_newsOf (inventory : Inventory) (entries : List (Slot × Object)) :
    let news := entries.filterMap fun entry => inventory.newsOf? entry.1 entry.2
    (news.filter (·.alteration == .removed)).length = 0 ∧
      (news.filter (·.alteration == .added)).length +
        (news.filter (·.alteration == .updated)).length = news.length ∧
      (news.filter (·.alteration == .added)).length +
        (entries.filter fun entry => (inventory.lookup entry.1).isSome).length = entries.length ∧
      news.length +
        (entries.filter fun entry => inventory.lookup entry.1 == some entry.2).length =
          entries.length := by
  induction entries with
  | nil => exact ⟨rfl, rfl, rfl, rfl⟩
  | cons first rest ih =>
      obtain ⟨slot, object⟩ := first
      obtain ⟨hremoved, hnews, hadded, hsame⟩ := ih
      cases hlookup : inventory.lookup slot with
      | none =>
          simp only [List.filterMap_cons, List.filter_cons, newsOf?_of_eq_none hlookup, hlookup]
          refine ⟨hremoved, ?_, ?_, ?_⟩ <;> simp <;> omega
      | some previous =>
          by_cases heq : previous = object
          · rw [heq] at hlookup
            simp only [List.filterMap_cons, List.filter_cons, newsOf?_self hlookup, hlookup]
            refine ⟨hremoved, hnews, ?_, ?_⟩ <;> simp <;> omega
          · simp only [List.filterMap_cons, List.filter_cons, newsOf?_of_ne hlookup heq, hlookup]
            refine ⟨hremoved, ?_, ?_, ?_⟩ <;> simp [heq] <;> omega

theorem length_missing_add (inventory : Inventory) (kind : Kind) (objects : List Object) :
    (inventory.missing kind objects).length +
      ((listed kind objects).filter fun slot _ => (inventory.lookup slot).isSome).size =
        inventory.count kind := by
  have hboth : ((listed kind objects).filter fun slot _ => (inventory.lookup slot).isSome).size =
      ((inventory.part kind).filter fun slot _ => (listed kind objects).contains slot).size := by
    refine Table.size_eq_of_keys ?_
    intro slot
    rw [Table.get?_filter, Table.get?_filter, get?_part, Table.contains]
    cases hlisted : (listed kind objects).get? slot with
    | none => cases (if slot.kind = kind then inventory.lookup slot else none) <;> simp
    | some object =>
        rw [if_pos (kind_of_listed hlisted)]
        cases inventory.lookup slot <;> simp
  have hmissing : (inventory.missing kind objects).length =
      ((inventory.part kind).filter fun slot _ => !(listed kind objects).contains slot).size := by
    rw [missing, List.length_map]
    rfl
  rw [hboth, hmissing, count_eq_size_part, Nat.add_comm]
  exact Table.size_filter_add _ _

/-- What a listing adds, changes and lacks, as events. -/
def tidings (inventory : Inventory) (kind : Kind) (objects : List Object) : List Event :=
  inventory.listedNews kind objects ++
    (inventory.missing kind objects).map fun object => ⟨.removed, object⟩

theorem mem_listedNews_iff {event : Event} :
    event ∈ inventory.listedNews kind objects ↔
      (listed kind objects).get? event.object.slot = some event.object ∧
        inventory.newsOf? event.object.slot event.object = some event := by
  simp only [listedNews, List.mem_filterMap]
  constructor
  · rintro ⟨⟨slot, object⟩, hentry, hnews⟩
    have hlisted := Table.get?_eq_some_iff.mpr hentry
    have hslot := (mem_listed hlisted).2.2
    have hobject : event.object = object := by
      simp only [newsOf?] at hnews
      split at hnews
      · rw [← Option.some.inj hnews]
      · split at hnews
        · exact absurd hnews (by simp)
        · rw [← Option.some.inj hnews]
    rw [hobject, hslot]
    exact ⟨hlisted, hnews⟩
  · rintro ⟨hlisted, hnews⟩
    exact ⟨_, Table.get?_eq_some_iff.mp hlisted, hnews⟩

theorem sublist_slots_newsOf (inventory : Inventory) {entries : List (Slot × Object)}
    (hslots : ∀ entry ∈ entries, entry.2.slot = entry.1) :
    ((entries.filterMap fun entry => inventory.newsOf? entry.1 entry.2).map
      (·.object.slot)).Sublist (entries.map (·.1)) := by
  induction entries with
  | nil => exact List.Sublist.refl []
  | cons first rest ih =>
      obtain ⟨slot, object⟩ := first
      have hrest := ih fun entry hentry => hslots entry (List.mem_cons_of_mem _ hentry)
      have hslot : object.slot = slot := hslots (slot, object) List.mem_cons_self
      rw [List.filterMap_cons, List.map_cons]
      cases hlookup : inventory.lookup slot with
      | none =>
          rw [newsOf?_of_eq_none hlookup, List.map_cons, hslot]
          exact hrest.cons_cons slot
      | some previous =>
          by_cases heq : previous = object
          · rw [newsOf?_self (heq ▸ hlookup)]
            exact hrest.cons slot
          · rw [newsOf?_of_ne hlookup heq, List.map_cons, hslot]
            exact hrest.cons_cons slot

theorem nodup_slots_tidings (h : inventory.Consistent) (kind : Kind) (objects : List Object) :
    ((inventory.tidings kind objects).map (·.object.slot)).Nodup := by
  rw [tidings, List.map_append, List.map_map, List.nodup_append]
  refine ⟨(listed kind objects).nodup_keys.sublist (sublist_slots_newsOf inventory ?_),
    nodup_slots_missing h kind objects, ?_⟩
  · intro entry hentry
    exact (mem_listed (Table.get?_eq_some_iff.mpr hentry)).2.2
  rintro slot hnews _ hmissing rfl
  obtain ⟨event, hevent, rfl⟩ := List.mem_map.mp hnews
  have hlisted := (mem_listedNews_iff.mp hevent).1
  have hnone := ((mem_slots_missing_iff h).mp hmissing).2.1
  exact absurd (hlisted.symm.trans hnone) (by simp)

/-- The news of a listing are just what became of the entries of its kind. -/
theorem mem_tidings_iff (h : inventory.Consistent) {event : Event} :
    event ∈ inventory.tidings kind objects ↔ event.kind = kind ∧
      event.Tells inventory (inventory.reconcile kind objects).2.inventory := by
  obtain ⟨alteration, object⟩ := event
  have hafter (hkind : object.kind = kind) :
      (inventory.reconcile kind objects).2.inventory.lookup object.slot =
        (listed kind objects).get? object.slot := h.lookup_reconcile_listed hkind
  rw [tidings, List.mem_append, mem_listedNews_iff, List.mem_map]
  constructor
  · rintro (⟨hlisted, hnews⟩ | ⟨found, hmissing, hfound⟩)
    · have hkind : object.kind = kind := kind_of_listed hlisted
      have hnow := (hafter hkind).trans hlisted
      refine ⟨hkind, ?_⟩
      cases hlookup : inventory.lookup object.slot with
      | none =>
          rw [newsOf?_of_eq_none hlookup, Option.some.injEq, Event.mk.injEq] at hnews
          obtain ⟨rfl, -⟩ := hnews
          exact ⟨hlookup, hnow⟩
      | some previous =>
          by_cases hsame : previous = object
          · rw [newsOf?_self (hsame ▸ hlookup)] at hnews
            exact absurd hnews (by simp)
          · rw [newsOf?_of_ne hlookup hsame, Option.some.injEq, Event.mk.injEq] at hnews
            obtain ⟨rfl, -⟩ := hnews
            exact ⟨⟨previous, hlookup, hsame⟩, hnow⟩
    · obtain ⟨slot, hslot, hkind, hnone⟩ := mem_missing_iff.mp hmissing
      obtain ⟨rfl, rfl⟩ := Event.mk.inj hfound
      obtain rfl := h.placed hslot
      exact ⟨hkind, hslot, (hafter hkind).trans hnone⟩
  · rintro ⟨hkind, htells⟩
    have hlisted := hafter hkind
    cases alteration with
    | added => exact Or.inl ⟨hlisted.symm.trans htells.2, newsOf?_of_eq_none htells.1⟩
    | updated =>
        obtain ⟨⟨previous, hprevious, hne⟩, hnow⟩ := htells
        exact Or.inl ⟨hlisted.symm.trans hnow, newsOf?_of_ne hprevious hne⟩
    | removed =>
        refine Or.inr ⟨object, mem_missing_iff.mpr ?_, rfl⟩
        exact ⟨object.slot, htells.1, hkind, hlisted.symm.trans htells.2⟩

theorem mem_slots_tidings_iff (h : inventory.Consistent) {slot : Slot} (hkind : slot.kind = kind) :
    slot ∈ (inventory.tidings kind objects).map (·.object.slot) ↔
      inventory.lookup slot ≠ (inventory.reconcile kind objects).2.inventory.lookup slot := by
  rw [← h.exists_tells_iff (h.reconcile kind objects), List.mem_map]
  constructor
  · rintro ⟨event, hevent, hslot⟩
    exact ⟨event, hslot, ((mem_tidings_iff h).mp hevent).2⟩
  · rintro ⟨event, rfl, htells⟩
    exact ⟨event, (mem_tidings_iff h).mpr ⟨hkind, htells⟩, rfl⟩

theorem any_missing_iff {object : Object} :
    (inventory.missing kind objects).any (·.takesAlong object) = true ↔
      ∃ slot previous, slot.kind = kind ∧ inventory.lookup slot = some previous ∧
        (listed kind objects).get? slot = none ∧ object.LeavesWith previous := by
  simp only [List.any_eq_true, mem_missing_iff, Object.takesAlong_iff]
  constructor
  · rintro ⟨previous, ⟨slot, hprevious, hkind, hnone⟩, hleaves⟩
    exact ⟨slot, previous, hkind, hprevious, hnone, hleaves⟩
  · rintro ⟨slot, previous, hkind, hprevious, hnone, hleaves⟩
    exact ⟨previous, ⟨slot, hprevious, hkind, hnone⟩, hleaves⟩

theorem Consistent.any_hooksLostIn_iff (h : inventory.Consistent) {object : Object} :
    (inventory.hooksLostIn kind objects).any object.hangsAt = true ↔
      ∃ slot previous fresh, inventory.lookup slot = some previous ∧
        (listed kind objects).get? slot = some fresh ∧ object.LosesHold previous fresh := by
  rw [hooksLostIn, List.any_flatMap, List.any_eq_true]
  constructor
  · rintro ⟨⟨slot, fresh⟩, hentry, hlost⟩
    have hlisted := Table.get?_eq_some_iff.mpr hentry
    obtain rfl := (mem_listed hlisted).2.2
    obtain ⟨previous, hprevious, hloses⟩ := h.any_hooksLost_iff.mp hlost
    exact ⟨_, previous, fresh, hprevious, hlisted, hloses⟩
  · rintro ⟨slot, previous, fresh, hprevious, hlisted, hloses⟩
    obtain rfl := (mem_listed hlisted).2.2
    exact ⟨_, Table.get?_eq_some_iff.mp hlisted,
      h.any_hooksLost_iff.mpr ⟨previous, hprevious, hloses⟩⟩

theorem Consistent.lookup_reconcile_eq_none_iff (h : inventory.Consistent) {object : Object}
    (hkind : object.kind ≠ kind) (hobject : inventory.lookup object.slot = some object) :
    (inventory.reconcile kind objects).2.inventory.lookup object.slot = none ↔
      object.Follows kind inventory (inventory.reconcile kind objects).2.inventory := by
  have hafter {slot : Slot} (hslot : slot.kind = kind) :
      (inventory.reconcile kind objects).2.inventory.lookup slot =
        (listed kind objects).get? slot := h.lookup_reconcile_listed hslot
  have hgoes : (inventory.reconcile kind objects).2.inventory.lookup object.slot = none ↔
      (inventory.missing kind objects).any (·.takesAlong object) = true ∨
        (inventory.hooksLostIn kind objects).any object.hangsAt = true := by
    have hother : ¬object.slot.kind = kind := hkind
    rw [lookup_reconcile h, if_neg hother, hobject, Option.filter_some]
    cases (inventory.missing kind objects).any (·.takesAlong object) <;>
      cases (inventory.hooksLostIn kind objects).any object.hangsAt <;> simp
  rw [hgoes, any_missing_iff, h.any_hooksLostIn_iff]
  constructor
  · rintro (⟨slot, previous, hslot, hprevious, hnone, hleaves⟩ |
      ⟨slot, previous, fresh, hprevious, hlisted, hloses⟩)
    · exact ⟨slot, previous, hslot, hprevious, Or.inl ⟨(hafter hslot).trans hnone, hleaves⟩⟩
    · have hslot := kind_of_listed hlisted
      exact ⟨slot, previous, hslot, hprevious,
        Or.inr ⟨fresh, (hafter hslot).trans hlisted, hloses⟩⟩
  · rintro ⟨slot, previous, hslot, hprevious, ⟨hnone, hleaves⟩ | ⟨fresh, hfresh, hloses⟩⟩
    · exact Or.inl ⟨slot, previous, hslot, hprevious, (hafter hslot).symm.trans hnone, hleaves⟩
    · exact Or.inr ⟨slot, previous, fresh, hprevious, (hafter hslot).symm.trans hfresh, hloses⟩

theorem Consistent.sheds_reconcile (h : inventory.Consistent) (kind : Kind)
    (objects : List Object) : ∃ gone,
      (⟨inventory.refilled kind objects, inventory.tidings kind objects⟩ : Revision).Sheds
        (inventory.reconcile kind objects).2 gone := by
  have hkept : Revision.KeptByDrop fun after => ∃ gone, Revision.Sheds
      ⟨inventory.refilled kind objects, inventory.tidings kind objects⟩ after gone :=
    Revision.keptByDrop_sheds (h.refilled kind objects).1
  rw [reconcile_revision]
  exact hkept.dropAtAll _ (hkept.foldl_cascade _ ⟨[], .refl _⟩)

theorem reconcile_tally (inventory : Inventory) (kind : Kind) (objects : List Object) :
    (inventory.reconcile kind objects).1 = {
      added := ((inventory.listedNews kind objects).filter (·.alteration == .added)).length
      updated := ((inventory.listedNews kind objects).filter (·.alteration == .updated)).length
      removed := (inventory.missing kind objects).length
      unchanged := (listed kind objects).size - (inventory.listedNews kind objects).length } := rfl

theorem tally_eq_tidings (inventory : Inventory) (kind : Kind) (objects : List Object) :
    let tally := (inventory.reconcile kind objects).1
    let news := inventory.tidings kind objects
    tally.added = (news.filter (·.alteration == .added)).length ∧
      tally.updated = (news.filter (·.alteration == .updated)).length ∧
      tally.removed = (news.filter (·.alteration == .removed)).length := by
  have hlength (alteration : Alteration) :
      ((inventory.tidings kind objects).filter (·.alteration == alteration)).length =
        ((inventory.listedNews kind objects).filter (·.alteration == alteration)).length +
          if Alteration.removed = alteration then (inventory.missing kind objects).length
          else 0 := by
    rw [tidings, List.filter_append, List.length_append, List.filter_map, List.length_map]
    by_cases hremoved : Alteration.removed = alteration <;> simp [hremoved, Function.comp_def]
  have hnone : ((inventory.listedNews kind objects).filter (·.alteration == .removed)).length = 0 :=
    (length_newsOf inventory (listed kind objects).entries).1
  simp only [hlength, hnone, reconcile_tally]
  simp

theorem Consistent.size_unchanged (h : inventory.Consistent) (kind : Kind)
    (objects : List Object) :
    ((listed kind objects).filter fun slot object =>
        inventory.lookup slot == some object).size =
      ((inventory.ofKind kind).filter fun object =>
        (inventory.reconcile kind objects).2.inventory.lookup object.slot ==
          some object).length := by
  have hboth : ((listed kind objects).filter fun slot object =>
        inventory.lookup slot == some object).size =
      ((inventory.part kind).filter fun slot object =>
        (listed kind objects).get? slot == some object).size := by
    refine Table.size_eq_of_keys ?_
    intro slot
    rw [Table.get?_filter, Table.get?_filter, get?_part]
    cases hlisted : (listed kind objects).get? slot with
    | none => cases (if slot.kind = kind then inventory.lookup slot else none) <;> simp
    | some object =>
        rw [if_pos (kind_of_listed hlisted)]
        cases inventory.lookup slot with
        | none => simp
        | some previous => by_cases hsame : previous = object <;> simp [hsame, Ne.symm]
  rw [hboth, ofKind, List.filter_map, List.length_map]
  refine congrArg List.length (List.filter_congr ?_)
  rintro ⟨slot, object⟩ hentry
  obtain ⟨hlookup, hkind⟩ := mem_entriesOf_iff.mp hentry
  rw [Function.comp_apply, h.placed hlookup, h.lookup_reconcile_listed hkind]

theorem Consistent.tally_reconcile (h : inventory.Consistent) (kind : Kind)
    (objects : List Object) :
    let tally := (inventory.reconcile kind objects).1
    let after := (inventory.reconcile kind objects).2.inventory
    tally.unchanged = ((inventory.ofKind kind).filter fun object =>
        after.lookup object.slot == some object).length ∧
      tally.added + tally.updated + tally.unchanged = after.count kind ∧
      tally.removed + tally.updated + tally.unchanged = inventory.count kind := by
  obtain ⟨-, hnews, hadded, hsame⟩ := length_newsOf inventory (listed kind objects).entries
  have hunchanged := h.size_unchanged kind objects
  have hmissing := length_missing_add inventory kind objects
  have hafter : (inventory.reconcile kind objects).2.inventory.count kind =
      (listed kind objects).size := by
    rw [count_eq_size_part, h.part_reconcile]
  simp only [reconcile_tally, hafter, ← hunchanged, ← hmissing]
  simp only [listedNews, Table.size, Table.filter] at *
  omega

theorem Consistent.reconcile_of_listed (h : inventory.Consistent)
    (hlisted : inventory.part kind = listed kind objects) :
    inventory.reconcile kind objects =
      (⟨0, 0, 0, inventory.count kind⟩, ⟨inventory, []⟩) := by
  have hget (slot : Slot) : (listed kind objects).get? slot =
      if slot.kind = kind then inventory.lookup slot else none := by
    rw [← hlisted, get?_part]
  have hentries : ∀ entry ∈ (listed kind objects).entries,
      inventory.lookup entry.1 = some entry.2 := by
    intro entry hentry
    have hsome := Table.get?_eq_some_iff.mpr hentry
    have hkind := kind_of_listed hsome
    rwa [hget, if_pos hkind] at hsome
  have hnews : inventory.listedNews kind objects = [] := by
    rw [listedNews, List.filterMap_eq_nil_iff]
    intro entry hentry
    exact newsOf?_self (hentries entry hentry)
  have hhooks : inventory.hooksLostIn kind objects = [] := by
    rw [hooksLostIn, List.flatMap_eq_nil_iff]
    intro entry hentry
    exact hooksLost_self (hentries entry hentry)
  have hmissing : inventory.missing kind objects = [] := by
    rw [List.eq_nil_iff_forall_not_mem]
    intro object hobject
    obtain ⟨slot, hslot, hkind, hnone⟩ := mem_missing_iff.mp hobject
    rw [hget, if_pos hkind, hslot] at hnone
    exact absurd hnone (by simp)
  have hrefilled : inventory.refilled kind objects = inventory := by
    obtain ⟨hconsistent, hlookup⟩ := h.refilled kind objects
    refine hconsistent.ext h ?_
    intro slot
    rw [hlookup, hget]
    split <;> rfl
  refine Prod.ext ?_ ?_
  · rw [reconcile_tally, hnews, hmissing, count_eq_size_part, hlisted]
    rfl
  · rw [reconcile_revision, hrefilled, hnews, hmissing, hhooks]
    rfl

/-- A listing is exact. The entries of its kind are its objects of that kind, the last one for each
key; others are as before, except for what belonged to a link that is gone and the filters below a
discipline that is gone or took another handle. The news tell of each entry of the kind that is not
as before, once, and only then of all that went along, once each. The tally counts the news by what
happened and the entries that are as before, and so it adds up to the entries there are and to those
there were. The same listing once more changes nothing and tells nothing. -/
theorem Consistent.reconcile_exact (h : inventory.Consistent) (kind : Kind)
    (objects : List Object) :
    let tally := (inventory.reconcile kind objects).1
    let revision := (inventory.reconcile kind objects).2
    let after := revision.inventory
    (∀ slot, slot.kind = kind → after.lookup slot = objects.reverse.find? (·.slot == slot)) ∧
      (∃ (news : List Event) (gone : List Object),
        revision.events = news ++ gone.map (fun object => ⟨.removed, object⟩) ∧
        (news.map (·.object.slot)).Nodup ∧
        (∀ event, event ∈ news ↔ event.kind = kind ∧ event.Tells inventory after) ∧
        (∀ slot, slot.kind = kind → (slot ∈ news.map (·.object.slot) ↔
          inventory.lookup slot ≠ after.lookup slot)) ∧
        gone.Nodup ∧
        (∀ object, object ∈ gone ↔ object.kind ≠ kind ∧
          inventory.lookup object.slot = some object ∧ object.Follows kind inventory after) ∧
        (∀ slot, slot.kind ≠ kind → after.lookup slot =
          if slot ∈ gone.map Object.slot then none else inventory.lookup slot) ∧
        tally.added = (news.filter (·.alteration == .added)).length ∧
        tally.updated = (news.filter (·.alteration == .updated)).length ∧
        tally.removed = (news.filter (·.alteration == .removed)).length) ∧
      tally.unchanged = ((inventory.ofKind kind).filter fun object =>
        after.lookup object.slot == some object).length ∧
      tally.added + tally.updated + tally.unchanged = after.count kind ∧
      tally.removed + tally.updated + tally.unchanged = inventory.count kind ∧
      after.reconcile kind objects = (⟨0, 0, 0, after.count kind⟩, ⟨after, []⟩) := by
  intro tally revision after
  have hafter : after.Consistent := h.reconcile kind objects
  obtain ⟨hunchanged, hnow, hbefore⟩ := h.tally_reconcile kind objects
  obtain ⟨hrefilled, hfilled⟩ := h.refilled kind objects
  obtain ⟨gone, hgone⟩ := h.sheds_reconcile kind objects
  refine ⟨?_, ⟨inventory.tidings kind objects, gone, hgone.told, nodup_slots_tidings h kind objects,
    fun event => mem_tidings_iff h, fun slot => mem_slots_tidings_iff h, hgone.nodup, ?_, ?_,
    tally_eq_tidings inventory kind objects⟩, hunchanged, hnow, hbefore,
    hafter.reconcile_of_listed h.part_reconcile⟩
  · intro slot hkind
    rw [h.lookup_reconcile_listed hkind, get?_listed hkind]
  · intro object
    have hstart : (inventory.refilled kind objects).lookup object.slot =
        if object.kind = kind then (listed kind objects).get? object.slot
        else inventory.lookup object.slot := hfilled object.slot
    rw [hgone.mem_iff]
    simp only [hstart]
    -- What became of an entry of the kind is told as news, so none of them goes along with another.
    by_cases hkind : object.kind = kind
    · rw [if_pos hkind, h.lookup_reconcile_listed hkind]
      refine iff_of_false ?_ fun hother => hother.1 hkind
      rintro ⟨hsome, hnone⟩
      exact absurd (hsome.symm.trans hnone) (by simp)
    · rw [if_neg hkind, and_iff_right hkind]
      exact and_congr_right fun hobject => h.lookup_reconcile_eq_none_iff hkind hobject
  · intro slot hkind
    have hlookup := hgone.lookup hrefilled slot
    simp only [hfilled, if_neg hkind] at hlookup
    exact hlookup

theorem reconcile_exact_relabelled :
    let labelled (interface : UInt32) (major : UInt16) : Object :=
      .discipline (.new interface "htb" (.ofParts major 0) .root)
    let filter : Object :=
      .filter ⟨1, Filter.matchAllKind, ⟨1⟩, .ofParts 1 0, 10, Filter.anyProtocol, none⟩
    let known := empty.run [.upsert (labelled 1 1), .upsert (labelled 2 1), .upsert filter]
    let listing := [labelled 1 3, .link (Link.new "eth0" .unknown), labelled 1 2]
    let after := (known.reconcile .discipline listing).2.inventory
    known.Consistent ∧ after.lookup (labelled 1 1).slot = some (labelled 1 2) ∧
      after.lookup (labelled 2 1).slot = none ∧ after.lookup filter.slot = none ∧
      after.reconcile .discipline listing = (⟨0, 0, 0, after.count .discipline⟩, ⟨after, []⟩) := by
  intro labelled filter known listing after
  have hknown : known.Consistent := consistent_empty.run _
  obtain ⟨hlisted, ⟨news, gone, -, -, -, -, -, hgone, hothers, -⟩, -, -, -, hagain⟩ :=
    hknown.reconcile_exact .discipline listing
  have hnow : after.lookup (labelled 1 1).slot = some (labelled 1 2) := hlisted _ rfl
  refine ⟨hknown, hnow, hlisted _ rfl, ?_, hagain⟩
  have hfollows : filter.Follows .discipline known after :=
    ⟨(labelled 1 1).slot, labelled 1 1, rfl, rfl, Or.inr ⟨labelled 1 2, hnow, _, _, rfl, rfl,
      by decide, by decide, _, rfl, rfl, rfl⟩⟩
  have hfilter : filter ∈ gone := (hgone filter).mpr ⟨by decide, rfl, hfollows⟩
  exact (hothers filter.slot (by decide)).trans (if_pos (List.mem_map_of_mem hfilter))

end Inventory

end NetState
