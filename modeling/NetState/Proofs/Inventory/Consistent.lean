import NetState.Inventory.Update
import NetState.Proofs.Table

namespace NetState

namespace Inventory

def IsNoted (owned : Table UInt32 (Table Slot Unit)) (interface : UInt32) (slot : Slot) : Prop :=
  ∃ slots, owned.get? interface = some slots ∧ slots.contains slot

/-- The entries and the notes of who owns what agree. -/
structure Consistent (inventory : Inventory) : Prop where
  /-- Every object stands in its own slot. -/
  placed : ∀ {slot object}, inventory.lookup slot = some object → object.slot = slot
  /-- A slot is noted for a link just when it holds an object that the link owns. -/
  noted_iff : ∀ {interface slot}, slot ∈ inventory.slotsOwnedBy interface ↔
    ∃ object, inventory.lookup slot = some object ∧ object.owner? = some interface
  /-- A link that owns nothing has no notes at all. -/
  occupied : ∀ {interface slots}, inventory.owned.get? interface = some slots → slots.entries ≠ []

theorem mem_slotsOwnedBy_iff {inventory : Inventory} {interface : UInt32} {slot : Slot} :
    slot ∈ inventory.slotsOwnedBy interface ↔ IsNoted inventory.owned interface slot := by
  rw [slotsOwnedBy, IsNoted]
  cases inventory.owned.get? interface with
  | none => simp
  | some slots => simp [Table.mem_keys_iff, Table.contains_iff]

theorem isNoted_own (owned : Table UInt32 (Table Slot Unit)) (interface other : UInt32)
    (slot place : Slot) :
    IsNoted (own owned interface slot) other place ↔
      interface = other ∧ slot = place ∨ IsNoted owned other place := by
  simp only [IsNoted, own, Table.get?_insert, Table.contains_iff]
  by_cases hinterface : interface = other
  · subst hinterface
    cases owned.get? interface with
    | none => simp [Table.get?_insert, Table.get?_empty]
    | some slots => by_cases hslot : slot = place <;> simp [Table.get?_insert, hslot]
  · simp [hinterface]

theorem isNoted_disown (owned : Table UInt32 (Table Slot Unit)) (interface other : UInt32)
    (slot place : Slot) :
    IsNoted (disown owned interface slot) other place ↔
      IsNoted owned other place ∧ ¬(interface = other ∧ slot = place) := by
  rw [disown]
  cases howned : owned.get? interface with
  | none =>
      simp only [IsNoted]
      constructor
      · rintro ⟨slots, hslots, hplace⟩
        refine ⟨⟨slots, hslots, hplace⟩, ?_⟩
        rintro ⟨rfl, -⟩
        rw [howned] at hslots
        exact absurd hslots (by simp)
      · exact And.left
  | some slots =>
      simp only [IsNoted, Table.contains_iff]
      by_cases hinterface : interface = other
      · subst hinterface
        split
        · rename_i hempty
          have hnone := Table.entries_eq_nil_iff.mp (List.isEmpty_iff.mp hempty) place
          rw [Table.get?_erase] at hnone
          by_cases hslot : slot = place <;> simp_all [Table.get?_erase_self]
        · by_cases hslot : slot = place <;>
            simp [howned, Table.get?_insert, Table.get?_erase, hslot]
      · split <;> simp [Table.get?_erase, Table.get?_insert, hinterface]

theorem occupied_own {owned : Table UInt32 (Table Slot Unit)}
    (h : ∀ {interface slots}, owned.get? interface = some slots → slots.entries ≠ [])
    (interface : UInt32) (slot : Slot) {other : UInt32} {slots : Table Slot Unit}
    (hslots : (own owned interface slot).get? other = some slots) : slots.entries ≠ [] := by
  rw [own, Table.get?_insert] at hslots
  split at hslots
  · rw [← Option.some.inj hslots, Ne, Table.entries_eq_nil_iff]
    intro hnone
    have hself := hnone slot
    rw [Table.get?_insert_self] at hself
    exact absurd hself (by simp)
  · exact h hslots

theorem occupied_disown {owned : Table UInt32 (Table Slot Unit)}
    (h : ∀ {interface slots}, owned.get? interface = some slots → slots.entries ≠ [])
    (interface : UInt32) (slot : Slot) {other : UInt32} {slots : Table Slot Unit}
    (hslots : (disown owned interface slot).get? other = some slots) : slots.entries ≠ [] := by
  rw [disown] at hslots
  split at hslots
  · exact h hslots
  · rename_i before hbefore
    simp only at hslots
    split at hslots
    · rw [Table.get?_erase] at hslots
      split at hslots
      · exact absurd hslots (by simp)
      · exact h hslots
    · rename_i hleft
      rw [Table.get?_insert] at hslots
      split at hslots
      · rw [← Option.some.inj hslots]
        exact fun hempty => hleft (List.isEmpty_iff.mpr hempty)
      · exact h hslots

theorem lookup_store (inventory : Inventory) (object : Object) (slot : Slot) :
    (inventory.store object).lookup slot =
      if object.slot = slot then some object else inventory.lookup slot :=
  Table.get?_insert inventory.entries object.slot slot object

theorem lookup_discard (inventory : Inventory) (place slot : Slot) (object : Object) :
    (inventory.discard place object).lookup slot =
      if place = slot then none else inventory.lookup slot :=
  Table.get?_erase inventory.entries place slot

theorem isNoted_store (inventory : Inventory) (object : Object) (interface : UInt32)
    (slot : Slot) :
    IsNoted (inventory.store object).owned interface slot ↔
      object.owner? = some interface ∧ object.slot = slot ∨
        IsNoted inventory.owned interface slot := by
  rw [store]
  cases object.owner? with
  | none => simp
  | some owner => simp [isNoted_own]

theorem isNoted_discard (inventory : Inventory) (place : Slot) (object : Object)
    (interface : UInt32) (slot : Slot) :
    IsNoted (inventory.discard place object).owned interface slot ↔
      IsNoted inventory.owned interface slot ∧
        ¬(object.owner? = some interface ∧ place = slot) := by
  rw [discard, release]
  cases object.owner? with
  | none => simp
  | some owner => simp [isNoted_disown]

theorem consistent_empty : Consistent empty where
  placed := by
    intro slot object h
    exact absurd h (by simp [lookup, empty, Table.get?_empty])
  noted_iff := by
    intro interface slot
    simp [slotsOwnedBy, lookup, empty, Table.get?_empty]
  occupied := by
    intro interface slots h
    exact absurd h (by simp [empty, Table.get?_empty])

/-- An object is put into a slot that was free or had the same owner. -/
theorem Consistent.store {inventory : Inventory} (h : inventory.Consistent) {object : Object}
    (hslot : ∀ previous, inventory.lookup object.slot = some previous →
      previous.owner? = object.owner?) :
    (inventory.store object).Consistent where
  placed := by
    intro slot stored hstored
    rw [lookup_store] at hstored
    split at hstored
    · rename_i heq
      rw [← Option.some.inj hstored, heq]
    · exact h.placed hstored
  noted_iff := by
    intro interface slot
    rw [mem_slotsOwnedBy_iff, isNoted_store, ← mem_slotsOwnedBy_iff, h.noted_iff, lookup_store]
    by_cases heq : object.slot = slot
    · subst heq
      rw [if_pos rfl]
      constructor
      · rintro (⟨howner, -⟩ | ⟨previous, hprevious, howner⟩)
        · exact ⟨object, rfl, howner⟩
        · exact ⟨object, rfl, hslot previous hprevious ▸ howner⟩
      · rintro ⟨stored, hstored, howner⟩
        rw [← Option.some.inj hstored] at howner
        exact Or.inl ⟨howner, rfl⟩
    · rw [if_neg heq]
      constructor
      · rintro (⟨-, hsame⟩ | hbefore)
        · exact absurd hsame heq
        · exact hbefore
      · exact Or.inr
  occupied := by
    intro interface slots hslots
    rw [Inventory.store] at hslots
    cases howner : object.owner? with
    | none =>
        rw [howner] at hslots
        exact h.occupied hslots
    | some owner =>
        rw [howner] at hslots
        exact occupied_own h.occupied owner object.slot hslots

theorem Consistent.discard {inventory : Inventory} (h : inventory.Consistent) {place : Slot}
    {object : Object} (hplace : inventory.lookup place = some object) :
    (inventory.discard place object).Consistent where
  placed := by
    intro slot stored hstored
    rw [lookup_discard] at hstored
    split at hstored
    · exact absurd hstored (by simp)
    · exact h.placed hstored
  noted_iff := by
    intro interface slot
    rw [mem_slotsOwnedBy_iff, isNoted_discard, ← mem_slotsOwnedBy_iff, h.noted_iff,
      lookup_discard]
    by_cases heq : place = slot
    · subst heq
      simp [hplace]
    · simp [heq]
  occupied := by
    intro interface slots hslots
    rw [Inventory.discard, release] at hslots
    cases howner : object.owner? with
    | none =>
        rw [howner] at hslots
        exact h.occupied hslots
    | some owner =>
        rw [howner] at hslots
        exact occupied_disown h.occupied owner place hslots

theorem store_release (inventory : Inventory) (object previous : Object) :
    (inventory.release object.slot previous).store object =
      (inventory.discard object.slot previous).store object := by
  have hentries : inventory.entries.insert object.slot object =
      (inventory.entries.erase object.slot).insert object.slot object := by
    refine Table.ext_get? ?_
    intro slot
    rw [Table.get?_insert, Table.get?_insert, Table.get?_erase]
    split <;> rfl
  rw [discard, Inventory.store, Inventory.store, release, hentries]

end Inventory

end NetState
