import NetState.Proofs.Inventory.Change

namespace NetState.Inventory

/-- A change that can be asked of an inventory. -/
inductive Command where
  | upsert (object : Object)
  | remove (slot : Slot)
  | reconcile (kind : Kind) (objects : List Object)

def perform (inventory : Inventory) : Command → Revision
  | .upsert object => (inventory.upsert object).2
  | .remove slot => (inventory.remove slot).2
  | .reconcile kind objects => (inventory.reconcile kind objects).2

def run (inventory : Inventory) (commands : List Command) : Inventory :=
  commands.foldl (fun state command => (state.perform command).inventory) inventory

theorem Consistent.perform {inventory : Inventory} (h : inventory.Consistent)
    (command : Command) : (inventory.perform command).inventory.Consistent := by
  cases command with
  | upsert object => exact h.upsert object
  | remove slot => exact h.remove slot
  | reconcile kind objects => exact h.reconcile kind objects

theorem Consistent.run {inventory : Inventory} (h : inventory.Consistent)
    (commands : List Command) : (inventory.run commands).Consistent := by
  induction commands generalizing inventory with
  | nil => exact h
  | cons first rest ih => exact ih (h.perform first)

theorem Consistent.mem_ofInterface_iff {inventory : Inventory} (h : inventory.Consistent)
    {interface : UInt32} {object : Object} :
    object ∈ inventory.ofInterface interface ↔
      inventory.lookup object.slot = some object ∧ object.owner? = some interface := by
  rw [ofInterface, List.mem_filterMap]
  constructor
  · rintro ⟨slot, hnoted, hobject⟩
    obtain ⟨found, hfound, howner⟩ := h.noted_iff.mp hnoted
    rw [hobject] at hfound
    rw [h.placed hobject, Option.some.inj hfound]
    exact ⟨hfound ▸ hobject, howner⟩
  · rintro ⟨hobject, howner⟩
    exact ⟨object.slot, h.noted_iff.mpr ⟨object, hobject, howner⟩, hobject⟩

theorem nodup_slotsOwnedBy (inventory : Inventory) (interface : UInt32) :
    (inventory.slotsOwnedBy interface).Nodup := by
  rw [slotsOwnedBy]
  split
  · exact Table.nodup_keys _
  · exact List.nodup_nil

theorem Consistent.nodup_ofInterface {inventory : Inventory} (h : inventory.Consistent)
    (interface : UInt32) : (inventory.ofInterface interface).Nodup := by
  refine List.Nodup.filterMap ?_ (inventory.nodup_slotsOwnedBy interface)
  intro place slot object hplace hslot
  rw [← h.placed hplace, ← h.placed hslot]

/-- After any run from the empty inventory, every object stands in its own slot, the slots noted for
a link are those of the objects that it owns, no note is left without a slot, and the objects of a
link are listed once each. -/
theorem consistent_run (commands : List Command) :
    (empty.run commands).Consistent ∧
      ∀ interface, ((empty.run commands).ofInterface interface).Nodup ∧
        ∀ object, object ∈ (empty.run commands).ofInterface interface ↔
          (empty.run commands).lookup object.slot = some object ∧
            object.owner? = some interface := by
  have h := consistent_empty.run commands
  refine ⟨h, ?_⟩
  intro interface
  exact ⟨h.nodup_ofInterface interface, fun object => h.mem_ofInterface_iff⟩

end NetState.Inventory
