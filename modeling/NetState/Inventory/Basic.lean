import NetState.Inventory.Table
import NetState.Object.Basic

/-!
The inventory: the last known snapshot of every object, and which link owns what.

Entries are kept under the kind and the key of their object. The slots that each link owns are kept
beside them, so that a link can take what it owns along when it goes.
-/

namespace NetState

/-- The place of an object in the inventory. -/
structure Slot where
  kind : Kind
  key : Key
  deriving DecidableEq, Repr

instance : Coded Slot where
  code slot := slot.kind.rank :: slot.key.code
  code_injective {a b} h := by
    cases a
    cases b
    simp only [List.cons.injEq] at h
    rw [Kind.rank_injective h.1, Key.code_injective h.2]

/-- The slot that an object belongs in. -/
def Object.slot (object : Object) : Slot :=
  ⟨object.kind, object.key⟩

/-- What is known of the kernel's objects. -/
structure Inventory where
  entries : Table Slot Object
  /-- For each link that owns anything, the slots of what it owns. -/
  owned : Table UInt32 (Table Slot Unit)

namespace Inventory

def empty : Inventory := ⟨.empty, .empty⟩

def size (inventory : Inventory) : Nat :=
  inventory.entries.size

def lookup (inventory : Inventory) (slot : Slot) : Option Object :=
  inventory.entries.get? slot

/-- The snapshots of a kind, in the order of their keys. -/
def ofKind (inventory : Inventory) (kind : Kind) : List Object :=
  (inventory.entries.entries.filter (·.1.kind == kind)).map (·.2)

def count (inventory : Inventory) (kind : Kind) : Nat :=
  (inventory.ofKind kind).length

/-- The slots that a link owns, in order. -/
def slotsOwnedBy (inventory : Inventory) (interface : UInt32) : List Slot :=
  match inventory.owned.get? interface with
  | some slots => slots.keys
  | none => []

/-- The snapshots of what a link owns, in the order of their slots. -/
def ofInterface (inventory : Inventory) (interface : UInt32) : List Object :=
  (inventory.slotsOwnedBy interface).filterMap inventory.lookup

/-- Every snapshot, in the order of kinds and then of keys. -/
def all (inventory : Inventory) : List Object :=
  Kind.all.flatMap inventory.ofKind

def link? (inventory : Inventory) (index : UInt32) : Option Link :=
  match inventory.lookup ⟨.link, .link index⟩ with
  | some (.link l) => some l
  | _ => none

/-- The first link, in the order of numbers, with a name. -/
def linkNamed? (inventory : Inventory) (name : String) : Option Link :=
  (inventory.ofKind .link).findSome? fun
    | .link l => if l.name = name then some l else none
    | _ => none

/-- The discipline, other than one of the kernel's choice, that filters at an attach point of a link
belong to. -/
def filterParent? (inventory : Inventory) (interface : UInt32) (parent : Handle) :
    Option Discipline :=
  (inventory.ofInterface interface).findSome? fun
    | .discipline d => if !d.isDefault && d.handle.major == parent.major then some d else none
    | _ => none

/-- The filters on a link, in the order of their keys. -/
def filtersOn (inventory : Inventory) (interface : UInt32) : List Filter :=
  (inventory.ofInterface interface).filterMap fun
    | .filter f => some f
    | _ => none

/-- The filter that a wanted one without priority or handle stands for: one that does what is
wanted, or else, if the priority is set, the first that can be the same. -/
def findFilter? (inventory : Inventory) (wanted : Filter) : Option Filter :=
  let filters := inventory.filtersOn wanted.interface
  (filters.find? (·.satisfies wanted)).or
    (if wanted.priority = 0 then none else filters.find? (·.sameSlot wanted))

/-- The snapshot of the object that a wanted one describes. A link without a number is found by its
name, a filter that does not name one of the kernel's by what it does, all else by key. -/
def find? (inventory : Inventory) (wanted : Object) : Option Object :=
  match wanted with
  | .link l =>
    if l.index = 0 then (inventory.linkNamed? l.name).map .link
    else inventory.lookup wanted.slot
  | .filter f =>
    if f.isKeyed then inventory.lookup wanted.slot
    else (inventory.findFilter? f).map .filter
  | _ => inventory.lookup wanted.slot

end Inventory

end NetState
