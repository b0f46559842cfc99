import NetState.Inventory.Basic

/-!
Changes of the inventory, and the events that tell of them.

The kernel tells less than it does: with a link goes everything that it owns, and with a discipline,
or with its handle, go the filters below it, without a word about each. So a change here takes along
what depends on it, and the events tell of all of it, in the order in which it goes.
-/

namespace NetState

/-- What happened to an entry. -/
inductive Alteration where
  | added
  | updated
  | removed
  deriving DecidableEq, Repr

/-- The news of a change: the new snapshot, or the last one of what is gone. -/
structure Event where
  alteration : Alteration
  object : Object
  deriving DecidableEq, Repr

def Event.kind (event : Event) : Kind :=
  event.object.kind

/-- Where filters hang that lose their discipline: the link, and the major number of the handle. -/
structure Hook where
  interface : UInt32
  major : UInt16
  deriving DecidableEq, Repr

/-- The place of the filters below a discipline, unless that is one of the kernel's choice, which
has none. -/
def Discipline.hooks (discipline : Discipline) : List Hook :=
  if discipline.isDefault then [] else [⟨discipline.interface, discipline.handle.major⟩]

/-- The places of filters that go when an object does. -/
def Object.hooks : Object → List Hook
  | .discipline d => d.hooks
  | _ => []

/-- The places of filters that go when `fresh` takes the place of an object: those below a
discipline whose handle changes. -/
def Object.hooksLostTo (object fresh : Object) : List Hook :=
  match object, fresh with
  | .discipline old, .discipline new => if new.handle = old.handle then [] else old.hooks
  | _, _ => object.hooks

/-- Whether a filter hangs at a place. -/
def Filter.hangsAt (filter : Filter) (hook : Hook) : Bool :=
  filter.interface == hook.interface && filter.parent.major == hook.major

/-- An inventory with the events that led to it, in order. -/
structure Revision where
  inventory : Inventory
  events : List Event

namespace Inventory

/-- What a link owns, with one more slot. -/
def own (owned : Table UInt32 (Table Slot Unit)) (interface : UInt32) (slot : Slot) :
    Table UInt32 (Table Slot Unit) :=
  owned.insert interface (((owned.get? interface).getD .empty).insert slot ())

/-- What a link owns, without a slot; a link that owns nothing more is forgotten. -/
def disown (owned : Table UInt32 (Table Slot Unit)) (interface : UInt32) (slot : Slot) :
    Table UInt32 (Table Slot Unit) :=
  match owned.get? interface with
  | none => owned
  | some slots =>
    let left := slots.erase slot
    if left.entries.isEmpty then owned.erase interface else owned.insert interface left

/-- The inventory with an object in its slot, owned by its link; the slot must not be another's. -/
def store (inventory : Inventory) (object : Object) : Inventory :=
  ⟨inventory.entries.insert object.slot object,
    match object.owner? with
    | some interface => own inventory.owned interface object.slot
    | none => inventory.owned⟩

/-- The inventory with the object of a slot no longer owned by its link. -/
def release (inventory : Inventory) (slot : Slot) (object : Object) : Inventory :=
  ⟨inventory.entries,
    match object.owner? with
    | some interface => disown inventory.owned interface slot
    | none => inventory.owned⟩

/-- The inventory without a slot that holds an object. -/
def discard (inventory : Inventory) (slot : Slot) (object : Object) : Inventory :=
  let released := inventory.release slot object
  ⟨released.entries.erase slot, released.owned⟩

/-- The slots of the filters that hang at a place. -/
def slotsAt (inventory : Inventory) (hook : Hook) : List Slot :=
  (inventory.ofKind .filter).filterMap fun
    | .filter f => if f.hangsAt hook then some (Object.filter f).slot else none
    | _ => none

end Inventory

namespace Revision

/-- One slot emptied and nothing else. -/
def drop (revision : Revision) (slot : Slot) : Revision :=
  match revision.inventory.lookup slot with
  | none => revision
  | some object =>
    ⟨revision.inventory.discard slot object, revision.events ++ [⟨.removed, object⟩]⟩

/-- The filters that hang at a place dropped, in the order of their keys. -/
def dropAt (revision : Revision) (hook : Hook) : Revision :=
  (revision.inventory.slotsAt hook).foldl drop revision

def dropAtAll (revision : Revision) (hooks : List Hook) : Revision :=
  hooks.foldl dropAt revision

/-- One slot emptied, and with it the filters below what it held. -/
def dropWithFilters (revision : Revision) (slot : Slot) : Revision :=
  match revision.inventory.lookup slot with
  | none => revision
  | some object => (revision.drop slot).dropAtAll object.hooks

/-- What goes along with an object that is already gone: all that a link owns, the filters below a
discipline. -/
def cascade (revision : Revision) (gone : Object) : Revision :=
  match gone with
  | .link l => (revision.inventory.slotsOwnedBy l.index).foldl dropWithFilters revision
  | _ => revision.dropAtAll gone.hooks

end Revision

namespace Inventory

/-- What putting an object into its slot came to. -/
inductive Placement where
  | added
  /-- It took the place of another snapshot. -/
  | updated (previous : Object)
  | unchanged
  deriving DecidableEq, Repr

/-- Puts an object into its slot, in the place of what was there. -/
def upsert (inventory : Inventory) (object : Object) : Placement × Revision :=
  match inventory.lookup object.slot with
  | none => (.added, ⟨inventory.store object, [⟨.added, object⟩]⟩)
  | some previous =>
    if previous = object then (.unchanged, ⟨inventory, []⟩)
    else
      let released :=
        if previous.owner? = object.owner? then inventory
        else inventory.release object.slot previous
      let revision : Revision := ⟨released.store object, [⟨.updated, object⟩]⟩
      (.updated previous, revision.dropAtAll (previous.hooksLostTo object))

/-- Empties a slot, with all that depends on what it held. -/
def remove (inventory : Inventory) (slot : Slot) : Option Object × Revision :=
  match inventory.lookup slot with
  | none => (none, ⟨inventory, []⟩)
  | some object =>
    (some object, (Revision.drop ⟨inventory, []⟩ slot).cascade object)

/-- How many entries of a kind a listing added, changed, removed and confirmed. -/
structure Tally where
  added : Nat
  updated : Nat
  removed : Nat
  unchanged : Nat
  deriving DecidableEq, Repr

def Tally.isChange (tally : Tally) : Bool :=
  0 < tally.added + tally.updated + tally.removed

/-- The objects of a kind in a listing, each under its slot; of several with one key the last
counts. -/
def listed (kind : Kind) (objects : List Object) : Table Slot Object :=
  .ofList ((objects.filter (·.kind == kind)).map fun object => (object.slot, object))

/-- How a listed object compares with the entry there was: the news, if it is any. -/
def newsOf? (inventory : Inventory) (slot : Slot) (object : Object) : Option Event :=
  match inventory.lookup slot with
  | none => some ⟨.added, object⟩
  | some previous => if previous = object then none else some ⟨.updated, object⟩

/-- The places of filters that a listed object takes from the entry there was. -/
def hooksLost (inventory : Inventory) (slot : Slot) (object : Object) : List Hook :=
  match inventory.lookup slot with
  | none => []
  | some previous => if previous = object then [] else previous.hooksLostTo object

/-- Makes the entries of a kind exactly those of a listing. The events of that come first, in the
order of keys and what is gone last; then goes what depended on what is gone or changed. -/
def reconcile (inventory : Inventory) (kind : Kind) (objects : List Object) : Tally × Revision :=
  let fresh := listed kind objects
  let old := inventory.entries.entries.filter (·.1.kind == kind)
  let gone := (old.filter fun entry => !fresh.contains entry.1).map (·.2)
  let news := fresh.entries.filterMap fun entry => inventory.newsOf? entry.1 entry.2
  let hooks := fresh.entries.flatMap fun entry => inventory.hooksLost entry.1 entry.2
  let cleared := old.foldl (fun state entry => state.discard entry.1 entry.2) inventory
  let filled := fresh.values.foldl store cleared
  let listedNews : List Event := news ++ gone.map fun object => ⟨.removed, object⟩
  let tally : Tally := {
    added := (news.filter (·.alteration == .added)).length
    updated := (news.filter (·.alteration == .updated)).length
    removed := gone.length
    unchanged := fresh.size - news.length
  }
  (tally, (gone.foldl Revision.cascade ⟨filled, listedNews⟩).dropAtAll hooks)

end Inventory

end NetState
