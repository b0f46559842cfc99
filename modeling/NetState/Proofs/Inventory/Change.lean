import NetState.Proofs.Inventory.Cascade
import NetState.Proofs.Object

namespace NetState

theorem Object.kind_of_hangsAt {object : Object} {hook : Hook} (h : object.hangsAt hook) :
    object.kind = .filter := by
  cases object with
  | filter f => rfl
  | _ => exact absurd h (by simp [Object.hangsAt])

theorem Object.kind_of_mem_hooks {object : Object} {hook : Hook} (h : hook ∈ object.hooks) :
    object.kind = .discipline := by
  cases object with
  | discipline d => rfl
  | _ => exact absurd h (by simp [Object.hooks])

theorem Object.mem_hooks_of_mem_hooksLostTo {object fresh : Object} {hook : Hook}
    (h : hook ∈ object.hooksLostTo fresh) : hook ∈ object.hooks := by
  cases object with
  | discipline old =>
      cases fresh with
      | discipline new =>
          simp only [Object.hooksLostTo] at h
          split at h
          · exact absurd h (by simp)
          · exact h
      | _ => exact h
  | _ => exact h

namespace Inventory

theorem upsert_revision (inventory : Inventory) (object : Object) :
    (inventory.upsert object).2 = match inventory.lookup object.slot with
      | none => ⟨inventory.store object, [⟨.added, object⟩]⟩
      | some previous =>
        if previous = object then ⟨inventory, []⟩
        else
          (⟨(if previous.owner? = object.owner? then inventory
              else inventory.release object.slot previous).store object,
            [⟨.updated, object⟩]⟩ : Revision).dropAtAll (previous.hooksLostTo object) := by
  rw [upsert]
  cases inventory.lookup object.slot with
  | none => rfl
  | some previous =>
      simp only
      split <;> rfl

theorem consistent_replace {inventory : Inventory} (h : inventory.Consistent)
    {object previous : Object} (hprevious : inventory.lookup object.slot = some previous) :
    ((if previous.owner? = object.owner? then inventory
      else inventory.release object.slot previous).store object).Consistent := by
  split
  · rename_i howner
    refine h.store ?_
    intro found hfound
    rw [hprevious] at hfound
    rw [← Option.some.inj hfound, howner]
  · rw [store_release]
    refine (h.discard hprevious).store ?_
    intro found hfound
    rw [lookup_discard, if_pos rfl] at hfound
    exact absurd hfound (by simp)

theorem lookup_replace (inventory : Inventory) (object previous : Object) (slot : Slot) :
    ((if previous.owner? = object.owner? then inventory
      else inventory.release object.slot previous).store object).lookup slot =
      if object.slot = slot then some object else inventory.lookup slot := by
  rw [lookup_store]
  split
  · rfl
  · split <;> rfl

theorem Consistent.upsert {inventory : Inventory} (h : inventory.Consistent) (object : Object) :
    (inventory.upsert object).2.inventory.Consistent := by
  rw [upsert_revision]
  split
  · rename_i hnone
    refine h.store ?_
    intro previous hprevious
    rw [hnone] at hprevious
    exact absurd hprevious (by simp)
  · rename_i previous hprevious
    split
    · exact h
    · exact Revision.keptByDrop_consistent.dropAtAll _ (consistent_replace h hprevious)

theorem hooksLost_of_eq_none {inventory : Inventory} {slot : Slot} {object : Object}
    (h : inventory.lookup slot = none) : inventory.hooksLost slot object = [] := by
  rw [hooksLost, h]

theorem hooksLost_self {inventory : Inventory} {slot : Slot} {object : Object}
    (h : inventory.lookup slot = some object) : inventory.hooksLost slot object = [] := by
  rw [hooksLost, h]
  exact if_pos rfl

theorem hooksLost_of_ne {inventory : Inventory} {slot : Slot} {object previous : Object}
    (h : inventory.lookup slot = some previous) (hne : previous ≠ object) :
    inventory.hooksLost slot object = previous.hooksLostTo object := by
  rw [hooksLost, h]
  exact if_neg hne

theorem newsOf?_of_eq_none {inventory : Inventory} {slot : Slot} {object : Object}
    (h : inventory.lookup slot = none) : inventory.newsOf? slot object = some ⟨.added, object⟩ := by
  rw [newsOf?, h]

theorem newsOf?_self {inventory : Inventory} {slot : Slot} {object : Object}
    (h : inventory.lookup slot = some object) : inventory.newsOf? slot object = none := by
  rw [newsOf?, h]
  exact if_pos rfl

theorem newsOf?_of_ne {inventory : Inventory} {slot : Slot} {object previous : Object}
    (h : inventory.lookup slot = some previous) (hne : previous ≠ object) :
    inventory.newsOf? slot object = some ⟨.updated, object⟩ := by
  rw [newsOf?, h]
  exact if_neg hne

theorem lookup_upsert {inventory : Inventory} (h : inventory.Consistent) (object : Object)
    (slot : Slot) :
    (inventory.upsert object).2.inventory.lookup slot =
      if object.slot = slot then some object
      else (inventory.lookup slot).filter fun other =>
        !(inventory.hooksLost object.slot object).any other.hangsAt := by
  have hkeep (found : Option Object) : found.filter (fun _ => !List.any [] fun _ : Hook => true) =
      found := by
    cases found <;> rfl
  rw [upsert_revision]
  split
  · rename_i hnone
    rw [hooksLost_of_eq_none hnone, lookup_store]
    split
    · rfl
    · exact (hkeep _).symm
  · rename_i previous hprevious
    split
    · rename_i hsame
      rw [hsame] at hprevious
      rw [hooksLost_self hprevious]
      split
      · rename_i hslot
        rw [← hslot, hprevious]
      · exact (hkeep _).symm
    · rename_i hne
      rw [hooksLost_of_ne hprevious hne,
        Revision.lookup_dropAtAll (consistent_replace h hprevious), lookup_replace]
      split
      · rename_i hslot
        rw [Option.filter_some, if_pos]
        rw [Bool.not_eq_true', List.any_eq_false]
        intro hook hhook hhangs
        have hfilter := Object.kind_of_hangsAt hhangs
        have hdiscipline := Object.kind_of_mem_hooks (Object.mem_hooks_of_mem_hooksLostTo hhook)
        have hkind : previous.kind = object.kind := congrArg Slot.kind (h.placed hprevious)
        rw [hdiscipline, hfilter] at hkind
        exact absurd hkind (by simp)
      · rfl

theorem remove_of_eq_none {inventory : Inventory} {slot : Slot}
    (h : inventory.lookup slot = none) : inventory.remove slot = (none, ⟨inventory, []⟩) := by
  rw [remove, h]

theorem remove_of_eq_some {inventory : Inventory} {slot : Slot} {object : Object}
    (h : inventory.lookup slot = some object) :
    inventory.remove slot =
      (some object, (Revision.drop ⟨inventory, []⟩ slot).cascade object) := by
  rw [remove, h]

theorem remove_fst (inventory : Inventory) (slot : Slot) :
    (inventory.remove slot).1 = inventory.lookup slot := by
  cases hslot : inventory.lookup slot with
  | none => rw [remove_of_eq_none hslot]
  | some object => rw [remove_of_eq_some hslot]

theorem Consistent.remove {inventory : Inventory} (h : inventory.Consistent) (slot : Slot) :
    (inventory.remove slot).2.inventory.Consistent := by
  cases hslot : inventory.lookup slot with
  | none => rwa [remove_of_eq_none hslot]
  | some object =>
      rw [remove_of_eq_some hslot]
      exact Revision.keptByDrop_consistent.cascade object
        (Revision.keptByDrop_consistent ⟨inventory, []⟩ slot h)

theorem lookup_remove {inventory : Inventory} (h : inventory.Consistent) {place : Slot}
    {gone : Object} (hplace : inventory.lookup place = some gone) (slot : Slot) :
    (inventory.remove place).2.inventory.lookup slot =
      (inventory.lookup slot).filter fun object =>
        object.slot != place && !gone.takesAlong object := by
  rw [remove_of_eq_some hplace, Revision.lookup_cascade
    (Revision.keptByDrop_consistent ⟨inventory, []⟩ place h), Revision.lookup_drop]
  exact h.filter_dropped place slot _

def entriesOf (inventory : Inventory) (kind : Kind) : List (Slot × Object) :=
  inventory.entries.entries.filter (·.1.kind == kind)

def missing (inventory : Inventory) (kind : Kind) (objects : List Object) : List Object :=
  ((inventory.entriesOf kind).filter fun entry =>
    !(listed kind objects).contains entry.1).map (·.2)

/-- The inventory with the entries of a kind taken out. -/
def cleared (inventory : Inventory) (kind : Kind) : Inventory :=
  (inventory.entriesOf kind).foldl (fun state entry => state.discard entry.1 entry.2) inventory

/-- The inventory with the entries of a kind exchanged for those of a listing. -/
def refilled (inventory : Inventory) (kind : Kind) (objects : List Object) : Inventory :=
  (listed kind objects).values.foldl store (inventory.cleared kind)

def listedNews (inventory : Inventory) (kind : Kind) (objects : List Object) : List Event :=
  (listed kind objects).entries.filterMap fun entry => inventory.newsOf? entry.1 entry.2

/-- The places of filters that the disciplines of a listing take from those there were. -/
def hooksLostIn (inventory : Inventory) (kind : Kind) (objects : List Object) : List Hook :=
  (listed kind objects).entries.flatMap fun entry => inventory.hooksLost entry.1 entry.2

theorem reconcile_revision (inventory : Inventory) (kind : Kind) (objects : List Object) :
    (inventory.reconcile kind objects).2 =
      ((inventory.missing kind objects).foldl Revision.cascade
        ⟨inventory.refilled kind objects,
          inventory.listedNews kind objects ++
            (inventory.missing kind objects).map fun object => ⟨.removed, object⟩⟩).dropAtAll
        (inventory.hooksLostIn kind objects) := rfl

theorem mem_listed {kind : Kind} {objects : List Object} {slot : Slot} {object : Object}
    (h : (listed kind objects).get? slot = some object) :
    object ∈ objects ∧ object.kind = kind ∧ object.slot = slot := by
  have hmem := Table.mem_of_get?_ofList h
  simp only [List.mem_map, List.mem_filter, beq_iff_eq, Prod.mk.injEq] at hmem
  obtain ⟨found, ⟨hfound, hkind⟩, hslot, rfl⟩ := hmem
  exact ⟨hfound, hkind, hslot⟩

theorem exists_listed {kind : Kind} {objects : List Object} {object : Object}
    (hmem : object ∈ objects) (hkind : object.kind = kind) :
    ∃ last, (listed kind objects).get? object.slot = some last := by
  have hentry : (object.slot, object) ∈
      (objects.filter (·.kind == kind)).map fun object => (object.slot, object) := by
    simp only [List.mem_map, List.mem_filter, beq_iff_eq]
    exact ⟨object, ⟨hmem, hkind⟩, rfl⟩
  exact Table.exists_get?_ofList hentry

theorem mem_entriesOf_iff {inventory : Inventory} {kind : Kind} {entry : Slot × Object} :
    entry ∈ inventory.entriesOf kind ↔
      inventory.lookup entry.1 = some entry.2 ∧ entry.1.kind = kind := by
  rw [entriesOf, List.mem_filter, beq_iff_eq, lookup, Table.get?_eq_some_iff]

theorem mem_missing_iff {inventory : Inventory} {kind : Kind} {objects : List Object}
    {object : Object} :
    object ∈ inventory.missing kind objects ↔ ∃ slot, inventory.lookup slot = some object ∧
      slot.kind = kind ∧ (listed kind objects).get? slot = none := by
  simp only [missing, List.mem_map, List.mem_filter, mem_entriesOf_iff, Table.contains,
    Option.not_isSome, Option.isNone_iff_eq_none]
  constructor
  · rintro ⟨⟨slot, _⟩, ⟨⟨hlookup, hkind⟩, hnone⟩, rfl⟩
    exact ⟨slot, hlookup, hkind, hnone⟩
  · rintro ⟨slot, hlookup, hkind, hnone⟩
    exact ⟨(slot, object), ⟨⟨hlookup, hkind⟩, hnone⟩, rfl⟩

theorem foldl_discard {entries : List (Slot × Object)} (hkeys : (entries.map (·.1)).Nodup)
    {inventory : Inventory} (h : inventory.Consistent)
    (hentries : ∀ entry ∈ entries, inventory.lookup entry.1 = some entry.2) :
    (entries.foldl (fun state entry => state.discard entry.1 entry.2) inventory).Consistent ∧
      ∀ slot, (entries.foldl (fun state entry => state.discard entry.1 entry.2) inventory).lookup
        slot = if slot ∈ entries.map (·.1) then none else inventory.lookup slot := by
  induction entries generalizing inventory with
  | nil => exact ⟨h, fun _ => rfl⟩
  | cons first rest ih =>
      obtain ⟨place, object⟩ := first
      obtain ⟨hfirst, hrest⟩ := List.nodup_cons.mp hkeys
      have hleft : ∀ entry ∈ rest,
          (inventory.discard place object).lookup entry.1 = some entry.2 := by
        intro entry hentry
        rw [lookup_discard, if_neg]
        · exact hentries entry (List.mem_cons_of_mem _ hentry)
        · rintro rfl
          exact hfirst (List.mem_map.mpr ⟨entry, hentry, rfl⟩)
      obtain ⟨hconsistent, hlookup⟩ :=
        ih hrest (h.discard (hentries (place, object) List.mem_cons_self)) hleft
      refine ⟨hconsistent, ?_⟩
      intro slot
      rw [List.foldl_cons, hlookup, lookup_discard, List.map_cons]
      by_cases hmem : slot ∈ rest.map (·.1)
      · simp [hmem]
      · by_cases hsame : place = slot
        · simp [hsame]
        · simp [hmem, hsame, Ne.symm hsame]

theorem foldl_store {objects : List Object} (hslots : (objects.map Object.slot).Nodup)
    {inventory : Inventory} (h : inventory.Consistent)
    (hfree : ∀ object ∈ objects, inventory.lookup object.slot = none) :
    (objects.foldl store inventory).Consistent ∧
      ∀ slot, (objects.foldl store inventory).lookup slot =
        (objects.find? (·.slot == slot)).or (inventory.lookup slot) := by
  -- On what is still to be stored; its slots stay free, as no two of the objects have one slot.
  induction objects generalizing inventory with
  | nil => exact ⟨h, fun _ => rfl⟩
  | cons first rest ih =>
      obtain ⟨hfirst, hrest⟩ := List.nodup_cons.mp hslots
      have hstored : (inventory.store first).Consistent := by
        refine h.store ?_
        intro previous hprevious
        rw [hfree first List.mem_cons_self] at hprevious
        exact absurd hprevious (by simp)
      have hleft : ∀ object ∈ rest, (inventory.store first).lookup object.slot = none := by
        intro object hobject
        rw [lookup_store, if_neg]
        · exact hfree object (List.mem_cons_of_mem first hobject)
        · exact fun hsame => hfirst (hsame ▸ List.mem_map_of_mem hobject)
      obtain ⟨hconsistent, hlookup⟩ := ih hrest hstored hleft
      refine ⟨hconsistent, ?_⟩
      intro slot
      rw [List.foldl_cons, hlookup, lookup_store, List.find?_cons]
      by_cases hsame : first.slot = slot
      · have hnone : rest.find? (·.slot == slot) = none := by
          rw [List.find?_eq_none]
          intro object hobject heq
          rw [beq_iff_eq] at heq
          exact hfirst (hsame.trans heq.symm ▸ List.mem_map_of_mem hobject)
        simp [hsame, hnone]
      · rw [if_neg hsame, beq_eq_false_iff_ne.mpr hsame]

theorem Consistent.cleared {inventory : Inventory} (h : inventory.Consistent) (kind : Kind) :
    (inventory.cleared kind).Consistent ∧
      ∀ slot, (inventory.cleared kind).lookup slot =
        if slot.kind = kind then none else inventory.lookup slot := by
  have hkeys : ((inventory.entriesOf kind).map (·.1)).Nodup :=
    inventory.entries.nodup_keys.sublist (List.filter_sublist.map _)
  obtain ⟨hconsistent, hlookup⟩ :=
    foldl_discard hkeys h fun entry hentry => (mem_entriesOf_iff.mp hentry).1
  refine ⟨hconsistent, ?_⟩
  intro slot
  rw [Inventory.cleared, hlookup]
  by_cases hkind : slot.kind = kind
  · rw [if_pos hkind]
    cases hobject : inventory.lookup slot with
    | none => rw [ite_self]
    | some object =>
        have hentry : (slot, object) ∈ inventory.entriesOf kind :=
          mem_entriesOf_iff.mpr ⟨hobject, hkind⟩
        rw [if_pos]
        exact List.mem_map_of_mem (f := Prod.fst) hentry
  · rw [if_neg hkind, if_neg]
    intro hmem
    obtain ⟨entry, hentry, rfl⟩ := List.mem_map.mp hmem
    exact hkind (mem_entriesOf_iff.mp hentry).2

theorem slots_listed (kind : Kind) (objects : List Object) :
    (listed kind objects).values.map Object.slot = (listed kind objects).keys := by
  rw [Table.values, Table.keys, List.map_map]
  refine List.map_congr_left ?_
  rintro ⟨slot, object⟩ hentry
  exact (mem_listed (Table.get?_eq_some_iff.mpr hentry)).2.2

theorem find?_listed (kind : Kind) (objects : List Object) (slot : Slot) :
    (listed kind objects).values.find? (·.slot == slot) = (listed kind objects).get? slot := by
  cases hget : (listed kind objects).get? slot with
  | none =>
      rw [List.find?_eq_none]
      intro object hobject heq
      obtain ⟨place, hplace⟩ := Table.mem_values_iff.mp hobject
      rw [beq_iff_eq, (mem_listed hplace).2.2] at heq
      rw [heq, hget] at hplace
      exact absurd hplace (by simp)
  | some object =>
      cases hfind : (listed kind objects).values.find? (·.slot == slot) with
      | none =>
          rw [List.find?_eq_none] at hfind
          refine absurd ?_ (hfind object (Table.mem_values_iff.mpr ⟨slot, hget⟩))
          exact beq_iff_eq.mpr (mem_listed hget).2.2
      | some found =>
          obtain ⟨place, hplace⟩ := Table.mem_values_iff.mp (List.mem_of_find?_eq_some hfind)
          have hslot : found.slot = slot := by simpa using List.find?_some hfind
          rw [← (mem_listed hplace).2.2, hslot, hget] at hplace
          exact hplace.symm

theorem Consistent.refilled {inventory : Inventory} (h : inventory.Consistent) (kind : Kind)
    (objects : List Object) :
    (inventory.refilled kind objects).Consistent ∧
      ∀ slot, (inventory.refilled kind objects).lookup slot =
        if slot.kind = kind then (listed kind objects).get? slot else inventory.lookup slot := by
  obtain ⟨hcleared, hlookup⟩ := h.cleared kind
  have hslots : ((listed kind objects).values.map Object.slot).Nodup := by
    rw [slots_listed]
    exact Table.nodup_keys _
  have hfree : ∀ object ∈ (listed kind objects).values,
      (inventory.cleared kind).lookup object.slot = none := by
    intro object hobject
    obtain ⟨slot, hslot⟩ := Table.mem_values_iff.mp hobject
    have hkind : object.slot.kind = kind := (mem_listed hslot).2.1
    rw [hlookup, if_pos hkind]
  obtain ⟨hconsistent, hstored⟩ := foldl_store hslots hcleared hfree
  refine ⟨hconsistent, ?_⟩
  intro slot
  rw [Inventory.refilled, hstored, find?_listed, hlookup]
  split
  · rw [Option.or_none]
  · rename_i hkind
    cases hget : (listed kind objects).get? slot with
    | none => rfl
    | some object =>
        have hlisted := mem_listed hget
        rw [← hlisted.2.2] at hkind
        exact absurd hlisted.2.1 hkind

theorem Consistent.reconcile {inventory : Inventory} (h : inventory.Consistent) (kind : Kind)
    (objects : List Object) : (inventory.reconcile kind objects).2.inventory.Consistent := by
  rw [reconcile_revision]
  exact Revision.keptByDrop_consistent.dropAtAll _
    (Revision.keptByDrop_consistent.foldl_cascade _ (h.refilled kind objects).1)

theorem not_takesAlong_listed {inventory : Inventory} (h : inventory.Consistent) {kind : Kind}
    {objects : List Object} {gone object : Object} {slot : Slot}
    (hgone : gone ∈ inventory.missing kind objects)
    (hobject : (listed kind objects).get? slot = some object) : gone.takesAlong object = false := by
  obtain ⟨place, hplace, hkind, hnone⟩ := mem_missing_iff.mp hgone
  obtain ⟨-, hsame, hslot⟩ := mem_listed hobject
  have hgoneKind : gone.kind = kind := by
    rw [← hkind, ← h.placed hplace]
    rfl
  rw [Bool.eq_false_iff]
  intro htakes
  cases gone with
  | link l =>
      obtain ⟨other, rfl⟩ := Object.exists_link_of_kind (hsame.trans hgoneKind.symm)
      rw [Object.takesAlong, beq_iff_eq, Object.owner?_eq_some_iff] at htakes
      have hindex : other.index = l.index := htakes.1
      have hplaces : slot = place := by
        rw [← hslot, ← h.placed hplace]
        simp only [Object.slot, Object.kind, Object.key, hindex]
      rw [hplaces, hnone] at hobject
      exact absurd hobject (by simp)
  | discipline d =>
      rw [Object.takesAlong, List.any_eq_true] at htakes
      · obtain ⟨hook, -, hhangs⟩ := htakes
        rw [← hsame, Object.kind_of_hangsAt hhangs] at hgoneKind
        exact absurd hgoneKind (by simp [Object.kind])
      · simp
  | _ => exact absurd htakes (by simp [Object.takesAlong, Object.hooks])

theorem not_hangsAt_listed {inventory : Inventory} (h : inventory.Consistent) {kind : Kind}
    {objects : List Object} {hook : Hook} {object : Object} {slot : Slot}
    (hhook : hook ∈ inventory.hooksLostIn kind objects)
    (hobject : (listed kind objects).get? slot = some object) : object.hangsAt hook = false := by
  rw [Bool.eq_false_iff]
  intro hhangs
  rw [hooksLostIn, List.mem_flatMap] at hhook
  obtain ⟨⟨place, fresh⟩, hfresh, hlost⟩ := hhook
  have hlisted := mem_listed (Table.get?_eq_some_iff.mpr hfresh)
  simp only [hooksLost] at hlost
  split at hlost
  · exact absurd hlost (by simp)
  · rename_i previous hprevious
    split at hlost
    · exact absurd hlost (by simp)
    · have hdiscipline := Object.kind_of_mem_hooks (Object.mem_hooks_of_mem_hooksLostTo hlost)
      have hkinds : previous.kind = fresh.kind :=
        congrArg Slot.kind ((h.placed hprevious).trans hlisted.2.2.symm)
      rw [hdiscipline, hlisted.2.1, ← (mem_listed hobject).2.1,
        Object.kind_of_hangsAt hhangs] at hkinds
      exact absurd hkinds (by simp)

theorem lookup_reconcile {inventory : Inventory} (h : inventory.Consistent) (kind : Kind)
    (objects : List Object) (slot : Slot) :
    (inventory.reconcile kind objects).2.inventory.lookup slot =
      if slot.kind = kind then (listed kind objects).get? slot
      else (inventory.lookup slot).filter fun object =>
        !(inventory.missing kind objects).any (·.takesAlong object) &&
          !(inventory.hooksLostIn kind objects).any object.hangsAt := by
  obtain ⟨hconsistent, hlookup⟩ := h.refilled kind objects
  rw [reconcile_revision, Revision.lookup_dropAtAll
      (Revision.keptByDrop_consistent.foldl_cascade _ hconsistent),
    Revision.lookup_foldl_cascade hconsistent, hlookup, Option.filter_filter]
  split
  · cases hobject : (listed kind objects).get? slot with
    | none => rfl
    | some object =>
        rw [Option.filter_some, if_pos]
        rw [Bool.and_eq_true, Bool.not_eq_true', Bool.not_eq_true', List.any_eq_false,
          List.any_eq_false]
        refine ⟨?_, ?_⟩
        · intro gone hgone
          rw [not_takesAlong_listed h hgone hobject]
          simp
        · intro hook hhook
          rw [not_hangsAt_listed h hhook hobject]
          simp
  · rfl

end Inventory

end NetState
