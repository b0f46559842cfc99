import NetState.Proofs.Inventory.Run

namespace NetState

namespace Object

/-- A filter below a discipline: on the same link, with a parent of the same major number. -/
def IsBelow (object : Object) (d : Discipline) : Prop :=
  ∃ f, object = .filter f ∧ f.interface = d.interface ∧ f.parent.major = d.handle.major

/-- Whether an object goes because another one does: it belongs to a link with a number, or is below
a discipline with a handle. -/
def LeavesWith (object gone : Object) : Prop :=
  match gone with
  | .link l => l.index ≠ 0 ∧ object.owner? = some l.index
  | .discipline d => d.handle ≠ .unspecified ∧ object.IsBelow d
  | _ => False

/-- Whether an object goes because a discipline it is below takes another handle. -/
def LosesHold (object previous fresh : Object) : Prop :=
  ∃ old new, previous = .discipline old ∧ fresh = .discipline new ∧
    old.handle ≠ .unspecified ∧ new.handle ≠ old.handle ∧ object.IsBelow old

theorem hangsAt_iff {object : Object} {d : Discipline} :
    object.hangsAt ⟨d.interface, d.handle.major⟩ = true ↔ object.IsBelow d := by
  cases object with
  | filter f => simp [hangsAt, Filter.hangsAt, IsBelow]
  | _ => simp [hangsAt, IsBelow]

theorem any_hooks_iff {object : Object} {d : Discipline} :
    d.hooks.any object.hangsAt = true ↔ d.handle ≠ .unspecified ∧ object.IsBelow d := by
  rw [Discipline.hooks, Discipline.isDefault, Handle.isUnspecified, ← hangsAt_iff]
  by_cases hhandle : d.handle = .unspecified <;> simp [hhandle]

theorem takesAlong_iff {gone object : Object} :
    gone.takesAlong object = true ↔ object.LeavesWith gone := by
  cases gone with
  | link l =>
      rw [takesAlong, beq_iff_eq, LeavesWith]
      exact (and_iff_right_of_imp fun howner => (owner?_eq_some_iff.mp howner).2).symm
  | discipline d => exact any_hooks_iff
  | _ => exact iff_of_false (by simp [takesAlong, hooks]) id

theorem IsBelow.kind {object : Object} {d : Discipline} (h : object.IsBelow d) :
    object.kind = .filter := by
  obtain ⟨f, rfl, -, -⟩ := h
  rfl

theorem LosesHold.slot_ne {object previous fresh : Object} (h : object.LosesHold previous fresh) :
    fresh.slot ≠ object.slot := by
  obtain ⟨old, new, rfl, rfl, -, -, hbelow⟩ := h
  intro hslot
  have hkind : Kind.discipline = object.kind := congrArg Slot.kind hslot
  rw [hbelow.kind] at hkind
  exact absurd hkind (by simp)

theorem hooks_eq_nil_or_singleton (object : Object) :
    object.hooks = [] ∨ ∃ hook, object.hooks = [hook] := by
  cases object with
  | discipline d =>
      rw [hooks, Discipline.hooks]
      split
      · exact Or.inl rfl
      · exact Or.inr ⟨_, rfl⟩
  | _ => exact Or.inl rfl

end Object

theorem Inventory.Consistent.any_hooksLost_iff {inventory : Inventory} (h : inventory.Consistent)
    {fresh object : Object} :
    (inventory.hooksLost fresh.slot fresh).any object.hangsAt = true ↔
      ∃ previous, inventory.lookup fresh.slot = some previous ∧
        object.LosesHold previous fresh := by
  cases hprevious : inventory.lookup fresh.slot with
  | none => simp [Inventory.hooksLost_of_eq_none hprevious]
  | some previous =>
      simp only [Option.some.injEq, exists_eq_left']
      by_cases hsame : previous = fresh
      · subst hsame
        rw [Inventory.hooksLost_self hprevious]
        refine iff_of_false (by simp) ?_
        rintro ⟨old, new, rfl, hnew, -, hhandle, -⟩
        exact hhandle (congrArg Discipline.handle (Object.discipline.inj hnew)).symm
      · rw [Inventory.hooksLost_of_ne hprevious hsame]
        have hkind : previous.kind = fresh.kind := congrArg Slot.kind (h.placed hprevious)
        constructor
        · intro hlost
          obtain ⟨hook, hhook, -⟩ := List.any_eq_true.mp hlost
          have hdiscipline := Object.kind_of_mem_hooks (Object.mem_hooks_of_mem_hooksLostTo hhook)
          have hold := Object.form_of_kind previous
          have hnew := Object.form_of_kind fresh
          rw [hdiscipline] at hold
          rw [← hkind, hdiscipline] at hnew
          obtain ⟨old, rfl⟩ := hold
          obtain ⟨new, rfl⟩ := hnew
          rw [Object.hooksLostTo] at hlost
          split at hlost
          · exact absurd hlost (by simp)
          · rename_i hhandle
            obtain ⟨hset, hbelow⟩ := Object.any_hooks_iff.mp hlost
            exact ⟨old, new, rfl, rfl, hset, hhandle, hbelow⟩
        · rintro ⟨old, new, rfl, rfl, hset, hhandle, hbelow⟩
          rw [Object.hooksLostTo, if_neg hhandle]
          exact Object.any_hooks_iff.mpr ⟨hset, hbelow⟩

namespace Revision

/-- `after` is `start` with the objects `gone` taken out, each told of once as removed. -/
structure Sheds (start after : Revision) (gone : List Object) : Prop where
  told : after.events = start.events ++ gone.map fun object => ⟨.removed, object⟩
  nodup : gone.Nodup
  mem_iff : ∀ object, object ∈ gone ↔ start.inventory.lookup object.slot = some object ∧
    after.inventory.lookup object.slot = none
  sub : ∀ slot object, after.inventory.lookup slot = some object →
    start.inventory.lookup slot = some object

theorem Sheds.refl (start : Revision) : start.Sheds start [] where
  told := (List.append_nil _).symm
  nodup := List.nodup_nil
  mem_iff object := by
    refine iff_of_false (by simp) ?_
    rintro ⟨hsome, hnone⟩
    rw [hsome] at hnone
    exact absurd hnone (by simp)
  sub _ _ hobject := hobject

section

variable {start after : Revision} {gone : List Object}

theorem Sheds.mem_slots_iff (h : start.Sheds after gone) (hstart : start.inventory.Consistent)
    {slot : Slot} : slot ∈ gone.map Object.slot ↔
      ∃ object, start.inventory.lookup slot = some object ∧
        after.inventory.lookup slot = none := by
  rw [List.mem_map]
  constructor
  · rintro ⟨object, hgone, rfl⟩
    exact ⟨object, (h.mem_iff object).mp hgone⟩
  · rintro ⟨object, hobject, hnone⟩
    have hslot := hstart.placed hobject
    exact ⟨object, (h.mem_iff object).mpr (hslot.symm ▸ ⟨hobject, hnone⟩), hslot⟩

theorem Sheds.lookup (h : start.Sheds after gone) (hstart : start.inventory.Consistent)
    (slot : Slot) : after.inventory.lookup slot =
      if slot ∈ gone.map Object.slot then none else start.inventory.lookup slot := by
  have hmem : slot ∈ gone.map Object.slot ↔ ∃ object, start.inventory.lookup slot = some object ∧
      after.inventory.lookup slot = none := h.mem_slots_iff hstart
  cases hafter : after.inventory.lookup slot with
  | some object =>
      rw [if_neg, h.sub slot object hafter]
      simp [hmem, hafter]
  | none =>
      split
      · rfl
      · rename_i hkept
        cases hbefore : start.inventory.lookup slot with
        | none => rfl
        | some object => exact absurd (hmem.mpr ⟨object, hbefore, hafter⟩) hkept

theorem Sheds.drop (h : start.Sheds after gone) (hstart : start.inventory.Consistent)
    (place : Slot) : ∃ more, start.Sheds (after.drop place) more := by
  cases hplace : after.inventory.lookup place with
  | none =>
      refine ⟨gone, ?_⟩
      rwa [Revision.drop, hplace]
  | some object =>
      have hbefore := h.sub place object hplace
      have hslot := hstart.placed hbefore
      have hfresh : object ∉ gone := by
        intro hgone
        have hnone := ((h.mem_iff object).mp hgone).2
        rw [hslot, hplace] at hnone
        exact absurd hnone (by simp)
      refine ⟨gone ++ [object], ?_, ?_, ?_, ?_⟩
      · rw [Revision.drop, hplace, List.map_append, ← List.append_assoc, ← h.told]
        rfl
      · rw [List.nodup_append]
        refine ⟨h.nodup, List.nodup_singleton object, ?_⟩
        rintro other hother _ hlast rfl
        exact hfresh (List.mem_singleton.mp hlast ▸ hother)
      · intro other
        rw [List.mem_append, List.mem_singleton, h.mem_iff, lookup_drop]
        constructor
        · rintro (⟨hother, hnone⟩ | rfl)
          · exact ⟨hother, by rw [hnone, ite_self]⟩
          · rw [hslot, if_pos rfl]
            exact ⟨hbefore, rfl⟩
        · rintro ⟨hother, hnone⟩
          split at hnone
          · rename_i hsame
            rw [← hsame, hbefore] at hother
            exact Or.inr (Option.some.inj hother).symm
          · exact Or.inl ⟨hother, hnone⟩
      · intro slot other hother
        rw [lookup_drop] at hother
        split at hother
        · exact absurd hother (by simp)
        · exact h.sub slot other hother

theorem keptByDrop_sheds (hstart : start.inventory.Consistent) :
    KeptByDrop fun after => ∃ gone, start.Sheds after gone := by
  rintro after place ⟨gone, h⟩
  exact h.drop hstart place

end

end Revision

/-- The slots to be emptied once an object is gone: those of all that a link owns, and of the
filters below a discipline. -/
def Inventory.dependents (inventory : Inventory) : Object → List Slot
  | .link l => inventory.slotsOwnedBy l.index
  | gone => gone.hooks.flatMap inventory.slotsAt

/-- Slots emptied one after the other, and after each of them those of its dependents, to any
depth. -/
inductive Removes : Revision → List Slot → Revision → Prop where
  | done {revision : Revision} : Removes revision [] revision
  | absent {revision after : Revision} {slot : Slot} {rest : List Slot}
      (hslot : revision.inventory.lookup slot = none) (hrest : Removes revision rest after) :
      Removes revision (slot :: rest) after
  | present {revision between after : Revision} {slot : Slot} {rest : List Slot} {object : Object}
      (hslot : revision.inventory.lookup slot = some object)
      (halong : Removes (revision.drop slot)
        ((revision.drop slot).inventory.dependents object) between)
      (hrest : Removes between rest after) : Removes revision (slot :: rest) after

namespace Removes

open Revision

theorem unique {revision after other : Revision} {slots : List Slot}
    (h : Removes revision slots after) (hother : Removes revision slots other) :
    after = other := by
  induction h generalizing other with
  | done =>
      cases hother
      rfl
  | absent hslot _ ih =>
      cases hother with
      | absent _ hrest => exact ih hrest
      | present hsome => exact absurd (hslot.symm.trans hsome) (by simp)
  | present hslot _ _ ihalong ihrest =>
      cases hother with
      | absent hnone => exact absurd (hslot.symm.trans hnone) (by simp)
      | present hsome halong hrest =>
          obtain rfl := Option.some.inj (hslot.symm.trans hsome)
          obtain rfl := ihalong halong
          exact ihrest hrest

theorem foldl_drop {revision : Revision} {slots : List Slot}
    (hslots : ∀ slot ∈ slots, ∀ object, revision.inventory.lookup slot = some object →
      object.kind = .filter) :
    Removes revision slots (slots.foldl Revision.drop revision) := by
  induction slots generalizing revision with
  | nil => exact .done
  | cons first rest ih =>
      rw [List.foldl_cons]
      have hrest : Removes (revision.drop first) rest
          (rest.foldl Revision.drop (revision.drop first)) := by
        refine ih ?_
        intro slot hslot object hobject
        rw [lookup_drop] at hobject
        split at hobject
        · exact absurd hobject (by simp)
        · exact hslots slot (List.mem_cons_of_mem first hslot) object hobject
      cases hfirst : revision.inventory.lookup first with
      | none =>
          have hdrop : revision.drop first = revision := by rw [Revision.drop, hfirst]
          rw [hdrop] at hrest ⊢
          exact .absent hfirst hrest
      | some object =>
          have hform := Object.form_of_kind object
          rw [hslots first List.mem_cons_self object hfirst] at hform
          obtain ⟨f, rfl⟩ := hform
          exact .present hfirst .done hrest

theorem dropAtAll {revision : Revision} (h : revision.inventory.Consistent) (gone : Object) :
    Removes revision (gone.hooks.flatMap revision.inventory.slotsAt)
      (revision.dropAtAll gone.hooks) := by
  obtain hhooks | ⟨hook, hhooks⟩ := gone.hooks_eq_nil_or_singleton
  · rw [hhooks]
    exact .done
  · rw [hhooks, List.flatMap_singleton]
    refine foldl_drop ?_
    intro slot hslot object hobject
    obtain ⟨found, hfound, hhangs⟩ := h.mem_slotsAt_iff.mp hslot
    rw [hobject] at hfound
    rw [Option.some.inj hfound]
    exact Object.kind_of_hangsAt hhangs

theorem foldl_dropWithFilters {revision : Revision} (h : revision.inventory.Consistent)
    {slots : List Slot}
    (hslots : ∀ slot ∈ slots, ∀ object, revision.inventory.lookup slot = some object →
      object.kind ≠ .link) :
    Removes revision slots (slots.foldl Revision.dropWithFilters revision) := by
  induction slots generalizing revision with
  | nil => exact .done
  | cons first rest ih =>
      rw [List.foldl_cons]
      have hsub := (keptByDrop_sub revision.inventory).dropWithFilters first fun _ _ hsame => hsame
      have hrest := ih (keptByDrop_consistent.dropWithFilters first h)
        fun slot hslot object hobject =>
          hslots slot (List.mem_cons_of_mem first hslot) object (hsub slot object hobject)
      cases hfirst : revision.inventory.lookup first with
      | none =>
          have hsame : revision.dropWithFilters first = revision := by
            rw [Revision.dropWithFilters, hfirst]
          rw [hsame] at hrest ⊢
          exact .absent hfirst hrest
      | some object =>
          have hdropped : revision.dropWithFilters first =
              (revision.drop first).dropAtAll object.hooks := by
            rw [Revision.dropWithFilters, hfirst]
          have halong := dropAtAll (keptByDrop_consistent revision first h) object
          have hdependents : (revision.drop first).inventory.dependents object =
              object.hooks.flatMap (revision.drop first).inventory.slotsAt := by
            cases object with
            | link l => exact absurd rfl (hslots first List.mem_cons_self (.link l) hfirst)
            | _ => rfl
          rw [← hdropped, ← hdependents] at halong
          exact .present hfirst halong hrest

theorem cascade {revision : Revision} (h : revision.inventory.Consistent) {gone : Object}
    (hgone : revision.inventory.lookup gone.slot = none) :
    Removes revision (revision.inventory.dependents gone) (revision.cascade gone) := by
  cases gone with
  | link l =>
      refine foldl_dropWithFilters h ?_
      intro slot hslot object hobject hkind
      obtain ⟨found, hfound, howner⟩ := h.noted_iff.mp hslot
      rw [hobject] at hfound
      rw [← Option.some.inj hfound, Object.owner?_eq_some_iff] at howner
      obtain ⟨m, rfl⟩ := Object.exists_link_of_kind hkind
      have hindex : m.index = l.index := howner.1
      have hsame : (Object.link m).slot = (Object.link l).slot := by
        simp only [Object.slot, Object.kind, Object.key, hindex]
      rw [← h.placed hobject, hsame, hgone] at hobject
      exact absurd hobject (by simp)
  | _ => exact dropAtAll h _

end Removes

namespace Inventory

variable {inventory : Inventory}

/-- The recursion from one slot ends, and as the removal of that slot tells. -/
theorem Consistent.removes_iff (h : inventory.Consistent) (place : Slot) (revision : Revision) :
    Removes ⟨inventory, []⟩ [place] revision ↔ revision = (inventory.remove place).2 := by
  have hremoves : Removes ⟨inventory, []⟩ [place] (inventory.remove place).2 := by
    cases hplace : inventory.lookup place with
    | none =>
        rw [remove_of_eq_none hplace]
        exact .absent hplace .done
    | some object =>
        rw [remove_of_eq_some hplace]
        refine .present hplace (.cascade (Revision.keptByDrop_consistent _ place h) ?_) .done
        rw [Revision.lookup_drop, if_pos (h.placed hplace).symm]
  constructor
  · intro hrevision
    exact hrevision.unique hremoves
  · rintro rfl
    exact hremoves

theorem Consistent.sheds_remove (h : inventory.Consistent) (place : Slot) :
    ∃ gone, (⟨inventory, []⟩ : Revision).Sheds (inventory.remove place).2 gone := by
  have hkept : Revision.KeptByDrop fun after => ∃ gone, Revision.Sheds ⟨inventory, []⟩ after gone :=
    Revision.keptByDrop_sheds h
  cases hplace : inventory.lookup place with
  | none =>
      rw [remove_of_eq_none hplace]
      exact ⟨[], .refl _⟩
  | some object =>
      rw [remove_of_eq_some hplace]
      exact hkept.cascade object (hkept _ place ⟨[], .refl _⟩)

theorem Consistent.lookup_remove_eq_none_iff (h : inventory.Consistent) {place : Slot}
    {object : Object} (hobject : inventory.lookup object.slot = some object) :
    (inventory.remove place).2.inventory.lookup object.slot = none ↔
      ∃ entry, inventory.lookup place = some entry ∧
        (object = entry ∨ object.LeavesWith entry) := by
  cases hplace : inventory.lookup place with
  | none =>
      rw [remove_of_eq_none hplace]
      exact iff_of_false (by simp [hobject]) (by simp)
  | some entry =>
      have hsame : object.slot = place ↔ object = entry := by
        constructor
        · rintro rfl
          exact Option.some.inj (hobject.symm.trans hplace)
        · rintro rfl
          exact h.placed hplace
      simp only [lookup_remove h hplace, hobject, Option.filter_some, Option.some.injEq,
        exists_eq_left', ← hsame, ← Object.takesAlong_iff]
      by_cases heq : object.slot = place <;> simp [heq]

def placing (inventory : Inventory) (object : Object) : Inventory :=
  match inventory.lookup object.slot with
  | none => inventory.store object
  | some previous =>
    if previous = object then inventory
    else (if previous.owner? = object.owner? then inventory
      else inventory.release object.slot previous).store object

theorem upsert_revision_placing (inventory : Inventory) (object : Object) :
    (inventory.upsert object).2 =
      (⟨inventory.placing object, (inventory.newsOf? object.slot object).toList⟩ :
        Revision).dropAtAll (inventory.hooksLost object.slot object) := by
  rw [upsert_revision, placing, newsOf?, hooksLost]
  cases inventory.lookup object.slot with
  | none => rfl
  | some previous =>
      simp only
      split <;> rfl

theorem Consistent.placing (h : inventory.Consistent) (object : Object) :
    (inventory.placing object).Consistent ∧ ∀ slot, (inventory.placing object).lookup slot =
      if object.slot = slot then some object else inventory.lookup slot := by
  rw [Inventory.placing]
  split
  · rename_i hnone
    refine ⟨h.store ?_, lookup_store inventory object⟩
    intro previous hprevious
    exact absurd (hnone.symm.trans hprevious) (by simp)
  · rename_i previous hprevious
    split
    · rename_i hsame
      refine ⟨h, ?_⟩
      intro slot
      split
      · rename_i hslot
        rw [← hslot, hprevious, hsame]
      · rfl
    · exact ⟨consistent_replace h hprevious, lookup_replace inventory object previous⟩

theorem Consistent.lookup_upsert_eq_none_iff (h : inventory.Consistent) {fresh object : Object}
    (hslot : fresh.slot ≠ object.slot) (hobject : inventory.lookup object.slot = some object) :
    (inventory.upsert fresh).2.inventory.lookup object.slot = none ↔
      ∃ previous, inventory.lookup fresh.slot = some previous ∧
        object.LosesHold previous fresh := by
  rw [lookup_upsert h, if_neg hslot, hobject, Option.filter_some, ← h.any_hooksLost_iff]
  simp

/-- A single change has an exact frame. A removal ends, takes out the object in the slot and, if
that is a link with a number, all that belongs to the link, or if it is a discipline with a handle,
the filters below it. An upsert puts the object into its slot and takes out the filters below a
discipline that it gives another handle. Every other slot is as before, and each object that is
taken out is told of once as removed. -/
theorem Consistent.change_exact (h : inventory.Consistent) :
    (∀ place,
      (∀ revision, Removes ⟨inventory, []⟩ [place] revision ↔
        revision = (inventory.remove place).2) ∧
      (inventory.remove place).1 = inventory.lookup place ∧
      ∃ gone : List Object,
        (inventory.remove place).2.events = gone.map (fun object => ⟨.removed, object⟩) ∧
        gone.Nodup ∧
        (∀ object, object ∈ gone ↔ inventory.lookup object.slot = some object ∧
          ∃ entry, inventory.lookup place = some entry ∧
            (object = entry ∨ object.LeavesWith entry)) ∧
        ∀ slot, (inventory.remove place).2.inventory.lookup slot =
          if slot ∈ gone.map Object.slot then none else inventory.lookup slot) ∧
    ∀ fresh : Object,
      (inventory.upsert fresh).2.inventory.lookup fresh.slot = some fresh ∧
      ∃ gone : List Object,
        (inventory.upsert fresh).2.events =
          (inventory.newsOf? fresh.slot fresh).toList ++
            gone.map (fun object => ⟨.removed, object⟩) ∧
        gone.Nodup ∧
        (∀ object, object ∈ gone ↔ inventory.lookup object.slot = some object ∧
          ∃ previous, inventory.lookup fresh.slot = some previous ∧
            object.LosesHold previous fresh) ∧
        ∀ slot, slot ≠ fresh.slot → (inventory.upsert fresh).2.inventory.lookup slot =
          if slot ∈ gone.map Object.slot then none else inventory.lookup slot := by
  constructor
  · intro place
    obtain ⟨gone, hgone⟩ := h.sheds_remove place
    refine ⟨h.removes_iff place, remove_fst inventory place, gone, hgone.told, hgone.nodup, ?_,
      hgone.lookup h⟩
    intro object
    rw [hgone.mem_iff]
    exact and_congr_right fun hobject => h.lookup_remove_eq_none_iff hobject
  · intro fresh
    obtain ⟨hplacing, hlookup⟩ := h.placing fresh
    have hself : (inventory.upsert fresh).2.inventory.lookup fresh.slot = some fresh := by
      rw [lookup_upsert h, if_pos rfl]
    obtain ⟨gone, hgone⟩ := (Revision.keptByDrop_sheds hplacing).dropAtAll
      (inventory.hooksLost fresh.slot fresh)
      ⟨[], .refl ⟨inventory.placing fresh, (inventory.newsOf? fresh.slot fresh).toList⟩⟩
    rw [← upsert_revision_placing] at hgone
    refine ⟨hself, gone, hgone.told, hgone.nodup, ?_, ?_⟩
    · intro object
      rw [hgone.mem_iff]
      simp only [hlookup]
      by_cases hslot : fresh.slot = object.slot
      · rw [← hslot, hself]
        refine iff_of_false (by simp) ?_
        rintro ⟨-, previous, -, hloses⟩
        exact hloses.slot_ne hslot
      · rw [if_neg hslot]
        exact and_congr_right fun hobject => h.lookup_upsert_eq_none_iff hslot hobject
    · intro slot hslot
      rw [hgone.lookup hplacing]
      simp only [hlookup]
      rw [if_neg (Ne.symm hslot)]

theorem change_exact_sharedMajor :
    let link := { Link.new "eth0" .unknown with index := 1 }
    let discipline : Discipline := .new 1 "htb" (.ofParts 1 0) .root
    let filter (interface : UInt32) : Filter :=
      ⟨interface, Filter.matchAllKind, ⟨1⟩, .ofParts 1 0, 10, Filter.anyProtocol, none⟩
    let known := empty.run [.upsert (.link link), .upsert (.discipline discipline),
      .upsert (.filter (filter 1)), .upsert (.filter (filter 2))]
    known.Consistent ∧ ∃ gone : List Object,
      (known.remove (Object.link link).slot).2.events =
        gone.map (fun object => ⟨.removed, object⟩) ∧
      gone.Nodup ∧ Object.link link ∈ gone ∧ Object.discipline discipline ∈ gone ∧
      Object.filter (filter 1) ∈ gone ∧ Object.filter (filter 2) ∉ gone := by
  intro link discipline filter known
  have hknown : known.Consistent := consistent_empty.run _
  obtain ⟨-, -, gone, hevents, hnodup, hgone, -⟩ := hknown.change_exact.1 (Object.link link).slot
  have hlink : known.lookup (Object.link link).slot = some (.link link) := rfl
  refine ⟨hknown, gone, hevents, hnodup, ?_, ?_, ?_, ?_⟩
  · exact (hgone _).mpr ⟨hlink, _, hlink, Or.inl rfl⟩
  · exact (hgone _).mpr ⟨rfl, _, hlink, Or.inr ⟨by decide, rfl⟩⟩
  · exact (hgone _).mpr ⟨rfl, _, hlink, Or.inr ⟨by decide, rfl⟩⟩
  · intro hfilter
    obtain ⟨-, entry, hentry, hgoes⟩ := (hgone _).mp hfilter
    obtain rfl := Option.some.inj (hlink.symm.trans hentry)
    obtain hsame | ⟨-, howner⟩ := hgoes
    · exact absurd hsame (by simp)
    · exact absurd howner (by decide)

end Inventory

end NetState
