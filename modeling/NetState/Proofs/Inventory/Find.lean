import NetState.Proofs.Inventory.Run
import NetState.Proofs.Object.Image

namespace NetState

namespace Table

theorem findSome?_map_eq_some {κ ν β : Type} {find : ν → Option β} {entries : List (κ × ν)}
    {entry : κ × ν}
    (h : entries.find? (fun entry => (find entry.2).isSome) = some entry) :
    (entries.map (·.2)).findSome? find = find entry.2 := by
  induction entries with
  | nil => exact absurd h (by simp)
  | cons first rest ih =>
      rw [List.map_cons, List.findSome?_cons]
      cases hfirst : find first.2 with
      | some found =>
          rw [List.find?_cons_of_pos (by simp [hfirst])] at h
          rw [← Option.some.inj h, hfirst]
      | none =>
          rw [List.find?_cons_of_neg (by simp [hfirst])] at h
          exact ih h

variable {κ ν β : Type} [Coded κ] [DecidableEq κ]

theorem findSome?_insertEntry {find : ν → Option β} {key : κ} {value : ν} {found : β}
    (hvalue : find value = some found) {entries : List (κ × ν)}
    (h : ∀ entry, entries.find? (fun entry => (find entry.2).isSome) = some entry → entry.1 = key) :
    ((insertEntry key value entries).map (·.2)).findSome? find = some found := by
  induction entries with
  | nil => simp [insertEntry, hvalue]
  | cons first rest ih =>
      rw [insertEntry]
      split
      · simp [hvalue]
      · split
        · simp [hvalue]
        · rename_i hne
          have hfirst : find first.2 = none := by
            rw [← Option.not_isSome_iff_eq_none]
            intro hfits
            exact hne (h first (List.find?_cons_of_pos hfits)).symm
          rw [List.map_cons, List.findSome?_cons, hfirst]
          refine ih fun entry hentry => h entry ?_
          rw [List.find?_cons_of_neg (by simp [hfirst])]
          exact hentry

end Table

theorem Object.slot_of_satisfies {object wanted : Object} (h : object.satisfies wanted = true)
    (hlink : ∀ l, wanted ≠ .link l) (hfilter : ∀ f, wanted ≠ .filter f) :
    object.slot = wanted.slot := by
  have hequivalent : object.equivalent wanted = true := by
    cases wanted with
    | link l => exact absurd rfl (hlink l)
    | filter f => exact absurd rfl (hfilter f)
    | _ =>
        cases object <;> simp only [satisfies, Bool.and_eq_true, Bool.false_eq_true] at h
        exact h.1
  cases wanted with
  | link l => exact absurd rfl (hlink l)
  | filter f => exact absurd rfl (hfilter f)
  | _ =>
      simp only [equivalent, Bool.and_eq_true, beq_iff_eq] at hequivalent
      rw [slot, slot, hequivalent.1, hequivalent.2]

namespace Inventory

variable {inventory other : Inventory} {image wanted : Object}

def part (inventory : Inventory) (kind : Kind) : Table Slot Object :=
  inventory.entries.filter fun slot _ => slot.kind == kind

theorem get?_part (inventory : Inventory) (kind : Kind) (slot : Slot) :
    (inventory.part kind).get? slot = if slot.kind = kind then inventory.lookup slot else none := by
  rw [part, Table.get?_filter, lookup]
  cases inventory.entries.get? slot with
  | none => simp
  | some object => by_cases hkind : slot.kind = kind <;> simp [hkind]

def named? (name : String) : Object → Option Link
  | .link l => if l.name = name then some l else none
  | _ => none

theorem linkNamed?_eq (inventory : Inventory) (name : String) :
    inventory.linkNamed? name =
      ((inventory.part .link).entries.map (·.2)).findSome? (named? name) :=
  rfl

theorem Consistent.lookup_upsert_link (h : inventory.Consistent) {slot : Slot}
    (hkind : slot.kind = .link) :
    (inventory.upsert image).2.inventory.lookup slot =
      if image.slot = slot then some image else inventory.lookup slot := by
  rw [lookup_upsert h]
  split
  · rfl
  · cases hold : inventory.lookup slot with
    | none => rfl
    | some old =>
        have holdKind : old.kind = .link := (congrArg Slot.kind (h.placed hold)).trans hkind
        obtain ⟨l, rfl⟩ := Object.exists_link_of_kind holdKind
        exact Option.filter_some_pos (by simp [Object.hangsAt])

theorem Consistent.part_upsert_link (h : inventory.Consistent) (l : Link) :
    (inventory.upsert (.link l)).2.inventory.part .link =
      (inventory.part .link).insert (Object.link l).slot (.link l) := by
  refine Table.ext_get? fun slot => ?_
  rw [Table.get?_insert, get?_part, get?_part]
  by_cases hkind : slot.kind = .link
  · rw [if_pos hkind, if_pos hkind, h.lookup_upsert_link hkind]
  · rw [if_neg hkind, if_neg hkind, if_neg]
    rintro rfl
    exact hkind rfl

theorem Consistent.linkNamed?_upsert (h : inventory.Consistent) (l : Link)
    (hfound : ∀ known, inventory.linkNamed? l.name = some known → known.index = l.index) :
    (inventory.upsert (.link l)).2.inventory.linkNamed? l.name = some l := by
  rw [linkNamed?_eq, h.part_upsert_link]
  refine Table.findSome?_insertEntry (by simp [named?]) ?_
  rintro ⟨slot, object⟩ hfirst
  have hfind := Table.findSome?_map_eq_some hfirst
  have hmem := List.mem_of_find?_eq_some hfirst
  obtain ⟨known, hknown⟩ := Option.isSome_iff_exists.mp
    (List.find?_some (p := fun entry : Slot × Object => (named? l.name entry.2).isSome) hfirst)
  have hlookup : inventory.lookup slot = some object :=
    Table.get?_eq_some_iff.mpr (List.mem_filter.mp hmem).1
  have hobject : object = .link known := by
    cases object with
    | link m =>
        simp only [named?] at hknown
        split at hknown
        · rw [Option.some.inj hknown]
        · exact absurd hknown (by simp)
    | _ => exact absurd hknown (by simp [named?])
  have hindex := hfound known (hfind.trans hknown)
  rw [show (slot, object).1 = slot from rfl, ← h.placed hlookup, hobject, Object.slot, Object.slot,
    Object.key, Object.key, hindex]
  rfl

theorem Consistent.find?_link_upsert (h : inventory.Consistent) {l : Link}
    (himage : image.kind ≠ .link) :
    (inventory.upsert image).2.inventory.find? (.link l) = inventory.find? (.link l) := by
  have hlookup {slot : Slot} (hkind : slot.kind = .link) :
      (inventory.upsert image).2.inventory.lookup slot = inventory.lookup slot := by
    rw [h.lookup_upsert_link hkind, if_neg]
    rintro rfl
    exact himage hkind
  have hpart : (inventory.upsert image).2.inventory.part .link = inventory.part .link := by
    refine Table.ext_get? fun slot => ?_
    rw [get?_part, get?_part]
    split
    · rename_i hkind
      exact hlookup hkind
    · rfl
  simp only [find?]
  rw [linkNamed?_eq, hpart, hlookup rfl]
  rfl

theorem Consistent.lookup_upsert_self (h : inventory.Consistent) (image : Object) :
    (inventory.upsert image).2.inventory.lookup image.slot = some image := by
  rw [lookup_upsert h, if_pos rfl]

theorem Consistent.mem_filtersOn (h : inventory.Consistent) {f : Filter}
    (hlookup : inventory.lookup (Object.filter f).slot = some (.filter f))
    (hinterface : f.interface ≠ 0) : f ∈ inventory.filtersOn f.interface := by
  refine List.mem_filterMap.mpr ⟨.filter f, h.mem_ofInterface_iff.mpr ⟨hlookup, ?_⟩, rfl⟩
  exact Object.owner?_eq_some_iff.mpr ⟨rfl, hinterface⟩

theorem Consistent.findFilter?_of_satisfies (h : inventory.Consistent) {f wanted : Filter}
    (hlookup : inventory.lookup (Object.filter f).slot = some (.filter f))
    (hinterface : wanted.interface ≠ 0) (hsatisfies : f.satisfies wanted = true) :
    ∃ found, inventory.findFilter? wanted = some found ∧ found.satisfies wanted = true := by
  have hsame : f.interface = wanted.interface := by
    simp only [Filter.satisfies, Filter.sameSlot, Bool.and_eq_true, beq_iff_eq] at hsatisfies
    exact hsatisfies.1.1.1.1.1.1
  have hmem : f ∈ inventory.filtersOn wanted.interface := by
    rw [← hsame] at hinterface ⊢
    exact h.mem_filtersOn hlookup hinterface
  cases hfind : (inventory.filtersOn wanted.interface).find? (·.satisfies wanted) with
  | none => exact absurd hsatisfies (List.find?_eq_none.mp hfind f hmem)
  | some found =>
      refine ⟨found, ?_, List.find?_some (p := fun f : Filter => f.satisfies wanted) hfind⟩
      rw [findFilter?, hfind]
      rfl

/-- An object that is in the place of the wanted one, as far as that is known beforehand. -/
def Suits (inventory : Inventory) (image : Object) : Object → Prop
  | .link l => l.index = 0 → ∀ known, inventory.linkNamed? l.name = some known →
      image.slot = (Object.link known).slot
  | .filter f => f.interface ≠ 0 ∧ (f.isKeyed = true → image.slot = (Object.filter f).slot)
  | _ => True

theorem Consistent.find?_upsert (h : inventory.Consistent)
    (hsatisfies : image.satisfies wanted = true) (hsuits : inventory.Suits image wanted) :
    ∃ found, (inventory.upsert image).2.inventory.find? wanted = some found ∧
      found.satisfies wanted = true := by
  have hself := h.lookup_upsert_self image
  have hafter : (inventory.upsert image).2.inventory.Consistent := h.upsert image
  have hplace (hslot : image.slot = wanted.slot) :
      (inventory.upsert image).2.inventory.lookup wanted.slot = some image := hslot ▸ hself
  -- Links and filters are searched for; for everything else there is just one slot to look into.
  cases wanted with
  | link l =>
      cases image with
      | link m =>
          simp only [Object.satisfies, Bool.and_eq_true, Bool.or_eq_true, beq_iff_eq] at hsatisfies
          by_cases hindex : l.index = 0
          · have hname : m.name = l.name := by
              have hsame := hsatisfies.2
              simp only [Link.satisfies, Bool.and_eq_true, beq_iff_eq] at hsame
              exact hsame.1.1.1
            have hfound := h.linkNamed?_upsert m fun known hknown => by
              have hslot := hsuits hindex known (hname ▸ hknown)
              simpa [Object.slot, Object.key, Object.kind] using hslot.symm
            refine ⟨.link m, ?_, ?_⟩
            · simp only [find?]
              rw [if_pos hindex, ← hname, hfound]
              rfl
            · simp [Object.satisfies, hindex, hsatisfies.2]
          · have hsame : m.index = l.index := hsatisfies.1.resolve_left hindex
            refine ⟨.link m, ?_, ?_⟩
            · simp only [find?]
              rw [if_neg hindex]
              exact hplace (by simp [Object.slot, Object.key, Object.kind, hsame])
            · simp [Object.satisfies, hsame, hsatisfies.2]
      | _ => exact absurd hsatisfies (by simp [Object.satisfies])
  | filter f =>
      cases image with
      | filter g =>
          obtain ⟨hinterface, hkeyed⟩ := hsuits
          simp only [find?]
          split
          · rename_i hkey
            exact ⟨.filter g, hplace (hkeyed hkey), hsatisfies⟩
          · obtain ⟨found, hfound, hdoes⟩ :=
              hafter.findFilter?_of_satisfies hself hinterface hsatisfies
            exact ⟨.filter found, by rw [hfound]; rfl, hdoes⟩
      | _ => exact absurd hsatisfies (by simp [Object.satisfies])
  | _ => exact ⟨image, hplace (Object.slot_of_satisfies hsatisfies (by simp) (by simp)), hsatisfies⟩

theorem Consistent.link_of_find? (h : inventory.Consistent) {l known : Link}
    (hfound : inventory.find? (.link l) = some (.link known)) :
    l.index = 0 ∧ inventory.linkNamed? l.name = some known ∨
      l.index ≠ 0 ∧ known.index = l.index := by
  simp only [find?] at hfound
  split at hfound
  · rename_i hzero
    obtain ⟨found, hnamed, hsame⟩ := Option.map_eq_some_iff.mp hfound
    exact Or.inl ⟨hzero, Object.link.inj hsame ▸ hnamed⟩
  · rename_i hset
    have hslot := h.placed hfound
    simp only [Object.slot, Object.key, Object.kind, Slot.mk.injEq, Key.link.injEq,
      true_and] at hslot
    exact Or.inr ⟨hset, hslot⟩

theorem Consistent.lookup_of_linkNamed? (h : inventory.Consistent) {name : String} {l : Link}
    (hnamed : inventory.linkNamed? name = some l) :
    inventory.lookup (Object.link l).slot = some (.link l) := by
  obtain ⟨object, hmem, hobject⟩ := List.exists_of_findSome?_eq_some hnamed
  cases object with
  | link m =>
      simp only [Option.ite_none_right_eq_some, Option.some.injEq] at hobject
      obtain ⟨slot, hslot, -⟩ := mem_ofKind_iff.mp hmem
      rw [← hobject.2, h.placed hslot]
      exact hslot
  | _ => exact absurd hobject (by simp)

theorem Consistent.lookup_of_findFilter? (h : inventory.Consistent) {wanted f : Filter}
    (hfound : inventory.findFilter? wanted = some f) :
    inventory.lookup (Object.filter f).slot = some (.filter f) := by
  have hmem : f ∈ inventory.filtersOn wanted.interface := by
    rw [findFilter?] at hfound
    rcases Option.or_eq_some_iff.mp hfound with hfirst | ⟨-, hfirst⟩
    · exact List.mem_of_find?_eq_some hfirst
    · split at hfirst
      · exact absurd hfirst (by simp)
      · exact List.mem_of_find?_eq_some hfirst
  rw [filtersOn] at hmem
  obtain ⟨object, hobject, hf⟩ := List.mem_filterMap.mp hmem
  cases object with
  | filter g =>
      rw [← Option.some.inj hf]
      exact (h.mem_ofInterface_iff.mp hobject).1
  | _ => exact absurd hf (by simp)

/-- What is found stands in its own slot, and is of the kind of what was looked for. -/
theorem Consistent.lookup_of_find? (h : inventory.Consistent) {found : Object}
    (hfound : inventory.find? wanted = some found) :
    inventory.lookup found.slot = some found ∧ found.kind = wanted.kind := by
  have hslot (hlookup : inventory.lookup wanted.slot = some found) :
      inventory.lookup found.slot = some found ∧ found.kind = wanted.kind := by
    rw [h.placed hlookup]
    exact ⟨hlookup, congrArg Slot.kind (h.placed hlookup)⟩
  cases wanted with
  | link l =>
      rw [find?] at hfound
      split at hfound
      · obtain ⟨known, hknown, rfl⟩ := Option.map_eq_some_iff.mp hfound
        exact ⟨h.lookup_of_linkNamed? hknown, rfl⟩
      · exact hslot hfound
  | filter f =>
      rw [find?] at hfound
      split at hfound
      · exact hslot hfound
      · obtain ⟨known, hknown, rfl⟩ := Option.map_eq_some_iff.mp hfound
        exact ⟨h.lookup_of_findFilter? hknown, rfl⟩
  | _ => exact hslot hfound

end Inventory

end NetState
