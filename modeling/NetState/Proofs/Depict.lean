import NetState.Proofs.Peer.Offer
import NetState.Session.Sync

namespace NetState

namespace Peer

/-- Whether a list holds the images of the peer's objects of a kind and nothing else. -/
def Depicts (peer : Peer) (kind : Kind) (found : List Object) : Prop :=
  ∀ image, image ∈ found ↔
    ∃ object, peer.Has object ∧ object.kind = kind ∧ object.image? = some image

/-- Whether an inventory shows what the peer has of so many kinds, from the first one on. -/
def ShownBelow (peer : Peer) (count : Nat) (inventory : Inventory) : Prop :=
  ∀ slot, slot.kind.rank < count → inventory.lookup slot = peer.images.get? slot

variable {peer : Peer} {inventory : Inventory} {kind : Kind} {found : List Object}

theorem shownBelow_zero (peer : Peer) (inventory : Inventory) : peer.ShownBelow 0 inventory :=
  fun _ hslot => absurd hslot (Nat.not_lt_zero _)

theorem mirrors_of_shownBelow (h : peer.ShownBelow Kind.all.length inventory) :
    inventory.Mirrors peer := by
  refine Table.ext_get? fun slot => h slot ?_
  cases slot.kind <;> decide

theorem images_of_holdings {other : Peer} (h : other.holdings = peer.holdings) :
    other.images = peer.images := by
  rw [images, images, all, all, funext (objects_of_holdings h)]

theorem depicts_objects (h : peer.Sound) (kind : Kind) :
    peer.Depicts kind ((peer.objects kind).filterMap Object.image?) := by
  intro image
  simp only [List.mem_filterMap, mem_objects_iff h, and_assoc]

theorem Depicts.get?_listed (h : peer.Sound) (hdepicts : peer.Depicts kind found) {slot : Slot}
    (hslot : slot.kind = kind) :
    (Inventory.listed kind found).get? slot = peer.images.get? slot := by
  refine Option.ext fun image => ?_
  rw [get?_images h]
  constructor
  · intro hget
    obtain ⟨hmem, -, rfl⟩ := Inventory.mem_listed hget
    obtain ⟨object, hhas, -, himage⟩ := (hdepicts image).mp hmem
    exact ⟨object, hhas, (Object.resembles_of_image? himage).slot.symm, himage⟩
  · rintro ⟨object, hhas, rfl, himage⟩
    have hresembles := Object.resembles_of_image? himage
    obtain ⟨last, hlast⟩ := Inventory.exists_listed
      ((hdepicts image).mpr ⟨object, hhas, hslot, himage⟩) (hresembles.kind.trans hslot)
    obtain ⟨hmem, -, hlastSlot⟩ := Inventory.mem_listed hlast
    obtain ⟨other, hother, -, hlastImage⟩ := (hdepicts last).mp hmem
    have hsame := h.slot_injective hother hhas
      ((Object.resembles_of_image? hlastImage).slot.symm.trans
      (hlastSlot.trans hresembles.slot))
    rw [hsame, himage] at hlastImage
    rw [Option.some.inj hlastImage, ← hresembles.slot]
    exact hlast

end Peer

theorem Object.hangsAt_of_rank_lt {object : Object} {kind : Kind}
    (h : object.kind.rank < kind.rank) (hook : Hook) : object.hangsAt hook = false := by
  cases hhangs : object.hangsAt hook with
  | false => rfl
  | true =>
      rw [Object.kind_of_hangsAt hhangs] at h
      cases kind <;> exact absurd h (by decide)

theorem Object.takesAlong_of_rank_lt {gone object : Object}
    (h : object.kind.rank < gone.kind.rank) :
    gone.takesAlong object = false := by
  cases gone with
  | link l => exact absurd h (Nat.not_lt_zero _)
  | _ =>
      simp only [Object.takesAlong, List.any_eq_false, Bool.not_eq_true]
      intro hook _
      exact Object.hangsAt_of_rank_lt h hook

namespace Inventory

theorem lookup_reconcile_below {inventory : Inventory} (h : inventory.Consistent) {kind : Kind}
    (objects : List Object) {slot : Slot} (hslot : slot.kind.rank < kind.rank) :
    (inventory.reconcile kind objects).2.inventory.lookup slot = inventory.lookup slot := by
  rw [lookup_reconcile h, if_neg fun heq => Nat.lt_irrefl _ (heq ▸ hslot)]
  cases hobject : inventory.lookup slot with
  | none => rfl
  | some object =>
      have hkind : object.kind.rank < kind.rank := by
        rw [show object.kind = slot.kind from congrArg Slot.kind (h.placed hobject)]
        exact hslot
      rw [Option.filter_some, if_pos]
      rw [Bool.and_eq_true, Bool.not_eq_true', Bool.not_eq_true', List.any_eq_false,
        List.any_eq_false]
      refine ⟨fun gone hgone => ?_, fun hook _ => ?_⟩
      · obtain ⟨place, hplace, hplaceKind, -⟩ := mem_missing_iff.mp hgone
        have hgoneKind : gone.kind = kind :=
          (congrArg Slot.kind (h.placed hplace)).trans hplaceKind
        rw [Object.takesAlong_of_rank_lt (hgoneKind ▸ hkind)]
        exact Bool.false_ne_true
      · rw [Object.hangsAt_of_rank_lt hkind]
        exact Bool.false_ne_true

end Inventory

namespace Peer

variable {peer : Peer} {inventory : Inventory} {kind : Kind} {found : List Object}

/-- One kind more is shown when it is brought up to date. -/
theorem ShownBelow.reconcile (h : peer.Sound) (hconsistent : inventory.Consistent)
    (hshown : peer.ShownBelow kind.rank inventory) (hdepicts : peer.Depicts kind found) :
    peer.ShownBelow (kind.rank + 1) (inventory.reconcile kind found).2.inventory := by
  intro slot hslot
  rcases Nat.lt_succ_iff_lt_or_eq.mp hslot with hbelow | hrank
  · rw [Inventory.lookup_reconcile_below hconsistent found hbelow]
    exact hshown slot hbelow
  · have hkind := Kind.rank_injective hrank
    rw [Inventory.lookup_reconcile hconsistent, if_pos hkind]
    exact hdepicts.get?_listed h hkind

/-- Whether handles of disciplines have no minor number, and filters below a discipline that hooks
both sides are at one of its hooks. -/
structure Orderly (peer : Peer) : Prop where
  minors : ∀ d ∈ peer.disciplines, d.isDefault = false → d.handle.minor = 0
  hooked : ∀ d ∈ peer.disciplines, d.kind = Discipline.bothSidesKind →
    ∀ f ∈ peer.filters, f.interface = d.interface → f.parent.major = d.handle.major →
      f.parent = Handle.ingressHook ∨ f.parent = Handle.egressHook

theorem readable_of_known {kind : String} (h : disciplineKinds.contains kind = true) :
    Value.string (Text.Utf8.encode kind ++ [0]) = .ok kind := by
  have hall : ∀ known ∈ disciplineKinds,
      (Value.string (Text.Utf8.encode known ++ [0])).toOption = some known := by
    decide +kernel
  have hkind := hall kind (List.contains_iff_mem.mp h)
  cases hread : Value.string (Text.Utf8.encode kind ++ [0]) with
  | error fault => exact absurd (hread ▸ hkind) (by simp [Except.toOption])
  | ok read =>
      rw [hread] at hkind
      rw [Option.some.inj hkind]

theorem exists_of_mem_ofKind (h : peer.Sound) (hshown : peer.ShownBelow Kind.filter.rank inventory)
    {image : Object} (hmem : image ∈ inventory.ofKind .discipline) :
    ∃ d ∈ peer.disciplines, ∃ seen : Discipline, image = .discipline seen ∧
      seen.interface = d.interface ∧ seen.kind = d.kind ∧ seen.handle = d.handle := by
  obtain ⟨slot, hlookup, hkind⟩ := Inventory.mem_ofKind_iff.mp hmem
  rw [hshown slot (by rw [hkind]; decide)] at hlookup
  obtain ⟨object, hhas, hslot, himage⟩ := (get?_images h).mp hlookup
  have hform := Object.form_of_kind object
  rw [show object.kind = .discipline from (congrArg Slot.kind hslot).trans hkind] at hform
  obtain ⟨d, rfl⟩ := hform
  exact ⟨d, hhas, Object.discipline_of_image?
    (readable_of_known (h.disciplines_regular d hhas).known) himage⟩

theorem exists_mem_ofKind (h : peer.Sound) (himaged : peer.Imaged .discipline)
    (hshown : peer.ShownBelow Kind.filter.rank inventory) {d : Discipline}
    (hd : d ∈ peer.disciplines) :
    ∃ seen : Discipline, Object.discipline seen ∈ inventory.ofKind .discipline ∧
      seen.interface = d.interface ∧ seen.kind = d.kind ∧ seen.handle = d.handle := by
  obtain ⟨image, himage⟩ := himaged (show peer.Has (.discipline d) from hd) rfl
  obtain ⟨seen, rfl, hseen⟩ := Object.discipline_of_image?
    (readable_of_known (h.disciplines_regular d hd).known) himage
  refine ⟨seen, Inventory.mem_ofKind_iff.mpr ⟨(Object.discipline d).slot, ?_, rfl⟩, hseen⟩
  rw [hshown _ (show Kind.discipline.rank < Kind.filter.rank by decide)]
  exact (get?_images h).mpr ⟨.discipline d, hd, rfl, himage⟩

theorem mem_filterPoints_iff {interface : UInt32} {parent : Handle} :
    (interface, parent) ∈ Flow.filterPoints inventory ↔
      ∃ seen : Discipline, Object.discipline seen ∈ inventory.ofKind .discipline ∧
        seen.isDefault = false ∧ seen.interface = interface ∧
        if seen.kind = Discipline.bothSidesKind then
          parent = Handle.ingressHook ∨ parent = Handle.egressHook
        else parent = seen.handle := by
  rw [Flow.filterPoints, List.mem_flatMap]
  constructor
  · rintro ⟨object, hobject, hpoint⟩
    cases object with
    | discipline seen =>
        simp only at hpoint
        split at hpoint
        · exact absurd hpoint List.not_mem_nil
        · rename_i hset
          refine ⟨seen, hobject, by simpa using hset, ?_⟩
          split at hpoint
          · rename_i hboth
            rw [if_pos hboth, eq_comm]
            simpa [← and_or_left] using hpoint
          · rename_i hone
            rw [if_neg hone, eq_comm]
            simpa using hpoint
    | _ => exact absurd hpoint List.not_mem_nil
  · rintro ⟨seen, hobject, hset, rfl, hparent⟩
    refine ⟨.discipline seen, hobject, ?_⟩
    simp only [hset, Bool.false_eq_true, if_false]
    split at hparent
    · rename_i hboth
      rw [if_pos hboth]
      simpa using hparent
    · rename_i hone
      rw [if_neg hone]
      simpa using hparent

theorem hasFilterParent_of_mem_filterPoints (h : peer.Sound)
    (hshown : peer.ShownBelow Kind.filter.rank inventory) {interface : UInt32} {parent : Handle}
    (hpoint : (interface, parent) ∈ Flow.filterPoints inventory) :
    peer.hasFilterParent interface parent = true := by
  obtain ⟨seen, hseen, hset, rfl, hparent⟩ := mem_filterPoints_iff.mp hpoint
  obtain ⟨d, hd, other, heq, hinterface, hkind, hhandle⟩ := exists_of_mem_ofKind h hshown hseen
  obtain rfl := Object.discipline.inj heq
  refine hasFilterParent_iff.mpr ⟨d, hd, hinterface.symm, ?_, ?_⟩
  · rw [Discipline.isDefault, ← hhandle]
    exact hset
  · rw [← hhandle]
    split at hparent
    · rename_i hboth
      have hplaced := (h.disciplines_regular d hd).placed (by rw [← hkind, hboth]; decide)
      rw [hhandle, hplaced]
      rcases hparent with rfl | rfl <;> decide
    · rw [hparent]

theorem exists_mem_filterPoints (h : peer.Sound) (himaged : peer.Imaged .discipline)
    (horderly : peer.Orderly) (hshown : peer.ShownBelow Kind.filter.rank inventory) {f : Filter}
    (hf : f ∈ peer.filters) :
    ∃ point ∈ Flow.filterPoints inventory, f ∈ peer.filtersAt point.1 point.2 := by
  obtain ⟨d, hd, hinterface, hset, hmajor⟩ := hasFilterParent_iff.mp (h.filters_hung f hf)
  obtain ⟨seen, hseen, hseenInterface, hkind, hhandle⟩ := exists_mem_ofKind h himaged hshown hd
  have hseenSet : seen.isDefault = false := by
    rw [Discipline.isDefault, hhandle]
    exact hset
  by_cases hboth : seen.kind = Discipline.bothSidesKind
  · have hhook := horderly.hooked d hd (hkind.symm.trans hboth) f hf hinterface.symm hmajor.symm
    refine ⟨(f.interface, f.parent), mem_filterPoints_iff.mpr
      ⟨seen, hseen, hseenSet, hseenInterface.trans hinterface, ?_⟩, ?_⟩
    · rw [if_pos hboth]
      exact hhook
    · refine List.mem_filter.mpr ⟨hf, ?_⟩
      simp
  · refine ⟨(f.interface, d.handle), mem_filterPoints_iff.mpr
      ⟨seen, hseen, hseenSet, hseenInterface.trans hinterface, ?_⟩, ?_⟩
    · rw [if_neg hboth]
      exact hhandle.symm
    · refine List.mem_filter.mpr ⟨hf, ?_⟩
      simp [horderly.minors d hd hset, hmajor]

def filterImagesAt (peer : Peer) (point : UInt32 × Handle) : List Object :=
  ((peer.filtersAt point.1 point.2).map .filter).filterMap Object.image?

theorem depicts_filters (h : peer.Sound) (himaged : peer.Imaged .discipline)
    (horderly : peer.Orderly) (hshown : peer.ShownBelow Kind.filter.rank inventory) :
    peer.Depicts .filter ((Flow.filterPoints inventory).map peer.filterImagesAt).flatten := by
  intro image
  simp only [List.mem_flatten, List.mem_map, filterImagesAt]
  constructor
  · rintro ⟨_, ⟨point, -, rfl⟩, himage⟩
    obtain ⟨object, hobject, himage⟩ := List.mem_filterMap.mp himage
    obtain ⟨f, hf, rfl⟩ := List.mem_map.mp hobject
    exact ⟨.filter f, List.mem_of_mem_filter hf, rfl, himage⟩
  · rintro ⟨object, hhas, hkind, himage⟩
    have hform := Object.form_of_kind object
    rw [hkind] at hform
    obtain ⟨f, rfl⟩ := hform
    obtain ⟨point, hpoint, hf⟩ := exists_mem_filterPoints h himaged horderly hshown hhas
    refine ⟨_, ⟨point, hpoint, rfl⟩, List.mem_filterMap.mpr ⟨.filter f, ?_, himage⟩⟩
    exact List.mem_map_of_mem hf

end Peer

end NetState
