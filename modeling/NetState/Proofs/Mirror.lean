import NetState.Proofs.Inventory.Run
import NetState.Proofs.Peer.Account

namespace NetState

namespace Peer

/-- All objects of a peer, one kind after the other. -/
def all (peer : Peer) : List Object :=
  Kind.all.flatMap peer.objects

def images (peer : Peer) : Table Slot Object :=
  .ofList (peer.all.filterMap fun object => object.image?.map fun image => (image.slot, image))

def Imaged (peer : Peer) (kind : Kind) : Prop :=
  ∀ {object}, peer.Has object → object.kind = kind → ∃ image, object.image? = some image

/-- Whether all objects of a peer can be told, and the end of each. -/
structure Tellable (peer : Peer) : Prop where
  imaged : ∀ {object}, peer.Has object → ∃ image, object.image? = some image
  prioritized : ∀ f ∈ peer.filters, f.priority ≠ 0

theorem Tellable.of_holdings {peer other : Peer} (h : peer.Tellable)
    (hsame : other.holdings = peer.holdings) : other.Tellable := by
  have hhas := has_of_holdings hsame
  refine ⟨fun hobject => h.imaged (hhas ▸ hobject), fun f hf => h.prioritized f ?_⟩
  exact (congrFun hhas (.filter f)).mp hf

theorem kind_address (a : Address) : (Object.address a).kind = .address4 ∧ a.ip.isV6 = false ∨
    (Object.address a).kind = .address6 ∧ a.ip.isV6 = true := by
  rw [Object.kind]
  cases a.ip.isV6 <;> simp

theorem kind_route (r : Route) : (Object.route r).kind = .route4 ∧ r.isV6 = false ∨
    (Object.route r).kind = .route6 ∧ r.isV6 = true := by
  rw [Object.kind]
  cases r.isV6 <;> simp

theorem mem_map_filter_iff {α : Type} {wrap : α → Object} {list : List α} {keep : α → Bool}
    {has : Object → Prop} {kind : Kind} {object : Object}
    (hform : object.kind = kind → ∃ value, object = wrap value)
    (hhas : ∀ {value}, has (wrap value) ↔ value ∈ list)
    (hkind : ∀ {value}, (wrap value).kind = kind ↔ keep value = true) :
    object ∈ (list.filter keep).map wrap ↔ has object ∧ object.kind = kind := by
  rw [List.mem_map]
  constructor
  · rintro ⟨value, hmem, rfl⟩
    obtain ⟨hlist, hkeep⟩ := List.mem_filter.mp hmem
    exact ⟨hhas.mpr hlist, hkind.mpr hkeep⟩
  · rintro ⟨hobject, hobjectKind⟩
    obtain ⟨value, rfl⟩ := hform hobjectKind
    exact ⟨value, List.mem_filter.mpr ⟨hhas.mp hobject, hkind.mp hobjectKind⟩, rfl⟩

theorem mem_objects_iff {peer : Peer} (h : peer.Sound) {kind : Kind} {object : Object} :
    object ∈ peer.objects kind ↔ peer.Has object ∧ object.kind = kind := by
  have hform (hkind : object.kind = kind) := hkind ▸ Object.form_of_kind object
  -- Addresses and routes of both versions are in one list each, which the kind is picked from.
  cases kind with
  | link =>
      rw [objects, List.mem_map]
      constructor
      · rintro ⟨l, hmem, rfl⟩
        obtain ⟨index, hl⟩ := Table.mem_values_iff.mp hmem
        refine ⟨?_, rfl⟩
        show peer.links.get? l.index = some l
        rw [h.placed hl, hl]
      · rintro ⟨hhas, hkind⟩
        obtain ⟨l, rfl⟩ := hform hkind
        exact ⟨l, Table.mem_values_iff.mpr ⟨l.index, hhas⟩, rfl⟩
  | address4 =>
      refine mem_map_filter_iff hform Iff.rfl ?_
      intro a
      rcases kind_address a with ⟨hkind, hversion⟩ | ⟨hkind, hversion⟩ <;> simp [hkind, hversion]
  | address6 =>
      refine mem_map_filter_iff hform Iff.rfl ?_
      intro a
      rcases kind_address a with ⟨hkind, hversion⟩ | ⟨hkind, hversion⟩ <;> simp [hkind, hversion]
  | route4 =>
      refine mem_map_filter_iff hform Iff.rfl ?_
      intro r
      rcases kind_route r with ⟨hkind, hversion⟩ | ⟨hkind, hversion⟩ <;> simp [hkind, hversion]
  | route6 =>
      refine mem_map_filter_iff hform Iff.rfl ?_
      intro r
      rcases kind_route r with ⟨hkind, hversion⟩ | ⟨hkind, hversion⟩ <;> simp [hkind, hversion]
  | discipline =>
      rw [objects, ← List.filter_true peer.disciplines]
      exact mem_map_filter_iff hform Iff.rfl (iff_of_true rfl rfl)
  | filter =>
      rw [objects, ← List.filter_true peer.filters]
      exact mem_map_filter_iff hform Iff.rfl (iff_of_true rfl rfl)

theorem mem_all_iff {peer : Peer} (h : peer.Sound) {object : Object} :
    object ∈ peer.all ↔ peer.Has object := by
  rw [all, List.mem_flatMap]
  constructor
  · rintro ⟨kind, -, hmem⟩
    exact ((mem_objects_iff h).mp hmem).1
  · intro hhas
    exact ⟨object.kind, by cases object.kind <;> decide, (mem_objects_iff h).mpr ⟨hhas, rfl⟩⟩

theorem Sound.slot_injective {peer : Peer} (h : peer.Sound) {one two : Object}
    (hone : peer.Has one) (htwo : peer.Has two) (hslot : one.slot = two.slot) : one = two := by
  cases one with
  | link l =>
      cases two with
      | link m =>
          have hl : peer.links.get? l.index = some l := hone
          rw [slot_link_iff.mp hslot, show peer.links.get? m.index = some m from htwo] at hl
          rw [Option.some.inj hl]
      | _ => exact absurd hslot (by simp [Object.slot, Object.key])
  | address a =>
      cases two with
      | address b =>
          exact congrArg Object.address
            (List.inj_on_of_nodup_map h.addresses_distinct hone htwo (slot_address_iff.mp hslot))
      | _ => exact absurd hslot (by simp [Object.slot, Object.key])
  | route r =>
      cases two with
      | route s =>
          exact congrArg Object.route
            (List.inj_on_of_nodup_map h.routes_distinct hone htwo (slot_route_iff.mp hslot))
      | _ => exact absurd hslot (by simp [Object.slot, Object.key])
  | discipline d =>
      cases two with
      | discipline e =>
          exact congrArg Object.discipline
            (eq_of_disciplineKey h htwo hone (slot_discipline_iff.mp hslot))
      | _ => exact absurd hslot (by simp [Object.slot, Object.key])
  | filter f =>
      cases two with
      | filter g =>
          exact congrArg Object.filter
            (List.inj_on_of_nodup_map h.filters_distinct hone htwo (slot_filter_iff.mp hslot).1)
      | _ => exact absurd hslot (by simp [Object.slot, Object.key])

theorem tellable_of_all {peer : Peer} (h : peer.Sound)
    (himages : ∀ object ∈ peer.all, object.image?.isSome = true)
    (hpriorities : ∀ f ∈ peer.filters, f.priority ≠ 0) : peer.Tellable where
  imaged hobject := Option.isSome_iff_exists.mp (himages _ ((mem_all_iff h).mpr hobject))
  prioritized := hpriorities

theorem get?_images {peer : Peer} (h : peer.Sound) {slot : Slot} {image : Object} :
    peer.images.get? slot = some image ↔
      ∃ object, peer.Has object ∧ object.slot = slot ∧ object.image? = some image := by
  have hentry {slot : Slot} {image : Object} :
      (slot, image) ∈ (peer.all.filterMap fun object =>
        object.image?.map fun image => (image.slot, image)) ↔
      ∃ object, peer.Has object ∧ object.slot = slot ∧ object.image? = some image := by
    rw [List.mem_filterMap]
    constructor
    · rintro ⟨object, hmem, hentry⟩
      obtain ⟨other, himage, hpair⟩ := Option.map_eq_some_iff.mp hentry
      obtain ⟨rfl, rfl⟩ := Prod.mk.inj hpair
      exact ⟨object, (mem_all_iff h).mp hmem, (Object.resembles_of_image? himage).slot.symm, himage⟩
    · rintro ⟨object, hhas, rfl, himage⟩
      refine ⟨object, (mem_all_iff h).mpr hhas, ?_⟩
      rw [himage, Option.map_some, (Object.resembles_of_image? himage).slot]
  constructor
  · intro hget
    exact hentry.mp (Table.mem_of_get?_ofList hget)
  · rintro ⟨object, hhas, rfl, himage⟩
    obtain ⟨found, hfound⟩ := Table.exists_get?_ofList
      (hentry.mpr ⟨object, hhas, rfl, himage⟩)
    obtain ⟨other, hother, hslot, hfoundImage⟩ := hentry.mp (Table.mem_of_get?_ofList hfound)
    rw [h.slot_injective hother hhas hslot, himage] at hfoundImage
    rw [Option.some.inj hfoundImage]
    exact hfound

end Peer

namespace Inventory

/-- Whether an inventory shows just the images of certain objects. -/
def Shows (inventory : Inventory) (has : Object → Prop) : Prop :=
  ∀ slot image, inventory.lookup slot = some image ↔
    ∃ object, has object ∧ object.slot = slot ∧ object.image? = some image

/-- Whether an inventory holds the images of a peer's objects and nothing else. -/
def Mirrors (inventory : Inventory) (peer : Peer) : Prop :=
  inventory.entries = peer.images

instance (inventory : Inventory) (peer : Peer) : Decidable (inventory.Mirrors peer) :=
  decidable_of_iff (inventory.entries.entries = peer.images.entries)
    ⟨fun h => Table.ext_entries fun entry => by rw [h], fun h => congrArg Table.entries h⟩

theorem mirrors_iff_shows {inventory : Inventory} {peer : Peer} (h : peer.Sound) :
    inventory.Mirrors peer ↔ inventory.Shows peer.Has := by
  constructor
  · intro hmirrors slot image
    rw [← Peer.get?_images h, ← show inventory.entries = peer.images from hmirrors]
    rfl
  · intro hshows
    refine Table.ext_get? fun slot => Option.ext fun image => ?_
    rw [Peer.get?_images h]
    exact hshows slot image

end Inventory

namespace Peer

/-- What a reader makes of a piece of news. -/
structure News.IsSeen (news : News) (seen : Object) : Prop where
  told : news.object.told? news.type = some (news.change, seen)
  slot : seen.slot = news.object.slot

def News.command (news : News) (seen : Object) : Inventory.Command :=
  match news.change with
  | .new => .upsert seen
  | .del => .remove seen.slot

theorem News.exists_isSeen {news : News} {image : Object}
    (himage : news.object.image? = some image)
    (hpriority : ∀ f, news.object = .filter f → f.priority ≠ 0) :
    ∃ seen, news.IsSeen seen := by
  obtain ⟨change, object⟩ := news
  cases change with
  | new =>
      obtain ⟨⟨change, told⟩, htold, rfl⟩ := Option.map_eq_some_iff.mp himage
      obtain ⟨-, -, -, hchange, -⟩ := Object.told?_eq_some_iff.mp htold
      rw [Object.changeOf?_newType] at hchange
      rw [← Option.some.inj hchange] at htold
      exact ⟨told, htold, (Object.resembles_of_image? himage).slot⟩
  | del =>
      obtain ⟨gone, htold, hslot⟩ := Object.exists_told?_delType himage hpriority
      exact ⟨gone, htold, hslot⟩

end Peer

namespace Inventory

open Peer

variable {inventory : Inventory} {before after : Object → Prop}

theorem Shows.upsert (h : inventory.Consistent) (hshows : inventory.Shows before)
    {object seen : Object}
    (himage : object.image? = some seen)
    (hlossless : ∀ old, before old → old.slot = object.slot → old.hooksLostTo object = [])
    (hafter : ∀ other, after other ↔ other = object ∨ before other ∧ other.slot ≠ object.slot) :
    (inventory.upsert seen).2.inventory.Shows after := by
  have hresembles := Object.resembles_of_image? himage
  have hhooks : inventory.hooksLost seen.slot seen = [] := by
    cases hprevious : inventory.lookup seen.slot with
    | none => exact hooksLost_of_eq_none hprevious
    | some previous =>
        by_cases hsame : previous = seen
        · rw [hsame] at hprevious
          exact hooksLost_self hprevious
        · obtain ⟨old, hold, hslot, hseen⟩ := (hshows _ _).mp hprevious
          rw [hooksLost_of_ne hprevious hsame,
            (Object.resembles_of_image? hseen).hooksLostTo hresembles]
          exact hlossless old hold (hslot.trans hresembles.slot)
  intro slot image
  rw [lookup_upsert h, hhooks, hresembles.slot]
  constructor
  · intro hlookup
    split at hlookup
    · rename_i hslot
      rw [← Option.some.inj hlookup]
      exact ⟨object, (hafter object).mpr (Or.inl rfl), hslot, himage⟩
    · rename_i hslot
      obtain ⟨other, hother, rfl, hseen⟩ :=
        (hshows slot image).mp (Option.filter_eq_some_iff.mp hlookup).1
      exact ⟨other, (hafter other).mpr (Or.inr ⟨hother, fun heq => hslot heq.symm⟩), rfl, hseen⟩
  · rintro ⟨other, hother, rfl, hseen⟩
    rcases (hafter other).mp hother with rfl | ⟨hbefore, hne⟩
    · rw [if_pos rfl, ← himage, hseen]
    · rw [if_neg fun heq => hne heq.symm, (hshows _ _).mpr ⟨other, hbefore, rfl, hseen⟩]
      rfl

theorem Shows.remove (h : inventory.Consistent) (hshows : inventory.Shows before)
    {object image : Object}
    (himage : object.image? = some image) (hobject : before object)
    (hafter : ∀ other, after other ↔
      before other ∧ other.slot ≠ object.slot ∧ object.takesAlong other = false) :
    (inventory.remove object.slot).2.inventory.Shows after := by
  have hplace := (hshows object.slot image).mpr ⟨object, hobject, rfl, himage⟩
  have hgone := Object.resembles_of_image? himage
  intro slot seen
  rw [lookup_remove h hplace, Option.filter_eq_some_iff, hshows, Bool.and_eq_true, bne_iff_ne,
    Bool.not_eq_true']
  constructor
  · rintro ⟨⟨other, hother, hslot, hseen⟩, hne, hstays⟩
    have hresembles := Object.resembles_of_image? hseen
    refine ⟨other, (hafter other).mpr ⟨hother, ?_, ?_⟩, hslot, hseen⟩
    · rw [← hresembles.slot]
      exact hne
    · rw [← hgone.takesAlong hresembles]
      exact hstays
  · rintro ⟨other, hother, hslot, hseen⟩
    obtain ⟨hbefore, hne, hstays⟩ := (hafter other).mp hother
    have hresembles := Object.resembles_of_image? hseen
    refine ⟨⟨other, hbefore, hslot, hseen⟩, ?_, ?_⟩
    · rw [hresembles.slot]
      exact hne
    · rw [hgone.takesAlong hresembles]
      exact hstays

/-- A piece of news leads from mirror to mirror. -/
theorem Shows.perform {news : News} {seen image : Object} (h : inventory.Consistent)
    (hshows : inventory.Shows before) (hfollows : Follows before after news)
    (hseen : news.IsSeen seen) (himage : news.object.image? = some image) :
    (inventory.perform (news.command seen)).inventory.Shows after := by
  cases hfollows with
  | new hlossless hafter =>
      have hsame : _ = some seen := congrArg (Option.map (·.2)) hseen.told
      exact hshows.upsert h hsame hlossless hafter
  | del hobject hafter =>
      have hremoved := hshows.remove h himage hobject hafter
      rw [← hseen.slot] at hremoved
      exact hremoved

end Inventory

end NetState
