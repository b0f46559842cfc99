import NetState.Proofs.Object
import NetState.Proofs.Object.Image
import NetState.Proofs.Peer.Reach

namespace NetState

namespace Peer

def Has (peer : Peer) : Object → Prop
  | .link l => peer.links.get? l.index = some l
  | .address a => a ∈ peer.addresses
  | .route r => r ∈ peer.routes
  | .discipline d => d ∈ peer.disciplines
  | .filter f => f ∈ peer.filters

theorem has_of_holdings {peer other : Peer} (h : other.holdings = peer.holdings) :
    other.Has = peer.Has := by
  rw [eq_of_holdings h]
  rfl

def KeepsProtocols (peer after : Peer) : Prop :=
  ∀ f ∈ peer.filters, ∀ g ∈ after.filters, filterKey f = filterKey g → f.protocol = g.protocol

theorem KeepsProtocols.of_holdings {peer after other : Peer} (h : peer.KeepsProtocols after)
    (hsame : other.holdings = after.holdings) : peer.KeepsProtocols other := by
  have hfilters : other.filters = after.filters := congrArg (fun held => held.2.2.2.2.1) hsame
  intro f hf g hg
  rw [hfilters] at hg
  exact h f hf g hg

/-- How a piece of news leads from what there was to what there is. -/
inductive Follows (before after : Object → Prop) : News → Prop where
  | new {object : Object}
      (hlossless : ∀ old, before old → old.slot = object.slot → old.hooksLostTo object = [])
      (hafter : ∀ other, after other ↔
        other = object ∨ before other ∧ other.slot ≠ object.slot) :
      Follows before after ⟨.new, object⟩
  | del {object : Object} (hobject : before object)
      (hafter : ∀ other, after other ↔
        before other ∧ other.slot ≠ object.slot ∧ object.takesAlong other = false) :
      Follows before after ⟨.del, object⟩

/-- How news lead one after the other from what there was to what there is. -/
inductive Account : (Object → Prop) → List News → (Object → Prop) → Prop where
  | nil {has : Object → Prop} : Account has [] has
  | cons {before middle after : Object → Prop} {news : News} {rest : List News}
      (hfollows : Follows before middle news) (hrest : Account middle rest after) :
      Account before (news :: rest) after

namespace Account

variable {before middle after : Object → Prop} {news : News} {told more : List News}

theorem of_iff (h : ∀ object, before object ↔ after object) : Account before [] after := by
  rw [show before = after from funext fun object => propext (h object)]
  exact nil

theorem single (h : Follows before after news) : Account before [news] after :=
  cons h nil

theorem append (h : Account before told middle) (hmore : Account middle more after) :
    Account before (told ++ more) after := by
  induction h with
  | nil => exact hmore
  | cons hfollows _ ih => exact cons hfollows (ih hmore)

end Account

theorem slot_address_iff {a b : Address} :
    (Object.address a).slot = (Object.address b).slot ↔ addressKey a = addressKey b := by
  simp only [Object.slot, Object.key, Object.kind, addressKey, Slot.mk.injEq, Key.address.injEq,
    Prod.mk.injEq]
  constructor
  · exact And.right
  · rintro ⟨hinterface, hip, hlength⟩
    refine ⟨?_, hinterface, hip, hlength⟩
    rw [hip]

theorem slot_route_iff {r s : Route} :
    (Object.route r).slot = (Object.route s).slot ↔ routeKey r = routeKey s := by
  rw [routeKey, routeKey, Object.slot, Object.slot, Slot.mk.injEq]
  constructor
  · exact And.right
  · intro hkey
    refine ⟨?_, hkey⟩
    simp only [Object.key, Key.route.injEq] at hkey
    have hversion : r.isV6 = s.isV6 := by
      have hmasked := congrArg Ip.isV6 hkey.2.2.1
      rw [Ip.isV6_mask, Ip.isV6_mask] at hmasked
      exact hmasked
    rw [Object.kind, Object.kind, hversion]

theorem slot_discipline_iff {d e : Discipline} :
    (Object.discipline d).slot = (Object.discipline e).slot ↔
      disciplineKey d = disciplineKey e := by
  simp [Object.slot, Object.key, Object.kind, disciplineKey]

theorem slot_filter_iff {f g : Filter} :
    (Object.filter f).slot = (Object.filter g).slot ↔
      filterKey f = filterKey g ∧ f.protocol = g.protocol := by
  simp only [Object.slot, Object.key, Object.kind, filterKey, Slot.mk.injEq, Key.filter.injEq,
    Prod.mk.injEq]
  constructor
  · rintro ⟨-, hinterface, hparent, hprotocol, hpriority, hhandle⟩
    exact ⟨⟨hinterface, hparent, hpriority, hhandle⟩, hprotocol⟩
  · rintro ⟨⟨hinterface, hparent, hpriority, hhandle⟩, hprotocol⟩
    exact ⟨trivial, hinterface, hparent, hprotocol, hpriority, hhandle⟩

theorem slot_link_iff {l m : Link} :
    (Object.link l).slot = (Object.link m).slot ↔ l.index = m.index := by
  simp [Object.slot, Object.key, Object.kind]

theorem hooksLostTo_of_kind {old object : Object} (hslot : old.slot = object.slot)
    (hkind : object.kind ≠ .discipline) : old.hooksLostTo object = [] := by
  have hsame : old.kind = object.kind := congrArg Slot.kind hslot
  rw [Object.hooksLostTo_eq, if_neg fun h => hkind h.1, Object.hooks_eq,
    if_neg fun h => hkind (hsame.symm.trans h)]

theorem address_ne_discipline (a : Address) : (Object.address a).kind ≠ .discipline := by
  rw [Object.kind]
  split <;> simp

theorem route_ne_discipline (r : Route) : (Object.route r).kind ≠ .discipline := by
  rw [Object.kind]
  split <;> simp

theorem put_iff_of_ne {object other : Object} {before after : Prop} (hsame : after ↔ before)
    (hne : other.slot ≠ object.slot) :
    after ↔ other = object ∨ before ∧ other.slot ≠ object.slot := by
  rw [hsame]
  constructor
  · intro h
    exact Or.inr ⟨h, hne⟩
  · rintro (rfl | ⟨h, -⟩)
    · exact absurd rfl hne
    · exact h

theorem put_iff_of_key {α κ : Type} {key : α → κ} {wrap : α → Object} {value other : α}
    {list after : List α} (hput : IsPut key value list after)
    (hwrap : wrap other = wrap value ↔ other = value)
    (hslot : other ∈ list → ((wrap other).slot = (wrap value).slot ↔ key other = key value)) :
    other ∈ after ↔
      wrap other = wrap value ∨ other ∈ list ∧ (wrap other).slot ≠ (wrap value).slot := by
  rw [hput.mem_iff, hwrap]
  refine or_congr_right (and_congr_right ?_)
  intro hmem
  exact not_congr (hslot hmem).symm

theorem account_gone (gone : List Object) (before : Object → Prop)
    (hbefore : ∀ object ∈ gone, before object) (hslots : (gone.map Object.slot).Nodup)
    (halone : ∀ object ∈ gone, ∀ other, object.takesAlong other = false) :
    Account before (gone.map fun object => ⟨.del, object⟩)
      (fun other => before other ∧ other.slot ∉ gone.map Object.slot) := by
  induction gone generalizing before with
  | nil =>
      refine Account.of_iff ?_
      intro object
      simp
  | cons first rest ih =>
      obtain ⟨hfirst, hrest⟩ := List.nodup_cons.mp hslots
      have hfollows : Follows before (fun other => before other ∧ other.slot ≠ first.slot)
          ⟨.del, first⟩ := by
        refine Follows.del (hbefore first List.mem_cons_self) ?_
        intro other
        rw [halone first List.mem_cons_self other]
        simp
      have hmore := ih (fun other => before other ∧ other.slot ≠ first.slot) ?_ hrest
        fun object hmem => halone object (List.mem_cons_of_mem _ hmem)
      · refine Account.cons hfollows ?_
        simpa only [and_assoc, List.map_cons, List.mem_cons, not_or] using hmore
      · intro object hmem
        refine ⟨hbefore object (List.mem_cons_of_mem _ hmem), ?_⟩
        intro hslot
        exact hfirst (hslot ▸ List.mem_map_of_mem hmem)

theorem nodup_slots {α κ : Type} {key : α → κ} {wrap : α → Object} {list : List α}
    (hkeys : (list.map key).Nodup)
    (hslot : ∀ {a b}, (wrap a).slot = (wrap b).slot → key a = key b) :
    ((list.map wrap).map Object.slot).Nodup := by
  rw [List.map_map, List.nodup_iff_pairwise_ne, List.pairwise_map]
  rw [List.nodup_iff_pairwise_ne, List.pairwise_map] at hkeys
  refine hkeys.imp ?_
  intro a b hne hsame
  exact hne (hslot hsame)

variable {peer : Peer}

theorem follows_putLink (l : Link) :
    Follows peer.Has ({ peer with links := peer.links.insert l.index l } : Peer).Has
      ⟨.new, .link l⟩ := by
  refine Follows.new (fun old _ hslot => hooksLostTo_of_kind hslot (by simp [Object.kind])) ?_
  intro other
  cases other with
  | link m =>
      show (peer.links.insert l.index l).get? m.index = some m ↔
        _ ∨ peer.links.get? m.index = some m ∧ _
      rw [Table.get?_insert, Object.link.injEq, Ne, slot_link_iff]
      split
      · rename_i hindex
        rw [Option.some.injEq]
        constructor
        · intro h
          exact Or.inl h.symm
        · rintro (h | ⟨-, h⟩)
          · exact h.symm
          · exact absurd hindex.symm h
      · rename_i hindex
        constructor
        · intro h
          exact Or.inr ⟨h, fun hsame => hindex hsame.symm⟩
        · rintro (rfl | ⟨h, -⟩)
          · exact absurd rfl hindex
          · exact h
  | _ => exact put_iff_of_ne Iff.rfl (by simp [Object.slot, Object.key])

theorem follows_putAddress {a : Address} {addresses : List Address}
    (hput : IsPut addressKey a peer.addresses addresses) :
    Follows peer.Has ({ peer with addresses } : Peer).Has ⟨.new, .address a⟩ := by
  refine Follows.new
    (fun old _ hslot => hooksLostTo_of_kind hslot (address_ne_discipline a)) ?_
  intro other
  cases other with
  | address b =>
      exact put_iff_of_key hput (by rw [Object.address.injEq]) fun _ => slot_address_iff
  | _ => exact put_iff_of_ne Iff.rfl (by simp [Object.slot, Object.key])

theorem follows_putRoute {r : Route} {routes : List Route}
    (hput : IsPut routeKey r peer.routes routes) :
    Follows peer.Has ({ peer with routes } : Peer).Has ⟨.new, .route r⟩ := by
  refine Follows.new
    (fun old _ hslot => hooksLostTo_of_kind hslot (route_ne_discipline r)) ?_
  intro other
  cases other with
  | route s => exact put_iff_of_key hput (by rw [Object.route.injEq]) fun _ => slot_route_iff
  | _ => exact put_iff_of_ne Iff.rfl (by simp [Object.slot, Object.key])

theorem follows_putDiscipline {d : Discipline} {disciplines : List Discipline}
    (nextMajor : UInt16)
    (hsame : ∀ old ∈ peer.disciplines, disciplineKey old = disciplineKey d →
      old.isDefault = true ∨ old.handle = d.handle)
    (hput : IsPut disciplineKey d peer.disciplines disciplines) :
    Follows peer.Has ({ peer with nextMajor, disciplines } : Peer).Has ⟨.new, .discipline d⟩ := by
  refine Follows.new ?_ ?_
  · intro other hother hslot
    cases other with
    | discipline old =>
        show (if d.handle = old.handle then [] else old.hooks) = []
        rcases hsame old hother (slot_discipline_iff.mp hslot) with hdefault | hhandle
        · rw [Discipline.hooks, if_pos hdefault, ite_self]
        · rw [if_pos hhandle.symm]
    | _ => exact absurd hslot (by simp [Object.slot, Object.key])
  · intro other
    cases other with
    | discipline e =>
        exact put_iff_of_key hput (by rw [Object.discipline.injEq]) fun _ => slot_discipline_iff
    | _ => exact put_iff_of_ne Iff.rfl (by simp [Object.slot, Object.key])

theorem follows_putFilter {f : Filter} {filters : List Filter}
    (hkeeps : peer.KeepsProtocols { peer with filters })
    (hput : IsPut filterKey f peer.filters filters) :
    Follows peer.Has ({ peer with filters } : Peer).Has ⟨.new, .filter f⟩ := by
  refine Follows.new (fun old _ hslot => hooksLostTo_of_kind hslot (by simp [Object.kind])) ?_
  intro other
  cases other with
  | filter g =>
      refine put_iff_of_key hput (by rw [Object.filter.injEq]) ?_
      intro hmem
      rw [slot_filter_iff]
      constructor
      · exact And.left
      · intro hkey
        exact ⟨hkey, hkeeps g hmem f hput.mem hkey⟩
  | _ => exact put_iff_of_ne Iff.rfl (by simp [Object.slot, Object.key])

theorem drop_iff_of_ne {object other : Object} {before after : Prop} (hsame : after ↔ before)
    (hne : other.slot ≠ object.slot) (halone : object.takesAlong other = false) :
    after ↔ before ∧ other.slot ≠ object.slot ∧ object.takesAlong other = false := by
  rw [hsame]
  exact ⟨fun h => ⟨h, hne, halone⟩, And.left⟩

theorem drop_iff_of_key {α κ : Type} {key : α → κ} {wrap : α → Object} {value other : α}
    {list after : List α} (htaken : IsTaken key value list after)
    (hslot : (wrap other).slot = (wrap value).slot ↔ key other = key value)
    (halone : (wrap value).takesAlong (wrap other) = false) :
    other ∈ after ↔ other ∈ list ∧ (wrap other).slot ≠ (wrap value).slot ∧
      (wrap value).takesAlong (wrap other) = false := by
  rw [htaken.mem_iff]
  refine and_congr_right fun _ => ?_
  constructor
  · intro hkey
    exact ⟨fun h => hkey (hslot.mp h), halone⟩
  · rintro ⟨hne, -⟩ hkey
    exact hne (hslot.mpr hkey)

theorem follows_dropAddress {a : Address} {addresses : List Address}
    (htaken : IsTaken addressKey a peer.addresses addresses) :
    Follows peer.Has ({ peer with addresses } : Peer).Has ⟨.del, .address a⟩ := by
  refine Follows.del htaken.mem ?_
  intro other
  cases other with
  | address b => exact drop_iff_of_key htaken slot_address_iff rfl
  | _ => exact drop_iff_of_ne Iff.rfl (by simp [Object.slot, Object.key]) rfl

theorem follows_dropRoute {r : Route} {routes : List Route}
    (htaken : IsTaken routeKey r peer.routes routes) :
    Follows peer.Has ({ peer with routes } : Peer).Has ⟨.del, .route r⟩ := by
  refine Follows.del htaken.mem ?_
  intro other
  cases other with
  | route s => exact drop_iff_of_key htaken slot_route_iff rfl
  | _ => exact drop_iff_of_ne Iff.rfl (by simp [Object.slot, Object.key]) rfl

theorem takesAlong_discipline {d : Discipline} (hdefault : d.isDefault = false) (other : Object) :
    (Object.discipline d).takesAlong other = other.hangsAt ⟨d.interface, d.handle.major⟩ := by
  show d.hooks.any other.hangsAt = _
  rw [Discipline.hooks, hdefault]
  exact Bool.or_false _

theorem follows_dropDiscipline {d : Discipline} {disciplines : List Discipline}
    (hdefault : d.isDefault = false)
    (htaken : IsTaken disciplineKey d peer.disciplines disciplines) :
    Follows peer.Has
      ({ peer with disciplines, filters := peer.filtersWithout d } : Peer).Has
      ⟨.del, .discipline d⟩ := by
  refine Follows.del htaken.mem ?_
  intro other
  have halone := takesAlong_discipline hdefault other
  cases other with
  | discipline e => exact drop_iff_of_key htaken slot_discipline_iff halone
  | filter f =>
      rw [halone]
      show f ∈ peer.filtersWithout d ↔ f ∈ peer.filters ∧ _ ∧ f.hangsAt _ = false
      rw [filtersWithout, List.mem_filter, Bool.not_eq_true']
      refine and_congr_right fun _ => ?_
      exact ⟨fun h => ⟨by simp [Object.slot, Object.key], h⟩, And.right⟩
  | _ => exact drop_iff_of_ne Iff.rfl (by simp [Object.slot, Object.key]) halone

theorem account_graft {old d : Discipline} {disciplines : List Discipline} {nextMajor : UInt16}
    (h : peer.Sound) (hold : old ∈ peer.disciplines) (hdefault : old.isDefault = false)
    (hkey : disciplineKey d = disciplineKey old)
    (hput : IsPut disciplineKey d peer.disciplines disciplines) :
    Account peer.Has [⟨.del, .discipline old⟩, ⟨.new, .discipline d⟩]
      ({ peer with nextMajor, disciplines, filters := peer.filtersWithout old } : Peer).Has := by
  have htaken : IsTaken disciplineKey old peer.disciplines
      (peer.disciplines.filter fun e => disciplineKey e ≠ disciplineKey old) := by
    refine ⟨hold, ?_, h.disciplines_distinct.sublist (List.filter_sublist.map _)⟩
    intro other
    rw [List.mem_filter, decide_eq_true_iff]
  refine Account.cons (follows_dropDiscipline hdefault htaken) (Account.single ?_)
  refine follows_putDiscipline nextMajor ?_ ?_
  · intro other hother hsame
    exact absurd (hsame.trans hkey) (htaken.mem_iff.mp hother).2
  · refine ⟨?_, hput.nodup⟩
    intro other
    rw [hput.mem_iff, htaken.mem_iff, hkey, and_assoc, and_self]

theorem account_newLink {l : Link} (h : peer.Sound) (hindex : l.index = peer.nextIndex) :
    Account peer.Has [⟨.new, .link l⟩, ⟨.new, .discipline (defaultDiscipline l.index)⟩]
      ({ peer with
        nextIndex := peer.nextIndex + 1
        links := peer.links.insert l.index l
        disciplines := peer.disciplines ++ [defaultDiscipline l.index] } : Peer).Has := by
  refine Account.cons (follows_putLink l) (Account.single ?_)
  refine follows_putDiscipline peer.nextMajor ?_ (h.isPut_default hindex)
  intro old hold hsame
  obtain ⟨other, hother⟩ := h.disciplines_based old hold
  have hlt := (h.numbered hother).2
  rw [show old.interface = peer.nextIndex from (congrArg Prod.fst hsame).trans hindex] at hlt
  exact absurd hlt (UInt32.lt_irrefl _)

theorem interface_of_slot_link {object : Object} {l : Link}
    (h : object.slot = (Object.link l).slot) : object.interface = l.index := by
  cases object with
  | link m => exact slot_link_iff.mp h
  | _ => exact absurd h (by simp [Object.slot, Object.key])

theorem interface_of_slot_address {object : Object} {a : Address}
    (h : object.slot = (Object.address a).slot) : object.interface = a.interface := by
  cases object with
  | address b => exact congrArg Prod.fst (slot_address_iff.mp h)
  | _ => exact absurd h (by simp [Object.slot, Object.key])

theorem has_dropLink (index : UInt32) (other : Object) :
    ({ peer.bare index with links := peer.links.erase index } : Peer).Has other ↔
      peer.Has other ∧ other.interface ≠ index := by
  have hfilter {α : Type} {interface : α → UInt32} {list : List α} {value : α} :
      value ∈ list.filter (interface · != index) ↔ value ∈ list ∧ interface value ≠ index := by
    rw [List.mem_filter, bne_iff_ne]
  cases other with
  | link m =>
      show (peer.links.erase index).get? m.index = some m ↔
        peer.links.get? m.index = some m ∧ m.index ≠ index
      rw [Table.get?_erase]
      split
      · rename_i hindex
        exact ⟨fun h => absurd h (by simp), fun h => absurd hindex.symm h.2⟩
      · rename_i hindex
        exact ⟨fun h => ⟨h, fun heq => hindex heq.symm⟩, And.left⟩
  | _ => exact hfilter

theorem takesAlong_link {l : Link} (hindex : l.index ≠ 0) (object : Object) :
    (Object.link l).takesAlong object = false ↔ object.interface ≠ l.index := by
  show (object.owner? == some l.index) = false ↔ _
  rw [beq_eq_false_iff_ne, Ne, Object.owner?_eq_some_iff]
  constructor
  · intro h heq
    exact h ⟨heq, hindex⟩
  · rintro h ⟨heq, -⟩
    exact h heq

theorem account_dropLink {l : Link} (h : peer.Sound) (hl : peer.links.get? l.index = some l) :
    Account peer.Has
      ((peer.addresses.filter (·.interface == l.index)).map (fun a => ⟨.del, .address a⟩) ++
        [⟨.del, .link l⟩])
      ({ peer.bare l.index with links := peer.links.erase l.index } : Peer).Has := by
  have hgone := account_gone ((peer.addresses.filter (·.interface == l.index)).map .address)
    peer.Has ?_ ?_ ?_
  · rw [List.map_map] at hgone
    have hslots {object : Object}
        (hmem : object.slot ∈ ((peer.addresses.filter (·.interface == l.index)).map
          Object.address).map Object.slot) :
        ∃ a, a.interface = l.index ∧ object.slot = (Object.address a).slot := by
      obtain ⟨gone, hobject, hslot⟩ := List.mem_map.mp hmem
      obtain ⟨a, ha, rfl⟩ := List.mem_map.mp hobject
      exact ⟨a, by simpa using (List.mem_filter.mp ha).2, hslot.symm⟩
    refine Account.append hgone (Account.single (Follows.del ⟨hl, ?_⟩ ?_))
    · intro hmem
      obtain ⟨a, -, hslot⟩ := hslots hmem
      exact absurd hslot (by simp [Object.slot, Object.key])
    · intro other
      rw [has_dropLink, takesAlong_link (h.numbered hl).1]
      constructor
      · rintro ⟨hbefore, hother⟩
        refine ⟨⟨hbefore, ?_⟩, fun hslot => hother (interface_of_slot_link hslot), hother⟩
        intro hmem
        obtain ⟨a, ha, hslot⟩ := hslots hmem
        exact hother ((interface_of_slot_address hslot).trans ha)
      · rintro ⟨⟨hbefore, -⟩, -, hother⟩
        exact ⟨hbefore, hother⟩
  · intro object hobject
    obtain ⟨a, ha, rfl⟩ := List.mem_map.mp hobject
    exact List.mem_of_mem_filter ha
  · exact nodup_slots (h.addresses_distinct.sublist (List.filter_sublist.map _))
      slot_address_iff.mp
  · intro object hobject other
    obtain ⟨a, -, rfl⟩ := List.mem_map.mp hobject
    rfl

theorem account_dropFilters (h : peer.Sound) (gone : Filter → Bool) :
    Account peer.Has ((peer.filters.filter gone).map fun f => ⟨.del, .filter f⟩)
      ({ peer with filters := peer.filters.filter fun f => !gone f } : Peer).Has := by
  have haccount := account_gone ((peer.filters.filter gone).map .filter) peer.Has ?_ ?_ ?_
  · rw [List.map_map] at haccount
    rw [← List.append_nil ((peer.filters.filter gone).map _)]
    refine haccount.append (Account.of_iff ?_)
    intro object
    have hslots : object.slot ∈ ((peer.filters.filter gone).map Object.filter).map Object.slot ↔
        ∃ f ∈ peer.filters, gone f = true ∧ object.slot = (Object.filter f).slot := by
      simp only [List.mem_map, List.mem_filter]
      constructor
      · rintro ⟨_, ⟨f, ⟨hmem, hgone⟩, rfl⟩, hslot⟩
        exact ⟨f, hmem, hgone, hslot.symm⟩
      · rintro ⟨f, hmem, hgone, hslot⟩
        exact ⟨_, ⟨f, ⟨hmem, hgone⟩, rfl⟩, hslot.symm⟩
    rw [hslots]
    -- Only filters can be in the slot of a filter, and no two of the peer's have the same one.
    cases object with
    | filter f =>
        show f ∈ peer.filters ∧ _ ↔ f ∈ peer.filters.filter _
        rw [List.mem_filter, Bool.not_eq_true']
        refine and_congr_right fun hmem => ?_
        constructor
        · intro hnot
          refine Bool.eq_false_iff.mpr fun hgone => ?_
          exact hnot ⟨f, hmem, hgone, rfl⟩
        · rintro hstays ⟨g, hg, hgone, hslot⟩
          have heq : f = g := List.inj_on_of_nodup_map h.filters_distinct hmem hg
            (slot_filter_iff.mp hslot).1
          rw [heq, hgone] at hstays
          exact absurd hstays (by simp)
    | _ =>
        refine ⟨And.left, fun hbefore => ⟨hbefore, ?_⟩⟩
        rintro ⟨f, -, -, hslot⟩
        exact absurd hslot (by simp [Object.slot, Object.key])
  · intro object hobject
    obtain ⟨f, hf, rfl⟩ := List.mem_map.mp hobject
    exact List.mem_of_mem_filter hf
  · exact nodup_slots (h.filters_distinct.sublist (List.filter_sublist.map _))
      fun hslot => (slot_filter_iff.mp hslot).1
  · intro object hobject other
    obtain ⟨f, -, rfl⟩ := List.mem_map.mp hobject
    rfl

/-- What the peer tells of a deed accounts for it. -/
theorem account_deed {after : Peer} {news : List News} (h : peer.Sound)
    (hdeed : Deed peer news after) (hkeeps : peer.KeepsProtocols after) :
    Account peer.Has news after.Has := by
  cases hdeed with
  | stay => exact Account.nil
  | putLink hold hname => exact Account.single (follows_putLink _)
  | newLink hindex hnext hname => exact account_newLink h hindex
  | dropLink hl => exact account_dropLink h hl
  | putAddress hlink hput => exact Account.single (follows_putAddress hput)
  | dropAddress htaken => exact Account.single (follows_dropAddress htaken)
  | putRoute hlink hput => exact Account.single (follows_putRoute hput)
  | dropRoute htaken => exact Account.single (follows_dropRoute htaken)
  | putDiscipline hlink hsame _ hput => exact Account.single (follows_putDiscipline _ hsame hput)
  | dropDiscipline hdefault htaken =>
      exact Account.single (follows_dropDiscipline hdefault htaken)
  | graftDiscipline hold hdefault hkey _ hput => exact account_graft h hold hdefault hkey hput
  | putFilter hlink hparent hput => exact Account.single (follows_putFilter hkeeps hput)
  | dropFilters gone => exact account_dropFilters h gone

theorem has_of_deed {after : Peer} {news : List News} (hdeed : Deed peer news after) {told : News}
    (htold : told ∈ news) : peer.Has told.object ∨ after.Has told.object := by
  cases hdeed with
  | stay => exact absurd htold (by simp)
  | putLink hold hname =>
      rw [List.mem_singleton.mp htold]
      exact Or.inr (Table.get?_insert_self _ _ _)
  | newLink hindex hnext hname =>
      rcases List.mem_cons.mp htold with rfl | htold
      · exact Or.inr (Table.get?_insert_self _ _ _)
      · rw [List.mem_singleton.mp htold]
        exact Or.inr (List.mem_append_right _ (List.mem_singleton_self _))
  | dropLink hl =>
      rcases List.mem_append.mp htold with htold | htold
      · obtain ⟨a, ha, rfl⟩ := List.mem_map.mp htold
        exact Or.inl (List.mem_of_mem_filter ha)
      · rw [List.mem_singleton.mp htold]
        exact Or.inl hl
  | putAddress hlink hput =>
      rw [List.mem_singleton.mp htold]
      exact Or.inr hput.mem
  | dropAddress htaken =>
      rw [List.mem_singleton.mp htold]
      exact Or.inl htaken.mem
  | putRoute hlink hput =>
      rw [List.mem_singleton.mp htold]
      exact Or.inr hput.mem
  | dropRoute htaken =>
      rw [List.mem_singleton.mp htold]
      exact Or.inl htaken.mem
  | putDiscipline hlink hsame _ hput =>
      rw [List.mem_singleton.mp htold]
      exact Or.inr hput.mem
  | dropDiscipline hdefault htaken =>
      rw [List.mem_singleton.mp htold]
      exact Or.inl htaken.mem
  | graftDiscipline hold hdefault hkey _ hput =>
      rcases List.mem_cons.mp htold with rfl | htold
      · exact Or.inl hold
      · rw [List.mem_singleton.mp htold]
        exact Or.inr hput.mem
  | putFilter hlink hparent hput =>
      rw [List.mem_singleton.mp htold]
      exact Or.inr hput.mem
  | dropFilters gone =>
      obtain ⟨f, hf, rfl⟩ := List.mem_map.mp htold
      exact Or.inl (List.mem_of_mem_filter hf)

end Peer

end NetState
