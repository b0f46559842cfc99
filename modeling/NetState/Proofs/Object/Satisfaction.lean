import NetState.Object.Basic

namespace NetState

/-- A value is as wanted: the wanted one is left open, or it is the same. -/
def Matches {α : Type} (leftOpen : α → Prop) (value wanted : α) : Prop :=
  leftOpen wanted ∨ value = wanted

/-- Two values agree: one of them is left open, or they are the same. -/
def Agrees {α : Type} (leftOpen : α → Prop) (value other : α) : Prop :=
  leftOpen value ∨ leftOpen other ∨ value = other

section

variable {α : Type} {leftOpen : α → Prop} {a b c : α}

theorem Matches.refl (value : α) : Matches leftOpen value value :=
  Or.inr rfl

theorem Matches.trans (hab : Matches leftOpen a b) (hbc : Matches leftOpen b c) :
    Matches leftOpen a c := by
  rcases hbc with hopen | rfl
  · exact Or.inl hopen
  · exact hab

theorem Agrees.refl (value : α) : Agrees leftOpen value value :=
  Or.inr (Or.inr rfl)

/-- Agreement is handed on by a value that is set. -/
theorem Agrees.trans (hset : ¬leftOpen b) (hab : Agrees leftOpen a b) (hbc : Agrees leftOpen b c) :
    Agrees leftOpen a c := by
  rcases hab with hopen | hopen | rfl
  · exact Or.inl hopen
  · exact absurd hopen hset
  · exact hbc

theorem matches_option_iff [DecidableEq α] {value wanted : Option α} :
    (wanted.all fun wanted => value == some wanted) = true ↔ Matches (· = none) value wanted := by
  cases wanted <;> simp [Matches]

theorem FairQueue.meets_iff [DecidableEq α] {value wanted : Option α} :
    FairQueue.meets value wanted = true ↔ Matches (· = none) value wanted := by
  simp [FairQueue.meets, Matches]

end

namespace Link

structure Grants (link wanted : Link) : Prop where
  index : Matches (· = 0) link.index wanted.index
  name : link.name = wanted.name
  kind : Matches (· = .unknown) link.kind wanted.kind
  up : link.isUp = wanted.isUp
  mtu : Matches (· = none) link.mtu wanted.mtu

theorem grants_iff {link wanted : Link} :
    (Object.link link).satisfies (.link wanted) = true ↔ link.Grants wanted := by
  simp only [Object.satisfies, satisfies, Bool.and_eq_true, Bool.or_eq_true, beq_iff_eq,
    matches_option_iff]
  constructor
  · rintro ⟨hindex, ⟨⟨hname, hkind⟩, hup⟩, hmtu⟩
    exact ⟨hindex, hname, hkind, hup, hmtu⟩
  · rintro ⟨hindex, hname, hkind, hup, hmtu⟩
    exact ⟨hindex, ⟨⟨hname, hkind⟩, hup⟩, hmtu⟩

theorem Grants.refl (link : Link) : link.Grants link :=
  ⟨.refl _, rfl, .refl _, rfl, .refl _⟩

theorem Grants.trans {a b c : Link} (hab : a.Grants b) (hbc : b.Grants c) : a.Grants c :=
  ⟨hab.index.trans hbc.index, hab.name.trans hbc.name, hab.kind.trans hbc.kind,
    hab.up.trans hbc.up, hab.mtu.trans hbc.mtu⟩

end Link

namespace Address

structure Grants (address wanted : Address) : Prop where
  kind : (Object.address address).kind = (Object.address wanted).kind
  key : (Object.address address).key = (Object.address wanted).key
  flags : askedFlags address.flags = askedFlags wanted.flags
  label : Matches (· = none) address.label wanted.label
  scope : Matches (· = none) address.scope wanted.scope
  valid : wanted.validFor ≤ address.validFor
  preferred : wanted.preferredFor ≤ address.preferredFor

theorem grants_iff {address wanted : Address} :
    (Object.address address).satisfies (.address wanted) = true ↔ address.Grants wanted := by
  simp only [Object.satisfies, Object.equivalent, satisfies, Bool.and_eq_true, beq_iff_eq,
    decide_eq_true_eq, matches_option_iff]
  constructor
  · rintro ⟨⟨hkind, hkey⟩, ⟨⟨⟨hflags, hlabel⟩, hscope⟩, hvalid⟩, hpreferred⟩
    exact ⟨hkind, hkey, hflags, hlabel, hscope, hvalid, hpreferred⟩
  · rintro ⟨hkind, hkey, hflags, hlabel, hscope, hvalid, hpreferred⟩
    exact ⟨⟨hkind, hkey⟩, ⟨⟨⟨hflags, hlabel⟩, hscope⟩, hvalid⟩, hpreferred⟩

theorem Grants.refl (address : Address) : address.Grants address :=
  ⟨rfl, rfl, rfl, .refl _, .refl _, UInt32.le_refl _, UInt32.le_refl _⟩

theorem Grants.trans {a b c : Address} (hab : a.Grants b) (hbc : b.Grants c) : a.Grants c :=
  ⟨hab.kind.trans hbc.kind, hab.key.trans hbc.key, hab.flags.trans hbc.flags,
    hab.label.trans hbc.label, hab.scope.trans hbc.scope, UInt32.le_trans hbc.valid hab.valid,
    UInt32.le_trans hbc.preferred hab.preferred⟩

end Address

namespace Route

structure Grants (route wanted : Route) : Prop where
  kind : (Object.route route).kind = (Object.route wanted).kind
  key : (Object.route route).key = (Object.route wanted).key
  interface : Matches (· = 0) route.interface wanted.interface
  gateway : route.gateway = wanted.gateway
  source : Matches (· = none) route.source wanted.source
  type : route.kind = wanted.kind
  protocol : Matches (· = anyProtocol) route.protocol wanted.protocol

theorem grants_iff {route wanted : Route} :
    (Object.route route).satisfies (.route wanted) = true ↔ route.Grants wanted := by
  simp only [Object.satisfies, Object.equivalent, satisfies, Bool.and_eq_true, Bool.or_eq_true,
    beq_iff_eq, matches_option_iff]
  constructor
  · rintro ⟨⟨hkind, hkey⟩, ⟨⟨⟨hinterface, hgateway⟩, hsource⟩, htype⟩, hprotocol⟩
    exact ⟨hkind, hkey, hinterface, hgateway, hsource, htype, hprotocol⟩
  · rintro ⟨hkind, hkey, hinterface, hgateway, hsource, htype, hprotocol⟩
    exact ⟨⟨hkind, hkey⟩, ⟨⟨⟨hinterface, hgateway⟩, hsource⟩, htype⟩, hprotocol⟩

theorem Grants.refl (route : Route) : route.Grants route :=
  ⟨rfl, rfl, .refl _, rfl, .refl _, rfl, .refl _⟩

theorem Grants.trans {a b c : Route} (hab : a.Grants b) (hbc : b.Grants c) : a.Grants c :=
  ⟨hab.kind.trans hbc.kind, hab.key.trans hbc.key, hab.interface.trans hbc.interface,
    hab.gateway.trans hbc.gateway, hab.source.trans hbc.source, hab.type.trans hbc.type,
    hab.protocol.trans hbc.protocol⟩

end Route

namespace FairQueue

theorem covers_refl (params : FairQueue) : params.covers params = true := by
  simp [covers, meets]

theorem covers_trans {a b c : FairQueue} (hab : a.covers b = true) (hbc : b.covers c = true) :
    a.covers c = true := by
  simp only [covers, Bool.and_eq_true, meets_iff, and_assoc] at hab hbc ⊢
  obtain ⟨htarget, hlimit, hinterval, hecn, hflows, hquantum, hthreshold, hbatch, hmemory⟩ := hab
  obtain ⟨htarget', hlimit', hinterval', hecn', hflows', hquantum', hthreshold', hbatch',
    hmemory'⟩ := hbc
  exact ⟨htarget.trans htarget', hlimit.trans hlimit', hinterval.trans hinterval',
    hecn.trans hecn', hflows.trans hflows', hquantum.trans hquantum',
    hthreshold.trans hthreshold', hbatch.trans hbatch', hmemory.trans hmemory'⟩

end FairQueue

namespace DisciplineOptions

theorem meet_refl (options : DisciplineOptions) : options.meet options = true := by
  cases options with
  | none => rfl
  | fairQueue params => exact params.covers_refl
  | raw octets => simp [meet]

theorem meet_trans {a b c : DisciplineOptions} (hab : a.meet b = true) (hbc : b.meet c = true) :
    a.meet c = true := by
  cases c with
  | none => cases a <;> rfl
  | fairQueue wanted =>
      cases b with
      | fairQueue middle =>
          cases a with
          | fairQueue params => exact FairQueue.covers_trans hab hbc
          | none | raw => simp [meet] at hab
      | none | raw => simp [meet] at hbc
  | raw octets =>
      cases b with
      | raw middle =>
          have hsame : middle = octets := by simpa [meet] using hbc
          exact hsame ▸ hab
      | none | fairQueue => simp [meet] at hbc

end DisciplineOptions

namespace Discipline

structure Grants (discipline wanted : Discipline) : Prop where
  key : (Object.discipline discipline).key = (Object.discipline wanted).key
  kind : discipline.kind = wanted.kind
  handle : Matches (· = Handle.unspecified) discipline.handle wanted.handle
  options : discipline.options.meet wanted.options = true

theorem grants_iff {discipline wanted : Discipline} :
    (Object.discipline discipline).satisfies (.discipline wanted) = true ↔
      discipline.Grants wanted := by
  simp only [Object.satisfies, Object.equivalent, Object.kind, satisfies, Handle.isUnspecified,
    Bool.and_eq_true, Bool.or_eq_true, beq_iff_eq, true_and]
  constructor
  · rintro ⟨hkey, ⟨hkind, hhandle⟩, hoptions⟩
    exact ⟨hkey, hkind, hhandle, hoptions⟩
  · rintro ⟨hkey, hkind, hhandle, hoptions⟩
    exact ⟨hkey, ⟨hkind, hhandle⟩, hoptions⟩

theorem Grants.refl (discipline : Discipline) : discipline.Grants discipline :=
  ⟨rfl, rfl, .refl _, discipline.options.meet_refl⟩

theorem Grants.trans {a b c : Discipline} (hab : a.Grants b) (hbc : b.Grants c) :
    a.Grants c :=
  ⟨hab.key.trans hbc.key, hab.kind.trans hbc.kind, hab.handle.trans hbc.handle,
    DisciplineOptions.meet_trans hab.options hbc.options⟩

end Discipline

namespace Filter

/-- What a filter satisfies, field by field; its priority and its handle may be left open as
well. -/
structure Grants (filter wanted : Filter) : Prop where
  interface : filter.interface = wanted.interface
  parent : filter.parent = wanted.parent
  protocol : filter.protocol = wanted.protocol
  priority : Agrees (· = 0) filter.priority wanted.priority
  handle : Agrees (· = Handle.unspecified) filter.handle wanted.handle
  kind : filter.kind = wanted.kind
  action : filter.action = wanted.action

theorem grants_iff {filter wanted : Filter} :
    (Object.filter filter).satisfies (.filter wanted) = true ↔ filter.Grants wanted := by
  simp only [Object.satisfies, satisfies, sameSlot, Handle.isUnspecified, Bool.and_eq_true,
    Bool.or_eq_true, beq_iff_eq, or_assoc]
  constructor
  · rintro ⟨⟨⟨⟨⟨⟨hinterface, hparent⟩, hprotocol⟩, hpriority⟩, hhandle⟩, hkind⟩, haction⟩
    exact ⟨hinterface, hparent, hprotocol, hpriority, hhandle, hkind, haction⟩
  · rintro ⟨hinterface, hparent, hprotocol, hpriority, hhandle, hkind, haction⟩
    exact ⟨⟨⟨⟨⟨⟨hinterface, hparent⟩, hprotocol⟩, hpriority⟩, hhandle⟩, hkind⟩, haction⟩

theorem isKeyed_iff {filter : Filter} :
    filter.isKeyed = true ↔ filter.priority ≠ 0 ∧ filter.handle ≠ Handle.unspecified := by
  simp [isKeyed, Handle.isUnspecified]

theorem Grants.refl (filter : Filter) : filter.Grants filter :=
  ⟨rfl, rfl, rfl, .refl _, .refl _, rfl, rfl⟩

theorem Grants.trans {a b c : Filter} (hkeyed : b.isKeyed = true) (hab : a.Grants b)
    (hbc : b.Grants c) : a.Grants c := by
  obtain ⟨hpriority, hhandle⟩ := isKeyed_iff.mp hkeyed
  exact ⟨hab.interface.trans hbc.interface, hab.parent.trans hbc.parent,
    hab.protocol.trans hbc.protocol, hab.priority.trans hpriority hbc.priority,
    hab.handle.trans hhandle hbc.handle, hab.kind.trans hbc.kind, hab.action.trans hbc.action⟩

end Filter

namespace Object

inductive Grants : Object → Object → Prop
  | link {l wanted : Link} (h : l.Grants wanted) : Grants (.link l) (.link wanted)
  | address {a wanted : Address} (h : a.Grants wanted) : Grants (.address a) (.address wanted)
  | route {r wanted : Route} (h : r.Grants wanted) : Grants (.route r) (.route wanted)
  | discipline {d wanted : Discipline} (h : d.Grants wanted) :
      Grants (.discipline d) (.discipline wanted)
  | filter {f wanted : Filter} (h : f.Grants wanted) : Grants (.filter f) (.filter wanted)

theorem grants_iff {object wanted : Object} :
    object.satisfies wanted = true ↔ object.Grants wanted := by
  constructor
  · intro h
    cases object <;> cases wanted
    case link.link => exact .link (Link.grants_iff.mp h)
    case address.address => exact .address (Address.grants_iff.mp h)
    case route.route => exact .route (Route.grants_iff.mp h)
    case discipline.discipline => exact .discipline (Discipline.grants_iff.mp h)
    case filter.filter => exact .filter (Filter.grants_iff.mp h)
    all_goals exact absurd h Bool.false_ne_true
  · rintro (h | h | h | h | h)
    · exact Link.grants_iff.mpr h
    · exact Address.grants_iff.mpr h
    · exact Route.grants_iff.mpr h
    · exact Discipline.grants_iff.mpr h
    · exact Filter.grants_iff.mpr h

theorem Grants.refl : ∀ object : Object, object.Grants object
  | .link l => .link (.refl l)
  | .address a => .address (.refl a)
  | .route r => .route (.refl r)
  | .discipline d => .discipline (.refl d)
  | .filter f => .filter (.refl f)

theorem Grants.trans {a b c : Object} (hkeyed : ∀ f, b = .filter f → f.isKeyed = true)
    (hab : a.Grants b) (hbc : b.Grants c) : a.Grants c := by
  cases hab with
  | link hab =>
      cases hbc with
      | link hbc => exact .link (hab.trans hbc)
  | address hab =>
      cases hbc with
      | address hbc => exact .address (hab.trans hbc)
  | route hab =>
      cases hbc with
      | route hbc => exact .route (hab.trans hbc)
  | discipline hab =>
      cases hbc with
      | discipline hbc => exact .discipline (hab.trans hbc)
  | filter hab =>
      cases hbc with
      | filter hbc => exact .filter (hab.trans (hkeyed _ rfl) hbc)

/-- Every object satisfies itself, and what satisfies an object satisfies all that this satisfies,
as long as it is no filter that leaves its priority or its handle open. -/
theorem satisfies_preorder :
    (∀ object : Object, object.satisfies object = true) ∧
      ∀ a b c : Object, (∀ f, b = .filter f → f.isKeyed = true) →
        a.satisfies b = true → b.satisfies c = true → a.satisfies c = true := by
  constructor
  · intro object
    exact grants_iff.mpr (.refl object)
  · intro a b c hkeyed hab hbc
    exact grants_iff.mpr (Grants.trans hkeyed (grants_iff.mp hab) (grants_iff.mp hbc))

/-- A wanted filter for all packets, as it is with a priority and a handle. -/
def catchAll (priority : UInt16) (handle : Handle) : Object :=
  .filter ⟨1, "matchall", handle, Handle.ingressHook, priority, Filter.anyProtocol, none⟩

theorem satisfies_preorder_catchAll :
    (∀ f, catchAll 49152 ⟨1⟩ = .filter f → f.isKeyed = true) ∧
      (catchAll 49152 Handle.unspecified).satisfies (catchAll 49152 ⟨1⟩) = true ∧
      (catchAll 49152 ⟨1⟩).satisfies (catchAll 0 ⟨1⟩) = true ∧
      (catchAll 49152 Handle.unspecified).satisfies (catchAll 0 ⟨1⟩) = true := by
  have hkeyed : ∀ f, catchAll 49152 ⟨1⟩ = .filter f → f.isKeyed = true := by
    rintro f ⟨⟩
    decide
  refine ⟨hkeyed, by decide, by decide, ?_⟩
  exact satisfies_preorder.2 _ _ _ hkeyed (by decide) (by decide)

/-- Across a filter that leaves its priority open it does not. -/
example :
    (catchAll 1 ⟨1⟩).satisfies (catchAll 0 ⟨1⟩) = true ∧
      (catchAll 0 ⟨1⟩).satisfies (catchAll 2 ⟨1⟩) = true ∧
      (catchAll 1 ⟨1⟩).satisfies (catchAll 2 ⟨1⟩) = false := by
  decide

end Object

end NetState
