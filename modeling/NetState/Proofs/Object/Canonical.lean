import NetState.Proofs.Object.ReadBack

/-!
What comes back of an object that is written.

The kernel's message about an object that is there is read as the object itself in a canonical form,
and a request to create one as something that is as wanted. Both fail only where a text has a zero
in it, a discipline has options that its kind does not keep as they are, or a route names a source
of another family. What tells of the end of an object leaves most of it out, but is still read as of
an object of the same kind and key.
-/

namespace NetState

section

variable {verb : Verb} {fields : List Field}

theorem Address.readsAs_told {a : Address} (hverb : verb ≠ .delete)
    (hfields : a.requestFields verb = .ok fields) (hsize : Field.oversizedAmong? fields = none) :
    (Object.address a).ReadsAs verb (.address
      { a with label := a.label.map Text.untilZero, scope := some (a.scope.getD 0) }) := by
  obtain ⟨hlabel, rfl⟩ := (requestFields_eq_ok_iff hverb).mp hfields
  exact (readsAs_iff hverb).mpr
    ⟨hlabel, oversizedAmong?_request_iff.mp hsize, _, readLabel?_eq a.label, rfl⟩

theorem Route.readsAs_told {r : Route} (hverb : verb ≠ .delete)
    (hfields : r.requestFields verb = .ok fields) (hkind : r.kind = unicast)
    (hsource : ∀ source, r.source = some source → source.isV6 = r.isV6) :
    (Object.route r).ReadsAs verb (.route { r with
      destination := r.destination.mask r.length
      metric := r.effectiveMetric
      scope := r.requestScope verb
      flags := 0 }) := by
  have hgateway := (requestFields_eq_ok_iff.mp hfields).1
  exact (readsAs_iff hverb).mpr ⟨hgateway, hkind, _, _, readHop?_eq_self_iff.mpr hgateway,
    readHop?_eq_self_iff.mpr hsource, rfl⟩

theorem Discipline.readsAs_told {d : Discipline} (hverb : verb ≠ .delete)
    (hsize : Field.oversizedAmong? (d.requestFields verb) = none) (hvalid : d.validate = .ok ())
    (hname : Text.ZeroFree d.kind)
    (hraw : ∀ octets, d.options = .raw octets → d.kind ≠ fairQueueKind) :
    (Object.discipline d).ReadsAs verb
      (.discipline { d with options := toldOptions d.options }) := by
  have hkind : Value.string (Text.Utf8.encode d.kind ++ [0]) = .ok d.kind := by
    rw [Value.string_encode, Text.untilZero_eq_self_iff.mpr hname]
  exact (readsAs_iff hverb).mpr
    ⟨hsize, _, _, hkind, readOptions_told hvalid hverb hsize hraw, rfl⟩

theorem Filter.readsAs_told {f : Filter} (hverb : verb ≠ .delete)
    (hfields : f.requestFields verb = .ok fields) (hsize : Field.oversizedAmong? fields = none)
    (hname : Text.ZeroFree f.kind) :
    (Object.filter f).ReadsAs verb (.filter { f with action := f.action.map Action.told }) := by
  obtain ⟨options, hoptions, rfl⟩ := requestFields_eq_ok_of_ne hverb hfields
  have hkind : Value.string (Text.Utf8.encode f.kind ++ [0]) = .ok f.kind := by
    rw [Value.string_encode, Text.untilZero_eq_self_iff.mpr hname]
  have hbody := Field.oversizedAmong?_of_subset (List.subset_cons_self _ _) hsize
  have hinner := Field.oversizedAmong?_of_subset (List.subset_cons_self _ _) hbody
  exact (readsAs_iff hverb).mpr
    ⟨options, hoptions, hbody, _, _, hkind, readAction_content? hoptions hinner, rfl⟩

end

namespace Object

/-- Whether a message from the kernel carries all of an object, but for what its canonical form
leaves out. -/
def IsCarried : Object → Prop
  | link l => Text.ZeroFree l.name ∧ l.kind ≠ .unknown ∧ (l.vlanId.isSome = true ↔ l.kind = .vlan)
  | address a => ∀ label, a.label = some label → Text.ZeroFree label
  | route r => r.kind = Route.unicast ∧
      ∀ source, r.source = some source → source.isV6 = r.isV6
  | discipline d => d.validate = .ok () ∧ Text.ZeroFree d.kind ∧
      ∀ octets, d.options = .raw octets → d.kind ≠ Discipline.fairQueueKind
  | filter f => Text.ZeroFree f.kind ∧
      ∀ data, f.action = some (.simple data) → Text.ZeroFree data

/-- An object as a message from the kernel tells it. -/
def canonical : Object → Object
  | link l => .link { l with peer := none }
  | address a => .address { a with scope := some (a.scope.getD 0) }
  | route r => .route { r with
      destination := r.destination.mask r.length
      metric := r.effectiveMetric
      scope := r.requestScope .change
      flags := 0 }
  | discipline d => .discipline { d with options := Discipline.toldOptions d.options }
  | filter f => .filter f

theorem label_told {label : Option String}
    (h : ∀ text, label = some text → Text.ZeroFree text) : label.map Text.untilZero = label := by
  cases label with
  | none => rfl
  | some text => exact congrArg some (Text.untilZero_eq_self_iff.mpr (h text rfl))

theorem action_told {action : Option Action}
    (h : ∀ data, action = some (.simple data) → Text.ZeroFree data) :
    action.map Action.told = action := by
  cases action with
  | none => rfl
  | some action =>
      refine congrArg some (Action.told_eq_self_iff.mpr fun data hdata => ?_)
      exact h data (congrArg some hdata)

theorem ofPayload_kernel_link {l : Link} {fields : List Field} (h : (link l).IsCarried)
    (hfields : l.kernelFields = .ok fields) (hsize : Field.oversizedAmong? fields = none) :
    ofPayload MessageType.newLink (Field.encodeAll fields) = .ok (some (link l).canonical) := by
  obtain ⟨hname, hkind, hid⟩ := h
  have htold : l.kind.told = l.kind := by
    cases hl : l.kind <;> first | rfl | exact absurd hl hkind
  have hkept : (if l.kind = .vlan then l.vlanId else none) = l.vlanId := by
    split
    · rfl
    · rename_i hother
      exact (Option.not_isSome_iff_eq_none.mp fun hsome => hother (hid.mp hsome)).symm
  have hread := Link.ofPayload?_kernel hfields hsize (Value.string_encode l.name)
  rw [Text.untilZero_eq_self_iff.mpr hname, htold, hkept] at hread
  show demand _ .link _ = _
  rw [hread]
  rfl

theorem readsAs_canonical {object : Object} (hlink : object.kind ≠ .link) (h : object.IsCarried)
    {fields : List Field} (hfields : object.requestFields .change = .ok fields)
    (hsize : Field.oversizedAmong? fields = none) : object.ReadsAs .change object.canonical := by
  cases object with
  | link l => exact absurd rfl hlink
  | address a =>
      have hown : a.requestFields .change = .ok fields := hfields
      have hread := Address.readsAs_told (by decide) hown hsize
      rw [label_told h] at hread
      exact hread
  | route r => exact Route.readsAs_told (by decide) hfields h.1 h.2
  | discipline d =>
      obtain ⟨hvalid, hname, hraw⟩ := h
      have hown : Field.oversizedAmong? (d.requestFields .change) = none := by
        rw [Except.ok.inj hfields]
        exact hsize
      exact Discipline.readsAs_told (by decide) hown hvalid hname hraw
  | filter f =>
      have hown : f.requestFields .change = .ok fields := hfields
      have hread := Filter.readsAs_told (by decide) hown hsize h.1
      rw [action_told h.2] at hread
      exact hread

/-- The message by which the kernel announces an object is read as the object in canonical form. -/
theorem decode_toMessage {object : Object} (hcarried : object.IsCarried) {flags : UInt16}
    {draft : Draft} (h : object.toMessage object.kind.newType flags = .ok draft) :
    decode object.kind.newType draft.body = .ok (some (.new, object.canonical)) := by
  obtain ⟨fields, hfields, hsize, rfl⟩ := toMessage_eq_ok_iff.mp h
  refine decode_eq_ok_some_iff.mpr ⟨changeOf?_newType _, ?_⟩
  rw [messageFields_newType] at hfields
  by_cases hlink : object.kind = .link
  · obtain ⟨l, rfl⟩ := exists_link_of_kind hlink
    exact ofPayload_kernel_link hcarried hfields hsize
  · have hrequest : object.requestFields .change = .ok fields := by
      cases object with
      | link l => exact absurd rfl hlink
      | _ => exact hfields
    obtain ⟨same, hsame, -, hread⟩ := readsAs_canonical hlink hcarried hrequest hsize
    rw [Except.ok.inj (hrequest.symm.trans hsame)]
    exact hread

/-- A route to 10.0.0.0/8, wanted with its destination not masked. -/
def unmaskedRoute : Route where
  table := Route.mainTable
  tos := 0
  destination := .v4 0x0A010203#32
  length := 8
  metric := 5
  interface := 2
  gateway := some (.v4 0xC0A80001#32)
  source := none
  protocol := Route.staticProtocol
  scope := 7
  kind := Route.unicast
  flags := 3

theorem decode_toMessage_unmaskedRoute :
    ∃ draft, (route unmaskedRoute).toMessage MessageType.newRoute 0 = .ok draft ∧
      decode MessageType.newRoute draft.body =
        .ok (some (.new, (route unmaskedRoute).canonical)) := by
  have hcarried : (route unmaskedRoute).IsCarried :=
    ⟨rfl, fun _ h => absurd h (by simp [unmaskedRoute])⟩
  have hmessage : (route unmaskedRoute).toMessage (route unmaskedRoute).kind.newType 0 = .ok _ :=
    toMessage_eq_ok_iff.mpr ⟨_, rfl, rfl, rfl⟩
  exact ⟨_, hmessage, decode_toMessage hcarried hmessage⟩

example : (route unmaskedRoute).canonical = route { unmaskedRoute with
    destination := .v4 0x0A000000#32
    scope := Route.universeScope
    flags := 0 } := by
  decide

/-- Whether the wire keeps all that a wanted object says, texts and options included. -/
def IsLiteral : Object → Prop
  | link l => Text.ZeroFree l.name
  | address a => ∀ label, a.label = some label → Text.ZeroFree label
  | route _ => True
  | discipline d => Text.ZeroFree d.kind ∧
      ∀ octets, d.options = .raw octets → octets ≠ [] ∧ d.kind ≠ Discipline.fairQueueKind
  | filter f => Text.ZeroFree f.kind ∧
      ∀ data, f.action = some (.simple data) → Text.ZeroFree data

/-- Whether the request that creates an object is read as one that is as wanted. -/
def Tells (object : Object) : Prop :=
  ∃ told, object.ReadsAs .create told ∧ told.satisfies object = true

theorem decode_request_iff {object told : Object} {draft : Draft}
    (h : object.request .create = .ok draft) :
    decode draft.header.kind draft.body = .ok (some (.new, told)) ↔
      object.ReadsAs .create told := by
  obtain ⟨fields, hfields, hsize, rfl⟩ := request_eq_ok_iff.mp h
  constructor
  · intro hdecode
    exact ⟨fields, hfields, hsize, (decode_eq_ok_some_iff.mp hdecode).2⟩
  · rintro ⟨same, hsame, -, hread⟩
    rw [← Except.ok.inj (hfields.symm.trans hsame)] at hread
    exact decode_eq_ok_some_iff.mpr ⟨changeOf?_newType object.kind, hread⟩

end Object

section

variable {fields : List Field}

theorem Link.tells_iff {l : Link} (hfields : l.requestFields .create = .ok fields)
    (hsize : Field.oversizedAmong? fields = none) :
    (Object.link l).Tells ↔ Text.ZeroFree l.name := by
  have hname : l.ReadsName (Text.untilZero l.name) := by
    rw [ReadsName]
    split
    · rename_i hempty
      rw [hempty]
      rfl
    · exact Value.string_encode l.name
  have hread := ofPayload?_create hfields hsize hname
  rw [← Text.untilZero_eq_self_iff]
  constructor
  · rintro ⟨told, ⟨same, hsame, -, htold⟩, hwanted⟩
    rw [← Except.ok.inj (hfields.symm.trans hsame)] at htold
    obtain ⟨read, hpayload, rfl⟩ := Object.demand_eq_ok_some_iff.mp htold
    rw [← Option.some.inj (hread.symm.trans hpayload)] at hwanted
    simp only [Object.satisfies, satisfies, Bool.and_eq_true, beq_iff_eq] at hwanted
    exact hwanted.2.1.1.1
  · intro hsame
    rw [hsame] at hread
    refine ⟨_, ⟨fields, hfields, hsize, Object.demand_eq_ok_some_iff.mpr ⟨_, hread, rfl⟩⟩, ?_⟩
    have hup : (l.flags &&& upFlag &&& upFlag != 0) = (l.flags &&& upFlag != 0) := by
      rw [UInt32.and_assoc, UInt32.and_self]
    have hmtu : l.mtu.all (fun mtu => l.mtu == some mtu) = true := by
      cases l.mtu <;> simp
    simp only [Object.satisfies, satisfies, isUp, Bool.and_eq_true, Bool.or_eq_true, beq_iff_eq]
    exact ⟨Or.inr trivial, ⟨⟨rfl, Or.inr rfl⟩, hup⟩, hmtu⟩

theorem Address.tells_iff {a : Address} (hfields : a.requestFields .create = .ok fields)
    (hsize : Field.oversizedAmong? fields = none) : (Object.address a).Tells ↔
      ∀ label, a.label = some label → Text.ZeroFree label := by
  constructor
  · rintro ⟨told, hread, hwanted⟩ label hlabel
    obtain ⟨-, -, read, hlabelled, rfl⟩ := (readsAs_iff (by decide)).mp hread
    rw [readLabel?_eq, hlabel] at hlabelled
    simp only [Object.satisfies, satisfies, Bool.and_eq_true, hlabel, Option.all_some,
      beq_iff_eq, ← Option.some.inj hlabelled, Option.map_some, Option.some.injEq] at hwanted
    exact Text.untilZero_eq_self_iff.mp hwanted.2.1.1.1.2
  · intro hlabel
    have hread := readsAs_told (show Verb.create ≠ .delete by decide) hfields hsize
    rw [Object.label_told hlabel] at hread
    refine ⟨_, hread, ?_⟩
    have hown : a.label.all (fun label => a.label == some label) = true := by
      cases a.label <;> simp
    have hscope : a.scope.all (fun scope => some (a.scope.getD 0) == some scope) = true := by
      cases a.scope <;> simp
    simp only [Object.satisfies, satisfies, Object.equivalent, Object.kind, Object.key,
      Bool.and_eq_true, beq_iff_eq, decide_eq_true_eq]
    exact ⟨⟨trivial, trivial⟩, ⟨⟨⟨trivial, hown⟩, hscope⟩, UInt32.le_refl _⟩, UInt32.le_refl _⟩

theorem Route.tells_iff {r : Route} (hfields : r.requestFields .create = .ok fields)
    (hkind : r.kind = unicast) : (Object.route r).Tells ↔
      ∀ source, r.source = some source → source.isV6 = r.isV6 := by
  constructor
  · rintro ⟨told, hread, hwanted⟩
    obtain ⟨-, -, gateway, source, -, hsource, rfl⟩ := (readsAs_iff (by decide)).mp hread
    simp only [Object.satisfies, satisfies, Bool.and_eq_true, beq_iff_eq] at hwanted
    obtain ⟨-, ⟨⟨-, hsourced⟩, -⟩, -⟩ := hwanted
    rw [readHop?_self hsource hsourced] at hsource
    exact readHop?_eq_self_iff.mp hsource
  · intro hsource
    refine ⟨_, readsAs_told (by decide) hfields hkind hsource, ?_⟩
    obtain ⟨hsameKind, hsameKey⟩ := @Object.kind_key_route
      { r with
        destination := r.destination.mask r.length
        metric := r.effectiveMetric
        scope := r.requestScope .create
        flags := 0 } r rfl
    have hown : r.source.all (fun source => r.source == some source) = true := by
      cases r.source <;> simp
    simp only [Object.satisfies, satisfies, Object.equivalent, Bool.and_eq_true, Bool.or_eq_true,
      beq_iff_eq]
    exact ⟨⟨hsameKind, hsameKey⟩, ⟨⟨⟨Or.inr trivial, trivial⟩, hown⟩, trivial⟩, Or.inr trivial⟩

theorem Discipline.tells_iff {d : Discipline} (hvalid : d.validate = .ok ())
    (hsize : Field.oversizedAmong? (d.requestFields .create) = none) :
    (Object.discipline d).Tells ↔ Text.ZeroFree d.kind ∧
      ∀ octets, d.options = .raw octets → octets ≠ [] ∧ d.kind ≠ fairQueueKind := by
  constructor
  · rintro ⟨told, hread, hwanted⟩
    obtain ⟨-, kind, options, hkind, hoptions, rfl⟩ := (readsAs_iff (by decide)).mp hread
    rw [Value.string_encode] at hkind
    simp only [Object.satisfies, satisfies, Bool.and_eq_true, beq_iff_eq] at hwanted
    obtain ⟨-, ⟨rfl, -⟩, hmeet⟩ := hwanted
    refine ⟨Text.untilZero_eq_self_iff.mp (Except.ok.inj hkind), fun octets hraw => ?_⟩
    obtain rfl := readOptions_content? hvalid hsize hoptions hmeet
    rw [content?, hraw, readOptions] at hoptions
    constructor
    · rintro rfl
      simp only [List.isEmpty_nil, if_true] at hoptions
      split at hoptions
      · exact absurd hoptions (by simp)
      split at hoptions
      · obtain ⟨_, -, hsame⟩ := Option.map_eq_some_iff.mp hoptions
        exact absurd hsame (by simp)
      · exact absurd hoptions (by simp)
    · intro hfair
      simp only [hfair, if_true] at hoptions
      split at hoptions
      · exact absurd hoptions (by simp)
      · obtain ⟨_, -, hsame⟩ := Option.map_eq_some_iff.mp hoptions
        exact absurd hsame (by simp)
  · rintro ⟨hname, hraw⟩
    have hread := readsAs_told (show Verb.create ≠ .delete by decide) hsize hvalid hname
      fun octets hoctets => (hraw octets hoctets).2
    have hkept : toldOptions d.options = d.options := by
      cases hoptions : d.options with
      | raw octets =>
          cases octets with
          | nil => exact absurd rfl (hraw [] hoptions).1
          | cons => rfl
      | _ => rfl
    rw [hkept] at hread
    refine ⟨_, hread, ?_⟩
    have hmeet : d.options.meet d.options = true := by
      cases d.options with
      | fairQueue params => simp [DisciplineOptions.meet, FairQueue.covers, FairQueue.meets]
      | _ => simp [DisciplineOptions.meet]
    simp only [Object.satisfies, satisfies, Object.equivalent, Bool.and_eq_true, Bool.or_eq_true,
      beq_iff_eq]
    exact ⟨⟨trivial, trivial⟩, ⟨trivial, Or.inr trivial⟩, hmeet⟩

theorem Filter.tells_iff {f : Filter} (hfields : f.requestFields .create = .ok fields)
    (hsize : Field.oversizedAmong? fields = none) :
    (Object.filter f).Tells ↔ Text.ZeroFree f.kind ∧
      ∀ data, f.action = some (.simple data) → Text.ZeroFree data := by
  constructor
  · rintro ⟨told, hread, hwanted⟩
    obtain ⟨options, hoptions, hbody, kind, action, hkind, haction, rfl⟩ :=
      (readsAs_iff (by decide)).mp hread
    rw [Value.string_encode] at hkind
    simp only [Object.satisfies, satisfies, Bool.and_eq_true, beq_iff_eq] at hwanted
    obtain ⟨⟨-, rfl⟩, rfl⟩ := hwanted
    refine ⟨Text.untilZero_eq_self_iff.mp (Except.ok.inj hkind), fun data hdata => ?_⟩
    have hinner := Field.oversizedAmong?_of_subset (List.subset_cons_self _ _) hbody
    rw [readAction_content? hoptions hinner, hdata] at haction
    exact Action.told_eq_self_iff.mp (Option.some.inj (Option.some.inj haction)) data rfl
  · rintro ⟨hname, hdata⟩
    have hread := readsAs_told (show Verb.create ≠ .delete by decide) hfields hsize hname
    rw [Object.action_told hdata] at hread
    refine ⟨_, hread, ?_⟩
    simp only [Object.satisfies, satisfies, sameSlot, Bool.and_eq_true, Bool.or_eq_true, beq_iff_eq]
    exact ⟨⟨⟨⟨⟨⟨trivial, trivial⟩, trivial⟩, Or.inr trivial⟩, Or.inr trivial⟩, trivial⟩, trivial⟩

end

/-- The request to create a valid object tells one that is as wanted just if the wire keeps all that
the object says; a route's source is to be of the route's own family. -/
theorem Object.decode_request_satisfies_iff {object : Object} (hvalid : object.validate = .ok ())
    (htracked : ∀ r, object = .route r → r.isTracked = true)
    (hsource : ∀ r source, object = .route r → r.source = some source → source.isV6 = r.isV6)
    {draft : Draft} (h : object.request .create = .ok draft) :
    (∃ told, decode draft.header.kind draft.body = .ok (some (.new, told)) ∧
      told.satisfies object = true) ↔ object.IsLiteral := by
  simp only [decode_request_iff h]
  obtain ⟨fields, hfields, hsize, -⟩ := request_eq_ok_iff.mp h
  cases object with
  | link l => exact Link.tells_iff hfields hsize
  | address a => exact Address.tells_iff hfields hsize
  | route r =>
      have hkind := htracked r rfl
      simp only [Route.isTracked, Bool.and_eq_true, beq_iff_eq] at hkind
      exact iff_of_true ((Route.tells_iff hfields hkind.1).mpr fun source => hsource r source rfl)
        trivial
  | discipline d =>
      rw [← Except.ok.inj hfields] at hsize
      exact Discipline.tells_iff hvalid hsize
  | filter f => exact Filter.tells_iff hfields hsize

/-- A gateway of another family is refused, but a source of another family is not, although what
is asked for with it is never read as what is wanted. -/
theorem Object.decode_request_route_iff {r : Route} (htracked : r.isTracked = true) :
    ((∃ draft, (Object.route r).request .create = .ok draft) ↔
        ∀ gateway, r.gateway = some gateway → gateway.isV6 = r.isV6) ∧
      ∀ draft, (Object.route r).request .create = .ok draft →
        ((∃ told, decode draft.header.kind draft.body = .ok (some (.new, told)) ∧
          told.satisfies (.route r) = true) ↔
            ∀ source, r.source = some source → source.isV6 = r.isV6) := by
  simp only [Route.isTracked, Bool.and_eq_true, beq_iff_eq] at htracked
  refine ⟨⟨?_, fun hgateway => ?_⟩, fun draft h => ?_⟩
  · rintro ⟨draft, h⟩
    obtain ⟨fields, hfields, -, -⟩ := request_eq_ok_iff.mp h
    exact (Route.requestFields_eq_ok_iff.mp hfields).1
  · exact ⟨_, request_eq_ok_iff.mpr ⟨_, Route.requestFields_eq_ok_iff.mpr ⟨hgateway, rfl⟩,
      Route.oversizedAmong?_request r .create, rfl⟩⟩
  · simp only [decode_request_iff h]
    obtain ⟨fields, hfields, -, -⟩ := request_eq_ok_iff.mp h
    exact Route.tells_iff hfields htracked.1

def Filter.logging : Filter where
  interface := 2
  kind := matchAllKind
  handle := Handle.unspecified
  parent := Handle.ingressDiscipline
  priority := 1
  protocol := anyProtocol
  action := some (.simple "seen")

theorem Object.decode_request_satisfies_logging :
    ∃ draft told, (Object.filter .logging).request .create = .ok draft ∧
      decode draft.header.kind draft.body = .ok (some (.new, told)) ∧
        told.satisfies (.filter .logging) = true := by
  have hrequest : (Object.filter .logging).request .create = .ok _ :=
    request_eq_ok_iff.mpr ⟨_, rfl, rfl, rfl⟩
  have hliteral : (Object.filter .logging).IsLiteral := by
    refine ⟨by simp [Text.ZeroFree, Filter.logging, Filter.matchAllKind], fun data hdata => ?_⟩
    obtain rfl : "seen" = data := Action.simple.inj (Option.some.inj hdata)
    simp [Text.ZeroFree]
  obtain ⟨told, htold⟩ := (decode_request_satisfies_iff rfl (fun r h => absurd h (by simp))
    (fun r source h => absurd h (by simp)) hrequest).mpr hliteral
  exact ⟨_, told, hrequest, htold⟩

/-- A discipline with options in octets, of the kind whose options are understood. -/
def Discipline.opaqueFair : Discipline where
  interface := 1
  kind := fairQueueKind
  handle := ⟨0x10000⟩
  parent := Handle.root
  options := .raw [1, 2, 3, 4]

/-- A valid request need not tell what is wanted: options in octets are read as what they mean to
their kind. -/
theorem Object.exists_request_not_satisfies :
    ∃ object draft, object.validate = .ok () ∧ (∀ r, object = .route r → r.isTracked = true) ∧
      object.request .create = .ok draft ∧
        ¬∃ told, decode draft.header.kind draft.body = .ok (some (.new, told)) ∧
          told.satisfies object = true := by
  have hvalid : Discipline.opaqueFair.validate = .ok () := rfl
  have hrequest : (Object.discipline .opaqueFair).request .create = .ok _ :=
    request_eq_ok_iff.mpr ⟨_, rfl, rfl, rfl⟩
  refine ⟨.discipline .opaqueFair, _, hvalid, fun r h => absurd h (by simp), hrequest, ?_⟩
  simp only [decode_request_iff hrequest]
  intro htells
  exact ((Discipline.tells_iff hvalid rfl).mp htells).2 _ rfl |>.2 rfl

namespace Object

/-- A request to delete an object, and the kernel's message that it is gone, are read as the end of
an object of its kind and key. -/
theorem decode_delete {object : Object} (hnameable : object.IsNameable) {draft : Draft}
    (h : object.request .delete = .ok draft ∨
      ∃ flags, object.toMessage object.kind.delType flags = .ok draft) :
    ∃ gone, decode draft.header.kind draft.body = .ok (some (.del, gone)) ∧
      gone.kind = object.kind ∧ gone.key = object.key := by
  obtain ⟨fields, flags, hfields, hsize, rfl⟩ : ∃ fields flags,
      object.requestFields .delete = .ok fields ∧ Field.oversizedAmong? fields = none ∧
        draft = .new object.kind.delType flags fields := by
    rcases h with h | ⟨flags, h⟩
    · obtain ⟨fields, hfields, hsize, rfl⟩ := request_eq_ok_iff.mp h
      exact ⟨fields, _, hfields, hsize, rfl⟩
    · obtain ⟨fields, hfields, hsize, rfl⟩ := toMessage_eq_ok_iff.mp h
      rw [messageFields_delType] at hfields
      exact ⟨fields, flags, hfields, hsize, rfl⟩
  obtain ⟨gone, hgone, hslot⟩ := exists_gone hnameable hfields hsize
  obtain ⟨hkind, hkey⟩ := Slot.mk.injEq .. ▸ hslot
  exact ⟨gone, decode_eq_ok_some_iff.mpr ⟨changeOf?_delType object.kind, hgone⟩, hkind, hkey⟩

/-- A route of version 6 with the default metric, wanted with its destination not masked, in a table
whose number does not fit into an octet. -/
def distantRoute : Route where
  table := 1000
  tos := 0
  destination := .v6 0x20010DB8000000000000000000000001#128
  length := 33
  metric := 0
  interface := 2
  gateway := none
  source := none
  protocol := Route.staticProtocol
  scope := Route.universeScope
  kind := Route.unicast
  flags := 0

theorem decode_delete_distantRoute :
    ∃ draft gone, (route distantRoute).request .delete = .ok draft ∧
      decode draft.header.kind draft.body = .ok (some (.del, gone)) ∧
        gone.kind = .route6 ∧ gone.key =
          .route 1000 0 (.v6 0x20010DB8000000000000000000000000#128) 33 1024 := by
  have hunicast : ∀ r, route distantRoute = route r → r.kind = Route.unicast := by
    rintro r ⟨⟩
    rfl
  have hnameable : (route distantRoute).IsNameable := ⟨hunicast, fun f h => absurd h (by simp)⟩
  have hrequest : (route distantRoute).request .delete = .ok _ :=
    request_eq_ok_iff.mpr ⟨_, rfl, rfl, rfl⟩
  obtain ⟨gone, hdecode, hkind, hkey⟩ := decode_delete hnameable (Or.inl hrequest)
  exact ⟨_, gone, hrequest, hdecode, hkind, hkey⟩

end Object

end NetState
