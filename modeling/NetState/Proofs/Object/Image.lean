import NetState.Object.Wire
import NetState.Proofs.Inventory.Cascade
import NetState.Proofs.Object.Address
import NetState.Proofs.Object.Link
import NetState.Proofs.Object.Route
import NetState.Proofs.Object.Traffic

namespace NetState.Object

/-- What a message of a type about an object tells when it is read. -/
def told? (object : Object) (type : UInt16) : Option (Change × Object) :=
  match object.toMessage type 0 with
  | .ok draft =>
    match decode type draft.body with
    | .ok told => told
    | .error _ => none
  | .error _ => none

/-- The object as a message that announces it tells it. -/
def image? (object : Object) : Option Object :=
  (object.told? object.kind.newType).map (·.2)

theorem draft_eq_ok_iff {type flags : UInt16} {fields : List Field} {draft : Draft} :
    Object.draft type flags fields = .ok draft ↔
      Field.oversizedAmong? fields = none ∧ draft = .new type flags fields := by
  rw [Object.draft, Draft.check]
  cases hsize : Field.oversizedAmong? (Draft.new type flags fields).fields with
  | none =>
      constructor
      · intro h
        exact ⟨hsize, (Except.ok.inj h).symm⟩
      · rintro ⟨-, rfl⟩
        rfl
  | some excess =>
      constructor
      · intro h
        exact absurd h (by simp [bind, Except.bind])
      · rintro ⟨hnone, -⟩
        exact absurd (hsize.symm.trans hnone) (by simp)

theorem bind_draft_eq_ok_iff {made : Except Fault (List Field)} {type flags : UInt16}
    {draft : Draft} :
    (made >>= fun fields => Object.draft type flags fields) = .ok draft ↔
      ∃ fields, made = .ok fields ∧ Field.oversizedAmong? fields = none ∧
        draft = .new type flags fields := by
  rw [bind_eq_ok_iff]
  simp only [draft_eq_ok_iff]

theorem toMessage_eq_ok_iff {object : Object} {type flags : UInt16} {draft : Draft} :
    object.toMessage type flags = .ok draft ↔
      ∃ fields, object.messageFields type = .ok fields ∧
        Field.oversizedAmong? fields = none ∧ draft = .new type flags fields :=
  bind_draft_eq_ok_iff

def requestType (object : Object) (verb : Verb) : UInt16 :=
  if verb = .delete then object.kind.delType else object.kind.newType

theorem request_eq_ok_iff {object : Object} {verb : Verb} {draft : Draft} :
    object.request verb = .ok draft ↔
      ∃ fields, object.requestFields verb = .ok fields ∧
        Field.oversizedAmong? fields = none ∧
        draft = .new (object.requestType verb) (Flag.request ||| Flag.ack ||| verbFlags verb)
          fields :=
  bind_draft_eq_ok_iff

theorem decode_eq_ok_some_iff {type : UInt16} {payload : Bytes} {change : Change}
    {object : Object} :
    decode type payload = .ok (some (change, object)) ↔
      changeOf? type = some change ∧ ofPayload type payload = .ok (some object) := by
  rw [decode]
  cases changeOf? type with
  | none => simp
  | some told =>
      cases ofPayload type payload with
      | error fault => simp
      | ok read => cases read <;> simp

theorem told?_eq_some_iff {object image : Object} {type : UInt16} {change : Change} :
    object.told? type = some (change, image) ↔
      ∃ fields, object.messageFields type = .ok fields ∧
        Field.oversizedAmong? fields = none ∧ changeOf? type = some change ∧
        ofPayload type (Field.encodeAll fields) = .ok (some image) := by
  rw [told?]
  cases hmessage : object.toMessage type 0 with
  | error fault =>
      constructor
      · intro h
        exact absurd h (by simp)
      · rintro ⟨fields, hfields, hsize, -⟩
        rw [toMessage_eq_ok_iff.mpr ⟨fields, hfields, hsize, rfl⟩] at hmessage
        exact absurd hmessage (by simp)
  | ok draft =>
      obtain ⟨fields, hfields, hsize, rfl⟩ := toMessage_eq_ok_iff.mp hmessage
      constructor
      · intro h
        refine ⟨fields, hfields, hsize, decode_eq_ok_some_iff.mp ?_⟩
        simp only at h
        split at h
        · rename_i told htold
          rw [h] at htold
          exact htold
        · exact absurd h (by simp)
      · rintro ⟨other, hother, -, hdecode⟩
        rw [← Except.ok.inj (hfields.symm.trans hother)] at hdecode
        have htold := decode_eq_ok_some_iff.mpr hdecode
        simp only [Draft.body, Draft.new, htold]

theorem demand_eq_ok_iff {α : Type} {failure : Failure} {wrap : α → Object} {read : Option α}
    {object : Option Object} :
    demand failure wrap read = .ok object ↔
      ∃ value, read = some value ∧ object = some (wrap value) := by
  cases read with
  | none => simp [demand]
  | some value => simp [demand, eq_comm]

theorem demand_eq_ok_some_iff {α : Type} {failure : Failure} {wrap : α → Object}
    {read : Option α} {object : Object} :
    demand failure wrap read = .ok (some object) ↔
      ∃ value, read = some value ∧ wrap value = object := by
  rw [demand_eq_ok_iff]
  refine exists_congr fun value => and_congr_right fun _ => ?_
  rw [Option.some.injEq, eq_comm]

theorem newType_address (a : Address) : (address a).kind.newType = MessageType.newAddress := by
  rw [kind]
  split <;> rfl

theorem delType_address (a : Address) : (address a).kind.delType = MessageType.delAddress := by
  rw [kind]
  split <;> rfl

theorem newType_route (r : Route) : (route r).kind.newType = MessageType.newRoute := by
  rw [kind]
  split <;> rfl

theorem delType_route (r : Route) : (route r).kind.delType = MessageType.delRoute := by
  rw [kind]
  split <;> rfl

theorem changeOf?_newType (kind : Kind) : changeOf? kind.newType = some .new := by
  cases kind <;> decide

theorem changeOf?_delType (kind : Kind) : changeOf? kind.delType = some .del := by
  cases kind <;> decide

theorem delTypes_newType (kind : Kind) : delTypes.contains kind.newType = false := by
  cases kind <;> decide

theorem delTypes_delType (kind : Kind) : delTypes.contains kind.delType = true := by
  cases kind <;> decide

theorem messageFields_delType (object : Object) :
    object.messageFields object.kind.delType = object.requestFields .delete := by
  rw [messageFields.eq_def, delTypes_delType]
  rfl

theorem messageFields_newType (object : Object) :
    object.messageFields object.kind.newType = match object with
      | link l => l.kernelFields
      | _ => object.requestFields .change := by
  rw [messageFields.eq_def, delTypes_newType]
  cases object <;> rfl

theorem isIp_family (ip : Ip) : (ip.family == Ip.inet || ip.family == Ip.inet6) = true := by
  cases ip <;> rfl

theorem ofPayload_link_eq {type : UInt16}
    (h : type = MessageType.newLink ∨ type = MessageType.delLink) (payload : Bytes) :
    ofPayload type payload =
      demand (unread LinkHead.size payload) .link (Link.ofPayload? payload) := by
  rcases h with rfl | rfl <;> rfl

theorem ofPayload_address_eq {type : UInt16}
    (h : type = MessageType.newAddress ∨ type = MessageType.delAddress) (payload : Bytes) :
    ofPayload type payload =
      if payload.headD 0 == Ip.inet || payload.headD 0 == Ip.inet6 then
        demand (unread AddressHead.size payload) .address (Address.ofPayload? payload)
      else .ok none := by
  rcases h with rfl | rfl <;> rfl

theorem ofPayload_route_eq {type : UInt16}
    (h : type = MessageType.newRoute ∨ type = MessageType.delRoute) (payload : Bytes) :
    ofPayload type payload =
      if payload.headD 0 == Ip.inet || payload.headD 0 == Ip.inet6 then
        match Route.ofPayload? payload with
        | some r => .ok (if r.isTracked then some (.route r) else none)
        | none => .error (unread RouteHead.size payload)
      else .ok none := by
  rcases h with rfl | rfl <;> rfl

theorem ofPayload_discipline_eq {type : UInt16}
    (h : type = MessageType.newDiscipline ∨ type = MessageType.delDiscipline) (payload : Bytes) :
    ofPayload type payload =
      demand (unread TrafficHead.size payload) .discipline (Discipline.ofPayload? payload) := by
  rcases h with rfl | rfl <;> rfl

theorem ofPayload_filter_eq {type : UInt16}
    (h : type = MessageType.newFilter ∨ type = MessageType.delFilter) (payload : Bytes) :
    ofPayload type payload =
      demand (unread TrafficHead.size payload) .filter (Filter.ofPayload? payload) := by
  rcases h with rfl | rfl <;> rfl

theorem ofPayload_address {type : UInt16}
    (htype : type = MessageType.newAddress ∨ type = MessageType.delAddress) {payload : Bytes}
    {ip : Ip} (hfamily : payload.headD 0 = ip.family) :
    ofPayload type payload =
      demand (unread AddressHead.size payload) address (Address.ofPayload? payload) := by
  rw [ofPayload_address_eq htype, hfamily, isIp_family, if_pos rfl]

theorem ofPayload_route {type : UInt16}
    (htype : type = MessageType.newRoute ∨ type = MessageType.delRoute) {payload : Bytes}
    {ip : Ip} (hfamily : payload.headD 0 = ip.family) {object : Object} :
    ofPayload type payload = .ok (some object) ↔
      ∃ r, Route.ofPayload? payload = some r ∧ r.isTracked ∧ object = route r := by
  rw [ofPayload_route_eq htype, hfamily, isIp_family, if_pos rfl]
  cases Route.ofPayload? payload with
  | none => simp
  | some r =>
      simp only [Except.ok.injEq]
      constructor
      · intro h
        split at h
        · rename_i htracked
          exact ⟨r, rfl, htracked, (Option.some.inj h).symm⟩
        · exact absurd h (by simp)
      · rintro ⟨other, hother, htracked, rfl⟩
        rw [Option.some.inj hother, if_pos htracked]

def handle : Object → Handle
  | discipline d => d.handle
  | _ => Handle.unspecified

/-- Whether an object shows what tells another one from others, where it belongs and, if it is a
discipline, what hangs below it. -/
structure Resembles (image object : Object) : Prop where
  kind : image.kind = object.kind
  key : image.key = object.key
  interface : image.interface = object.interface
  handle : image.handle = object.handle

theorem hooks_eq (object : Object) : object.hooks =
    if object.kind = .discipline then
      if object.handle.isUnspecified then [] else [⟨object.interface, object.handle.major⟩]
    else [] := by
  cases object with
  | address a =>
      rw [kind]
      split <;> rfl
  | route r =>
      rw [kind]
      split <;> rfl
  | _ => rfl

theorem hangsAt_eq (object : Object) (hook : Hook) : object.hangsAt hook =
    match object.key with
    | .filter interface parent _ _ _ => interface == hook.interface && parent.major == hook.major
    | _ => false := by
  cases object <;> rfl

theorem takesAlong_eq (gone object : Object) : gone.takesAlong object =
    match gone.key with
    | .link index => object.owner? == some index
    | _ => gone.hooks.any object.hangsAt := by
  cases gone <;> rfl

theorem hooksLostTo_eq (object fresh : Object) : object.hooksLostTo fresh =
    if fresh.kind = .discipline ∧ fresh.handle = object.handle then [] else object.hooks := by
  cases object with
  | discipline old =>
      cases fresh with
      | discipline new =>
          show (if new.handle = old.handle then [] else old.hooks) = _
          split
          · rename_i hsame
            exact (if_pos ⟨rfl, hsame⟩).symm
          · rename_i hother
            exact (if_neg fun h => hother h.2).symm
      | address a =>
          rw [kind]
          split <;> exact (if_neg (fun h => absurd h.1 (by simp))).symm
      | route r =>
          rw [kind]
          split <;> exact (if_neg (fun h => absurd h.1 (by simp))).symm
      | _ => exact (if_neg (fun h => absurd h.1 (by simp [kind]))).symm
  | _ => split <;> rfl

namespace Resembles

variable {image object : Object}

theorem slot (h : image.Resembles object) : image.slot = object.slot := by
  rw [Object.slot, Object.slot, h.kind, h.key]

theorem owner? (h : image.Resembles object) : image.owner? = object.owner? := by
  rw [Object.owner?, Object.owner?, h.interface]

theorem hooks (h : image.Resembles object) : image.hooks = object.hooks := by
  rw [hooks_eq, hooks_eq, h.kind, h.handle, h.interface]

theorem hangsAt (h : image.Resembles object) (hook : Hook) :
    image.hangsAt hook = object.hangsAt hook := by
  rw [hangsAt_eq, hangsAt_eq, h.key]

theorem takesAlong {gone seen : Object} (hgone : seen.Resembles gone)
    (h : image.Resembles object) : seen.takesAlong image = gone.takesAlong object := by
  have hhangs : image.hangsAt = object.hangsAt := by
    funext hook
    exact h.hangsAt hook
  rw [takesAlong_eq, takesAlong_eq, hgone.key, hgone.hooks, h.owner?, hhangs]

theorem hooksLostTo {fresh seen : Object} (h : image.Resembles object)
    (hfresh : seen.Resembles fresh) : image.hooksLostTo seen = object.hooksLostTo fresh := by
  rw [hooksLostTo_eq, hooksLostTo_eq, hfresh.kind, hfresh.handle, h.handle, h.hooks]

end Resembles

theorem resembles_address {image a : Address}
    (h : image.interface = a.interface ∧ image.ip = a.ip ∧ image.length = a.length) :
    Resembles (address image) (address a) where
  kind := by rw [Object.kind, Object.kind, h.2.1]
  key := by rw [Object.key, Object.key, h.1, h.2.1, h.2.2]
  interface := h.1
  handle := rfl

theorem isV6_of_destination {image r : Route}
    (h : image.destination = r.destination.mask r.length) : image.isV6 = r.isV6 := by
  rw [Route.isV6, h, Ip.isV6_mask]
  rfl

theorem effectiveMetric_of_metric {image r : Route} (hversion : image.isV6 = r.isV6)
    (hmetric : image.metric = r.effectiveMetric) : image.effectiveMetric = r.effectiveMetric := by
  rw [Route.effectiveMetric, hversion, hmetric, Route.effectiveMetric]
  cases r.isV6 with
  | false => rfl
  | true =>
      by_cases hzero : r.metric = 0
      · simp [hzero, Route.defaultMetric6]
      · simp [hzero]

theorem kind_key_route {image r : Route}
    (h : image.identity = (r.table, r.tos, r.destination.mask r.length, r.length,
      r.effectiveMetric, r.kind, 0)) :
    (route image).kind = (route r).kind ∧ (route image).key = (route r).key := by
  simp only [Route.identity, Prod.mk.injEq] at h
  obtain ⟨htable, htos, hdestination, hlength, hmetric, -, -⟩ := h
  have hversion := isV6_of_destination hdestination
  constructor
  · rw [Object.kind, Object.kind, hversion]
  · rw [Object.key, Object.key, htable, htos, hdestination, hlength, Ip.mask_mask,
      effectiveMetric_of_metric hversion hmetric]

theorem resembles_of_image? {object image : Object} (h : object.image? = some image) :
    image.Resembles object := by
  obtain ⟨⟨change, told⟩, htold, rfl⟩ := Option.map_eq_some_iff.mp h
  obtain ⟨fields, hfields, hsize, -, hread⟩ := told?_eq_some_iff.mp htold
  rw [messageFields_newType] at hfields
  cases object with
  | link l =>
      obtain ⟨info, -, rfl⟩ := Link.kernelFields_eq_ok hfields
      obtain ⟨read, hpayload, rfl⟩ := demand_eq_ok_some_iff.mp hread
      have hindex : read.index = l.index := Link.index_of_ofPayload? hpayload
      exact ⟨rfl, congrArg Key.link hindex, hindex, rfl⟩
  | address a =>
      have hrequest : a.requestFields .change = .ok fields := hfields
      obtain ⟨more, -, -, hform⟩ := Address.requestFields_eq_ok hrequest
      have hfamily : (Field.encodeAll fields).headD 0 = a.ip.family := by
        rw [hform]
        rfl
      rw [newType_address, ofPayload_address (Or.inl rfl) hfamily] at hread
      obtain ⟨read, hpayload, rfl⟩ := demand_eq_ok_some_iff.mp hread
      exact resembles_address (Address.identity_of_ofPayload? hrequest hsize hpayload)
  | route r =>
      have hrequest : r.requestFields .change = .ok fields := hfields
      obtain ⟨-, hform⟩ := Route.requestFields_eq_ok_iff.mp hrequest
      have hfamily : (Field.encodeAll fields).headD 0 = r.destination.family := by
        rw [hform]
        rfl
      rw [newType_route, ofPayload_route (Or.inl rfl) hfamily] at hread
      obtain ⟨read, hpayload, -, rfl⟩ := hread
      obtain ⟨hidentity, hinterface⟩ := Route.identity_of_ofPayload? hrequest hsize hpayload
      obtain ⟨hkind, hkey⟩ := kind_key_route hidentity
      exact ⟨hkind, hkey, hinterface (by decide), rfl⟩
  | discipline d =>
      obtain ⟨more, -, -, hform⟩ := Discipline.requestFields_eq d .change
      rw [← Except.ok.inj hfields, hform] at hread
      obtain ⟨read, hpayload, rfl⟩ := demand_eq_ok_some_iff.mp hread
      obtain ⟨hinterface, hhandle, hparent⟩ := Discipline.head_of_ofPayload? hpayload
      refine ⟨rfl, ?_, hinterface, hhandle⟩
      rw [Object.key, Object.key, hinterface, hparent]
  | filter f =>
      have hrequest : f.requestFields .change = .ok fields := hfields
      obtain ⟨more, -, hform⟩ := Filter.requestFields_eq_ok (by simp) hrequest
      rw [hform] at hread
      obtain ⟨read, hpayload, rfl⟩ := demand_eq_ok_some_iff.mp hread
      obtain ⟨hinterface, hhandle, hparent, hpriority, hprotocol⟩ :=
        Filter.head_of_ofPayload? hpayload
      refine ⟨rfl, ?_, hinterface, rfl⟩
      rw [Object.key, Object.key, hinterface, hhandle, hparent, hpriority, hprotocol]

theorem discipline_of_image? {d : Discipline} {image : Object}
    (hname : Value.string (Text.Utf8.encode d.kind ++ [0]) = .ok d.kind)
    (h : (discipline d).image? = some image) :
    ∃ seen : Discipline, image = discipline seen ∧ seen.interface = d.interface ∧
      seen.kind = d.kind ∧ seen.handle = d.handle := by
  have hresembles := resembles_of_image? h
  obtain ⟨⟨change, told⟩, htold, rfl⟩ := Option.map_eq_some_iff.mp h
  obtain ⟨fields, hfields, hsize, -, hread⟩ := told?_eq_some_iff.mp htold
  rw [messageFields_newType] at hfields
  rw [← Except.ok.inj hfields] at hsize hread
  obtain ⟨seen, hpayload, rfl⟩ := demand_eq_ok_some_iff.mp hread
  exact ⟨seen, rfl, hresembles.interface, Discipline.kind_of_ofPayload? hname hsize hpayload,
    hresembles.handle⟩

theorem exists_gone_link {l : Link} {fields : List Field}
    (hfields : l.requestFields .delete = .ok fields)
    (hsize : Field.oversizedAmong? fields = none) :
    ∃ gone, ofPayload MessageType.delLink (Field.encodeAll fields) = .ok (some gone) ∧
      gone.slot = (link l).slot := by
  obtain ⟨gone, hgone⟩ := Link.exists_ofPayload?_delete hfields hsize
  refine ⟨link gone, demand_eq_ok_some_iff.mpr ⟨gone, hgone, rfl⟩, ?_⟩
  rw [Link.requestFields_delete] at hfields
  rw [← Except.ok.inj hfields] at hgone
  rw [slot, slot, key, key, Link.index_of_ofPayload? hgone]
  rfl

theorem exists_gone_address {a : Address} {fields : List Field}
    (hfields : a.requestFields .delete = .ok fields)
    (hsize : Field.oversizedAmong? fields = none) :
    ∃ gone, ofPayload MessageType.delAddress (Field.encodeAll fields) = .ok (some gone) ∧
      gone.slot = (address a).slot := by
  obtain ⟨gone, hgone⟩ := Address.exists_ofPayload?_delete hfields hsize
  refine ⟨address gone, ?_,
    (resembles_address (Address.identity_of_ofPayload? hfields hsize hgone)).slot⟩
  have hfamily : (Field.encodeAll fields).headD 0 = a.ip.family := by
    rw [Address.requestFields_delete] at hfields
    rw [← Except.ok.inj hfields]
    rfl
  rw [ofPayload_address (Or.inr rfl) hfamily]
  exact demand_eq_ok_some_iff.mpr ⟨gone, hgone, rfl⟩

theorem exists_gone_route {r : Route} {fields : List Field} (hkind : r.kind = Route.unicast)
    (hfields : r.requestFields .delete = .ok fields)
    (hsize : Field.oversizedAmong? fields = none) :
    ∃ gone, ofPayload MessageType.delRoute (Field.encodeAll fields) = .ok (some gone) ∧
      gone.slot = (route r).slot := by
  obtain ⟨gone, hgone⟩ := Route.exists_ofPayload?_delete hfields hsize
  obtain ⟨hidentity, -⟩ := Route.identity_of_ofPayload? hfields hsize hgone
  obtain ⟨hsame, hkey⟩ := kind_key_route hidentity
  have htracked : gone.isTracked = true := by
    simp only [Route.identity, Prod.mk.injEq] at hidentity
    rw [Route.isTracked, hidentity.2.2.2.2.2.1, hidentity.2.2.2.2.2.2, hkind]
    rfl
  have hfamily : (Field.encodeAll fields).headD 0 = r.destination.family := by
    rw [(Route.requestFields_eq_ok_iff.mp hfields).2]
    rfl
  refine ⟨route gone, (ofPayload_route (Or.inr rfl) hfamily).mpr ⟨gone, hgone, htracked, rfl⟩, ?_⟩
  rw [slot, slot, hsame, hkey]

theorem exists_gone_discipline {d : Discipline}
    (hsize : Field.oversizedAmong? (d.requestFields .delete) = none) :
    ∃ gone, ofPayload MessageType.delDiscipline (Field.encodeAll (d.requestFields .delete)) =
        .ok (some gone) ∧
      gone.slot = (discipline d).slot := by
  obtain ⟨none, hnone, -, hform⟩ := Discipline.requestFields_eq d .delete
  rw [hnone rfl] at hform
  rw [hform] at hsize ⊢
  have hgone : Discipline.ofPayload? (Field.encodeAll [.raw d.head.toBytes,
      Field.string TrafficHead.kindAttr d.kind]) =
        some ⟨d.interface, Text.untilZero d.kind, d.handle, d.parent, .none⟩ := by
    rw [Discipline.ofPayload?, TrafficHead.ofPayload?_string hsize]
    rfl
  exact ⟨_, demand_eq_ok_some_iff.mpr ⟨_, hgone, rfl⟩, rfl⟩

/-- A filter without priority is the exception: what tells of its end means all filters at its
place. -/
theorem exists_gone_filter {f : Filter} {fields : List Field} (hpriority : f.priority ≠ 0)
    (hfields : f.requestFields .delete = .ok fields)
    (hsize : Field.oversizedAmong? fields = none) :
    ∃ gone, ofPayload MessageType.delFilter (Field.encodeAll fields) = .ok (some gone) ∧
      gone.slot = (filter f).slot := by
  rw [Filter.requestFields_delete hpriority] at hfields
  obtain rfl := Except.ok.inj hfields
  have haction : Filter.readAction (Text.untilZero f.kind) none = some none := by
    rw [Filter.readAction.eq_def]
    cases Filter.actionAttr? (Text.untilZero f.kind) <;> rfl
  obtain ⟨gone, hgone⟩ : ∃ gone, Filter.ofPayload? (Field.encodeAll [.raw f.head.toBytes,
      Field.string TrafficHead.kindAttr f.kind]) = some gone := by
    rw [Filter.ofPayload?, TrafficHead.ofPayload?_string hsize]
    show ∃ gone, ((Filter.readAction (Text.untilZero f.kind) none).bind fun action => _) = some gone
    rw [haction]
    exact ⟨_, rfl⟩
  obtain ⟨hinterface, hhandle, hparent, hprio, hprotocol⟩ := Filter.head_of_ofPayload? hgone
  refine ⟨filter gone, demand_eq_ok_some_iff.mpr ⟨gone, hgone, rfl⟩, ?_⟩
  rw [slot, slot, key, key, hinterface, hhandle, hparent, hprio, hprotocol]
  rfl

/-- Whether the end of an object can be told: a route is of the type that is kept track of, and a
filter has a priority. -/
structure IsNameable (object : Object) : Prop where
  unicast : ∀ r, object = route r → r.kind = Route.unicast
  prioritized : ∀ f, object = filter f → f.priority ≠ 0

theorem exists_gone {object : Object} (h : object.IsNameable) {fields : List Field}
    (hfields : object.requestFields .delete = .ok fields)
    (hsize : Field.oversizedAmong? fields = none) :
    ∃ gone, ofPayload object.kind.delType (Field.encodeAll fields) = .ok (some gone) ∧
      gone.slot = object.slot := by
  cases object with
  | link l => exact exists_gone_link hfields hsize
  | address a =>
      rw [delType_address]
      exact exists_gone_address hfields hsize
  | route r =>
      rw [delType_route]
      exact exists_gone_route (h.unicast r rfl) hfields hsize
  | discipline d =>
      obtain rfl := Except.ok.inj hfields
      exact exists_gone_discipline hsize
  | filter f => exact exists_gone_filter (h.prioritized f rfl) hfields hsize

theorem exists_requestFields_delete {object : Object} {fields : List Field}
    (hfields : object.messageFields object.kind.newType = .ok fields)
    (hsize : Field.oversizedAmong? fields = none) :
    ∃ left, object.requestFields .delete = .ok left ∧ Field.oversizedAmong? left = none := by
  rw [messageFields_newType] at hfields
  cases object with
  | link l =>
      obtain ⟨info, -, rfl⟩ := Link.kernelFields_eq_ok hfields
      refine ⟨_, Link.requestFields_delete l, Field.oversizedAmong?_of_raw ?_ hsize⟩
      intro field hfield
      rcases List.mem_cons.mp hfield with rfl | hfield
      · exact Or.inl ⟨_, rfl⟩
      · split at hfield
        · exact absurd hfield List.not_mem_nil
        · rw [List.mem_singleton.mp hfield]
          exact Or.inr (List.mem_cons_of_mem _ List.mem_cons_self)
  | address a =>
      have hrequest : a.requestFields .change = .ok fields := hfields
      obtain ⟨more, -, -, rfl⟩ := Address.requestFields_eq_ok hrequest
      refine ⟨_, Address.requestFields_delete a, Field.oversizedAmong?_of_subset ?_ hsize⟩
      rw [List.map_append]
      exact List.cons_subset_cons _ (List.subset_append_left _ _)
  | route r =>
      obtain ⟨hgateway, rfl⟩ := Route.requestFields_eq_ok_iff.mp hfields
      refine ⟨_, Route.requestFields_eq_ok_iff.mpr ⟨hgateway, rfl⟩,
        Field.oversizedAmong?_of_raw ?_ hsize⟩
      intro field hfield
      rcases List.mem_cons.mp hfield with rfl | hfield
      · exact Or.inl ⟨_, rfl⟩
      · rw [Route.requestAttrs, if_pos rfl, List.append_nil] at hfield
        rw [Route.requestAttrs, List.map_append]
        exact Or.inr (List.mem_cons_of_mem _ (List.mem_append_left _ hfield))
  | discipline d =>
      obtain ⟨more, -, -, hform⟩ := Discipline.requestFields_eq d .change
      obtain ⟨none, hnone, -, hdelete⟩ := Discipline.requestFields_eq d .delete
      rw [← Except.ok.inj hfields, hform] at hsize
      rw [hnone rfl] at hdelete
      refine ⟨_, rfl, ?_⟩
      rw [hdelete]
      refine Field.oversizedAmong?_of_subset ?_ hsize
      exact List.cons_subset_cons _ (List.cons_subset_cons _ (List.nil_subset _))
  | filter f =>
      obtain ⟨more, -, rfl⟩ := Filter.requestFields_eq_ok (by simp) hfields
      by_cases hpriority : f.priority = 0
      · exact ⟨_, if_pos ⟨rfl, hpriority⟩, rfl⟩
      · refine ⟨_, Filter.requestFields_delete hpriority,
          Field.oversizedAmong?_of_subset ?_ hsize⟩
        exact List.cons_subset_cons _ (List.cons_subset_cons _ (List.nil_subset _))

/-- The end of an object that can be announced can be told too, and names it, unless it is a filter
without priority. -/
theorem exists_told?_delType {object image : Object} (h : object.image? = some image)
    (hpriority : ∀ f, object = filter f → f.priority ≠ 0) :
    ∃ gone, object.told? object.kind.delType = some (.del, gone) ∧ gone.slot = object.slot := by
  obtain ⟨⟨change, told⟩, htold, -⟩ := Option.map_eq_some_iff.mp h
  obtain ⟨fields, hfields, hsize, -, hread⟩ := told?_eq_some_iff.mp htold
  obtain ⟨left, hleft, hsmall⟩ := exists_requestFields_delete hfields hsize
  have hunicast : ∀ r, object = route r → r.kind = Route.unicast := by
    rintro r rfl
    rw [messageFields_newType] at hfields
    have hfamily : (Field.encodeAll fields).headD 0 = r.destination.family := by
      rw [(Route.requestFields_eq_ok_iff.mp hfields).2]
      rfl
    rw [newType_route, ofPayload_route (Or.inl rfl) hfamily] at hread
    obtain ⟨read, hpayload, htracked, -⟩ := hread
    obtain ⟨hidentity, -⟩ := Route.identity_of_ofPayload? hfields hsize hpayload
    simp only [Route.identity, Prod.mk.injEq] at hidentity
    simp only [Route.isTracked, Bool.and_eq_true, beq_iff_eq] at htracked
    rw [← hidentity.2.2.2.2.2.1]
    exact htracked.1
  obtain ⟨gone, hgone, hslot⟩ := exists_gone ⟨hunicast, hpriority⟩ hleft hsmall
  refine ⟨gone, told?_eq_some_iff.mpr ⟨left, ?_, hsmall, changeOf?_delType _, hgone⟩, hslot⟩
  rw [messageFields_delType, hleft]

theorem atMost_requestFields {object : Object} {verb : Verb} {fields : List Field}
    (h : object.requestFields verb = .ok fields) : Field.AtMost 16 fields := by
  cases object with
  | link l => exact Link.atMost_requestFields h
  | address a => exact Address.atMost_requestFields h
  | route r => exact Route.atMost_requestFields h
  | discipline d =>
      rw [← Except.ok.inj h]
      exact Discipline.atMost_requestFields d verb
  | filter f => exact Filter.atMost_requestFields h

theorem atMost_messageFields {object : Object} {type : UInt16} {fields : List Field}
    (h : object.messageFields type = .ok fields) : Field.AtMost 16 fields := by
  rw [messageFields.eq_def] at h
  split at h
  · exact atMost_requestFields h
  · split at h
    · exact Link.atMost_kernelFields h
    · exact atMost_requestFields h

theorem isMeasured_toMessage {object : Object} {type flags : UInt16} {draft : Draft}
    (h : object.toMessage type flags = .ok draft) (seq pid : UInt32) :
    (draft.addressed seq pid).IsMeasured := by
  obtain ⟨fields, hfields, hsize, rfl⟩ := toMessage_eq_ok_iff.mp h
  exact Draft.isMeasured_of_atMost
    (atMost_messageFields hfields) hsize

end NetState.Object
