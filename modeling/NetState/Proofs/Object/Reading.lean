import NetState.Proofs.Object
import NetState.Proofs.Object.Detail
import NetState.Proofs.Object.Image
import NetState.Proofs.Object.TrafficDetail

namespace NetState

theorem Value.eq_ok_of_toOption {ε α : Type} {read : Except ε α} {value : α}
    (h : read.toOption = some value) : read = .ok value := by
  cases read with
  | error fault => exact absurd h (by simp [Except.toOption])
  | ok other => exact congrArg Except.ok (Option.some.inj h)

namespace Object

/-- Whether the request that does what `verb` tells to an object is read as one about another. -/
def ReadsAs (object : Object) (verb : Verb) (told : Object) : Prop :=
  ∃ fields, object.requestFields verb = .ok fields ∧ Field.oversizedAmong? fields = none ∧
    ofPayload object.kind.newType (Field.encodeAll fields) = .ok (some told)

/-- What is read of the request that creates an object. -/
def asked? (object : Object) : Option Object :=
  match object.request .create with
  | .ok draft =>
    match decode draft.header.kind draft.body with
    | .ok (some (_, told)) => some told
    | _ => none
  | .error _ => none

theorem readsAs_of_asked? {object told : Object} (h : object.asked? = some told) :
    object.ReadsAs .create told := by
  rw [asked?] at h
  split at h
  · rename_i draft hrequest
    obtain ⟨fields, hfields, hsize, rfl⟩ := request_eq_ok_iff.mp hrequest
    split at h
    · rename_i change read hdecode
      rw [Option.some.inj h] at hdecode
      exact ⟨fields, hfields, hsize, (decode_eq_ok_some_iff.mp hdecode).2⟩
    · exact absurd h (by simp)
  · exact absurd h (by simp)

theorem image?_eq_some_of_fields {object image : Object} {fields : List Field}
    (hfields : object.messageFields object.kind.newType = .ok fields)
    (hsize : Field.oversizedAmong? fields = none)
    (hread : ofPayload object.kind.newType (Field.encodeAll fields) = .ok (some image)) :
    object.image? = some image :=
  Option.map_eq_some_iff.mpr ⟨(.new, image),
    told?_eq_some_iff.mpr ⟨fields, hfields, hsize, changeOf?_newType _, hread⟩, rfl⟩

theorem kind_ne_link_of_ofPayload {type : UInt16} {payload : Bytes} {object : Object}
    (h : ofPayload type payload = .ok (some object)) (hnew : type ≠ MessageType.newLink)
    (hdel : type ≠ MessageType.delLink) : object.kind ≠ .link := by
  intro hkind
  obtain ⟨l, rfl⟩ := exists_link_of_kind hkind
  rw [ofPayload] at h
  simp only [hnew, hdel, or_self, if_false] at h
  split at h
  · split at h
    · obtain ⟨_, -, hsame⟩ := demand_eq_ok_some_iff.mp h
      exact absurd hsame (by simp)
    · exact absurd h (by simp)
  split at h
  · split at h
    · split at h
      · split at h <;> exact absurd h (by simp)
      · exact absurd h (by simp)
    · exact absurd h (by simp)
  split at h
  · obtain ⟨_, -, hsame⟩ := demand_eq_ok_some_iff.mp h
    exact absurd hsame (by simp)
  split at h
  · obtain ⟨_, -, hsame⟩ := demand_eq_ok_some_iff.mp h
    exact absurd hsame (by simp)
  · exact absurd h (by simp)

/-- The message about anything but a link is that of a request to change it. -/
theorem image?_of_readsAs {object image : Object} (hkind : object.kind ≠ .link)
    (h : object.ReadsAs .change image) : object.image? = some image := by
  obtain ⟨fields, hfields, hsize, hread⟩ := h
  refine image?_eq_some_of_fields ?_ hsize hread
  rw [messageFields_newType]
  cases object with
  | link l => exact absurd rfl hkind
  | _ => exact hfields

end Object

namespace Address

def LabelFits (a : Address) : Prop :=
  ∀ label, a.label = some label → Field.oversized? (Field.string labelAttr label) = none

theorem oversizedAmong?_request_iff {a : Address} :
    Field.oversizedAmong? (.raw a.requestHead.toBytes ::
      (identityAttrs a.ip ++ a.detailAttrs).map Field.ofAttribute) = none ↔ a.LabelFits := by
  rw [Field.oversizedAmong?_eq_none_iff]
  constructor
  · intro h label hlabel
    refine h (Field.ofAttribute ⟨labelAttr, Text.Utf8.encode label ++ [0]⟩)
      (List.mem_cons_of_mem _ (List.mem_map_of_mem ?_))
    simp [detailAttrs, hlabel]
  · intro h field hfield
    rcases List.mem_cons.mp hfield with rfl | hfield
    · rfl
    obtain ⟨attr, hattr, rfl⟩ := List.mem_map.mp hfield
    have hip (kind : UInt16) :
        Field.oversized? (Field.ofAttribute ⟨kind, a.ip.toBytes⟩) = none := by
      cases a.ip <;> rfl
    rcases List.mem_append.mp hattr with hattr | hattr
    · rw [identityAttrs] at hattr
      split at hattr
      · rw [List.mem_singleton.mp hattr]
        exact hip _
      · rcases List.mem_cons.mp hattr with rfl | hattr
        · exact hip _
        · rw [List.mem_singleton.mp hattr]
          exact hip _
    simp only [detailAttrs, List.mem_append] at hattr
    rcases hattr with (hattr | hattr) | hattr
    · obtain ⟨label, hlabel, rfl⟩ := List.mem_map.mp hattr
      exact h label (Option.mem_toList.mp hlabel)
    · split at hattr
      · rw [List.mem_singleton.mp hattr]
        rfl
      · exact absurd hattr (by simp)
    · split at hattr
      · exact absurd hattr (by simp)
      · rw [List.mem_singleton.mp hattr]
        rfl

theorem readsAs_iff {a : Address} {verb : Verb} (hverb : verb ≠ .delete) {told : Object} :
    (Object.address a).ReadsAs verb told ↔ (a.ip.isV6 = true → a.label = none) ∧ a.LabelFits ∧
      ∃ label, readLabel? a.label = some label ∧
        told = .address { a with label, scope := some (a.scope.getD 0) } := by
  have hread {fields : List Field} (hfields : a.requestFields verb = .ok fields)
      (hsize : Field.oversizedAmong? fields = none) :
      Object.ofPayload (Object.address a).kind.newType (Field.encodeAll fields) =
        Object.demand (Object.unread AddressHead.size (Field.encodeAll fields)) .address
          ((readLabel? a.label).map fun label =>
            { a with label, scope := some (a.scope.getD 0) }) := by
    have hfamily : (Field.encodeAll fields).headD 0 = a.ip.family := by
      rw [((requestFields_eq_ok_iff hverb).mp hfields).2]
      rfl
    rw [Object.newType_address, Object.ofPayload_address (Or.inl rfl) hfamily,
      ofPayload?_eq hverb hfields hsize]
  constructor
  · rintro ⟨fields, hfields, hsize, htold⟩
    rw [hread hfields hsize] at htold
    obtain ⟨hlabel, rfl⟩ := (requestFields_eq_ok_iff hverb).mp hfields
    obtain ⟨read, hmap, rfl⟩ := Object.demand_eq_ok_some_iff.mp htold
    obtain ⟨label, hlabelled, rfl⟩ := Option.map_eq_some_iff.mp hmap
    exact ⟨hlabel, oversizedAmong?_request_iff.mp hsize, label, hlabelled, rfl⟩
  · rintro ⟨hlabel, hfits, label, hlabelled, rfl⟩
    have hfields := (requestFields_eq_ok_iff hverb).mpr ⟨hlabel, rfl⟩
    have hsize := oversizedAmong?_request_iff.mpr hfits
    refine ⟨_, hfields, hsize, ?_⟩
    rw [hread hfields hsize, hlabelled]
    rfl

end Address

namespace Route

theorem oversizedAmong?_request (r : Route) (verb : Verb) :
    Field.oversizedAmong? (.raw (r.requestHead verb).toBytes ::
      (r.requestAttrs verb).map Field.ofAttribute) = none := by
  have hip (kind : UInt16) (ip : Ip) :
      Field.oversized? (Field.ofAttribute ⟨kind, ip.toBytes⟩) = none := by
    cases ip <;> rfl
  have hidentity : ∀ attr ∈ r.identityAttrs, Field.oversized? (Field.ofAttribute attr) = none := by
    intro attr hattr
    simp only [identityAttrs, List.cons_append, List.mem_cons, List.mem_append] at hattr
    rcases hattr with rfl | hattr | rfl | hattr
    · rfl
    · split at hattr
      · rw [List.mem_singleton.mp hattr]
        exact hip _ _
      · exact absurd hattr (by simp)
    · rfl
    · exact absurd hattr (by simp)
  have hhops : ∀ attr ∈ r.hopAttrs, Field.oversized? (Field.ofAttribute attr) = none := by
    intro attr hattr
    simp only [hopAttrs, List.mem_append] at hattr
    rcases hattr with (hattr | hattr) | hattr
    · split at hattr
      · exact absurd hattr (by simp)
      · rw [List.mem_singleton.mp hattr]
        rfl
    · obtain ⟨ip, -, rfl⟩ := List.mem_map.mp hattr
      exact hip _ _
    · obtain ⟨ip, -, rfl⟩ := List.mem_map.mp hattr
      exact hip _ _
  rw [Field.oversizedAmong?_eq_none_iff]
  intro field hfield
  rcases List.mem_cons.mp hfield with rfl | hfield
  · rfl
  obtain ⟨attr, hattr, rfl⟩ := List.mem_map.mp hfield
  rcases List.mem_append.mp hattr with hattr | hattr
  · exact hidentity attr hattr
  · split at hattr
    · exact absurd hattr (by simp)
    · exact hhops attr hattr

theorem readsAs_iff {r : Route} {verb : Verb} (hverb : verb ≠ .delete) {told : Object} :
    (Object.route r).ReadsAs verb told ↔
      (∀ gateway, r.gateway = some gateway → gateway.isV6 = r.isV6) ∧ r.kind = unicast ∧
        ∃ gateway source, readHop? r.destination.family r.gateway = some gateway ∧
          readHop? r.destination.family r.source = some source ∧
          told = .route { r with
            destination := r.destination.mask r.length
            metric := r.effectiveMetric
            gateway, source
            scope := r.requestScope verb
            flags := 0 } := by
  have hread {fields : List Field} (hfields : r.requestFields verb = .ok fields) (object : Object) :
      Object.ofPayload (Object.route r).kind.newType (Field.encodeAll fields) = .ok (some object) ↔
        ∃ read, ofPayload? (Field.encodeAll fields) = some read ∧ read.isTracked = true ∧
          object = .route read := by
    have hfamily : (Field.encodeAll fields).headD 0 = r.destination.family := by
      rw [(requestFields_eq_ok_iff.mp hfields).2]
      rfl
    rw [Object.newType_route, Object.ofPayload_route (Or.inl rfl) hfamily]
  constructor
  · rintro ⟨fields, hfields, hsize, htold⟩
    obtain ⟨read, hpayload, htracked, rfl⟩ := (hread hfields told).mp htold
    rw [ofPayload?_eq hverb hfields hsize] at hpayload
    obtain ⟨gateway, hgateway, hpayload⟩ := Option.bind_eq_some_iff.mp hpayload
    obtain ⟨source, hsource, rfl⟩ := Option.map_eq_some_iff.mp hpayload
    refine ⟨(requestFields_eq_ok_iff.mp hfields).1, ?_, gateway, source, hgateway, hsource, rfl⟩
    simp only [isTracked, Bool.and_eq_true, beq_iff_eq] at htracked
    exact htracked.1
  · rintro ⟨hfamilies, hkind, gateway, source, hgateway, hsource, rfl⟩
    have hfields : r.requestFields verb = .ok _ := requestFields_eq_ok_iff.mpr ⟨hfamilies, rfl⟩
    have hsize := oversizedAmong?_request r verb
    refine ⟨_, hfields, hsize, (hread hfields _).mpr ⟨_, ?_, ?_, rfl⟩⟩
    · rw [ofPayload?_eq hverb hfields hsize, hgateway, Option.bind_some, hsource]
      rfl
    · simp [isTracked, hkind]

end Route

namespace Discipline

theorem readsAs_iff {d : Discipline} {verb : Verb} (hverb : verb ≠ .delete) {told : Object} :
    (Object.discipline d).ReadsAs verb told ↔
      Field.oversizedAmong? (d.requestFields verb) = none ∧
        ∃ kind options, Value.string (Text.Utf8.encode d.kind ++ [0]) = .ok kind ∧
          readOptions kind d.content? = some options ∧
          told = .discipline { d with kind, options } := by
  have hread (hsize : Field.oversizedAmong? (d.requestFields verb) = none) :
      Object.ofPayload (Object.discipline d).kind.newType
        (Field.encodeAll (d.requestFields verb)) = Object.demand
          (Object.unread TrafficHead.size (Field.encodeAll (d.requestFields verb))) .discipline
          ((Value.string (Text.Utf8.encode d.kind ++ [0])).toOption.bind fun kind =>
            (readOptions kind d.content?).map fun options => { d with kind, options }) :=
    congrArg (Object.demand _ .discipline) (ofPayload?_eq hverb hsize)
  constructor
  · rintro ⟨fields, hfields, hsize, htold⟩
    rw [← Except.ok.inj hfields] at hsize htold
    rw [hread hsize] at htold
    obtain ⟨read, hmap, rfl⟩ := Object.demand_eq_ok_some_iff.mp htold
    obtain ⟨kind, hkind, hmap⟩ := Option.bind_eq_some_iff.mp hmap
    obtain ⟨options, hoptions, rfl⟩ := Option.map_eq_some_iff.mp hmap
    exact ⟨hsize, kind, options, Value.eq_ok_of_toOption hkind, hoptions, rfl⟩
  · rintro ⟨hsize, kind, options, hkind, hoptions, rfl⟩
    refine ⟨_, rfl, hsize, ?_⟩
    rw [hread hsize, hkind]
    simp only [Except.toOption, Option.bind_some, hoptions]
    rfl

end Discipline

namespace Filter

theorem readsAs_iff {f : Filter} {verb : Verb} (hverb : verb ≠ .delete) {told : Object} :
    (Object.filter f).ReadsAs verb told ↔ ∃ options, f.optionFields = .ok options ∧
      Field.oversizedAmong? (Field.string TrafficHead.kindAttr f.kind :: options) = none ∧
        ∃ kind action, Value.string (Text.Utf8.encode f.kind ++ [0]) = .ok kind ∧
          readAction kind f.content? = some action ∧ told = .filter { f with kind, action } := by
  have hread {fields : List Field} (hfields : f.requestFields verb = .ok fields)
      (hsize : Field.oversizedAmong? fields = none) :
      Object.ofPayload (Object.filter f).kind.newType (Field.encodeAll fields) =
        Object.demand (Object.unread TrafficHead.size (Field.encodeAll fields)) .filter
          ((Value.string (Text.Utf8.encode f.kind ++ [0])).toOption.bind fun kind =>
            (readAction kind f.content?).map fun action => { f with kind, action }) :=
    congrArg (Object.demand _ .filter) (ofPayload?_eq hverb hfields hsize)
  constructor
  · rintro ⟨fields, hfields, hsize, htold⟩
    rw [hread hfields hsize] at htold
    obtain ⟨options, hoptions, rfl⟩ := requestFields_eq_ok_of_ne hverb hfields
    obtain ⟨read, hmap, rfl⟩ := Object.demand_eq_ok_some_iff.mp htold
    obtain ⟨kind, hkind, hmap⟩ := Option.bind_eq_some_iff.mp hmap
    obtain ⟨action, haction, rfl⟩ := Option.map_eq_some_iff.mp hmap
    exact ⟨options, hoptions, Field.oversizedAmong?_of_subset (List.subset_cons_self _ _) hsize,
      kind, action, Value.eq_ok_of_toOption hkind, haction, rfl⟩
  · rintro ⟨options, hoptions, hsize, kind, action, hkind, haction, rfl⟩
    have hfields : f.requestFields verb = .ok (.raw f.head.toBytes ::
        Field.string TrafficHead.kindAttr f.kind :: options) := by
      rw [requestFields, if_neg fun hflush => hverb hflush.1]
      simp only [if_neg hverb, hoptions]
      rfl
    refine ⟨_, hfields, hsize, ?_⟩
    rw [hread hfields hsize, hkind]
    simp only [Except.toOption, Option.bind_some, haction]
    rfl

end Filter

end NetState
