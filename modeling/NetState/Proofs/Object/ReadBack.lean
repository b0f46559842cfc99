import NetState.Proofs.Object.Reading
import NetState.Proofs.Text

namespace NetState

theorem Attribute.find?_encodeAll {fields : List Field} (h : ∀ field ∈ fields, field.IsAttribute)
    (hsize : Field.oversizedAmong? fields = none) (kind : UInt16) :
    find? kind (Field.encodeAll fields) =
      ((fields.map Field.asAttribute).find? (·.kind == kind)).map (·.payload) := by
  rw [find?, scan_encodeAll h hsize]

namespace Action

variable {action : Action}

/-- The action with its text as far as it is read. -/
def told : Action → Action
  | simple data => simple (Text.untilZero data)
  | action => action

theorem told_eq_self_iff : action.told = action ↔
    ∀ data, action = simple data → Text.ZeroFree data := by
  cases action with
  | simple data =>
      simp only [told, simple.injEq, Text.untilZero_eq_self_iff]
      exact ⟨fun h _ hdata => hdata ▸ h, fun h => h data rfl⟩
  | _ => simp [told]

theorem isAttribute_optionFields : ∀ field ∈ action.optionFields, field.IsAttribute := by
  cases action <;> simp [optionFields, Field.string, Field.IsAttribute]

theorem readParameters_encodeAll {size : Nat} {octets : Bytes} (hlength : octets.length = size)
    (hsize : Field.oversizedAmong? [.leaf parametersAttr octets] = none) :
    readParameters size (Field.encodeAll [.leaf parametersAttr octets]) = some octets := by
  have hsplit : Bytes.split? size octets = some (octets, []) :=
    Bytes.split?_eq_some_iff.mpr ⟨hlength, List.append_nil _⟩
  rw [readParameters, Attribute.find?_encodeAll (by simp [Field.IsAttribute]) hsize,
    List.map_singleton, Field.asAttribute_leaf (by decide)]
  exact congrArg (Option.map Prod.fst) hsplit

theorem readKind_optionFields (hsize : Field.oversizedAmong? action.optionFields = none) :
    readKind action.kindName (Field.encodeAll action.optionFields) = some (some action.told) := by
  cases action with
  | simple data =>
      have htext : readText dataAttr (Field.encodeAll (simple data).optionFields) =
          some (Text.untilZero data) := by
        rw [readText, Attribute.find?_encodeAll isAttribute_optionFields hsize]
        show (Value.string (Text.Utf8.encode data ++ [0])).toOption = _
        rw [Value.string_encode]
        rfl
      rw [readKind, kindName, if_pos rfl, htext]
      rfl
  | gact verdict =>
      have hverdict : Bytes.i32At (actionParameters verdict) 8 = verdict :=
        Bytes.i32At_ofInt32 verdict _
      rw [readKind, kindName, if_neg (by decide), if_pos rfl]
      show Option.map _ (readParameters parametersSize
        (Field.encodeAll [.leaf parametersAttr (actionParameters verdict)])) = _
      have hlength : (actionParameters verdict).length = parametersSize := rfl
      rw [readParameters_encodeAll hlength hsize, Option.map_some, hverdict]
      rfl
  | mirred ingress redirect interface =>
      rw [readKind, kindName, if_neg (by decide), if_neg (by decide), if_pos rfl, optionFields,
        readParameters_encodeAll (by cases redirect <;> rfl) hsize, Option.map_some]
      cases ingress <;> cases redirect <;>
        exact congrArg (fun index => some (some (mirred _ _ index)))
          (Bytes.toUInt32_ofUInt32 interface)

theorem ofTable_tableFields (hsize : Field.oversizedAmong? action.tableFields = none) :
    ofTable (Field.encodeAll action.tableFields) = some (some action.told) := by
  have hslot : Field.oversizedAmong?
      [Field.string kindAttr action.kindName, .nest optionsAttr action.optionFields] = none := by
    rw [tableFields, Field.oversizedAmong?, Option.or_eq_none_iff, Field.oversized?,
      Option.or_eq_none_iff] at hsize
    exact hsize.1.1
  have hoptions : Field.oversizedAmong? action.optionFields = none := by
    have hnest := Field.oversizedAmong?_eq_none_iff.mp hslot (.nest optionsAttr action.optionFields)
      (by simp)
    exact (Option.or_eq_none_iff.mp hnest).1
  have hattrs : ∀ field ∈ [Field.string kindAttr action.kindName,
      .nest optionsAttr action.optionFields], field.IsAttribute := by
    simp [Field.string, Field.IsAttribute]
  have hkind : readText kindAttr (Field.encodeAll [Field.string kindAttr action.kindName,
      .nest optionsAttr action.optionFields]) = some action.kindName := by
    have hplain : Text.untilZero action.kindName = action.kindName := by
      cases action <;> exact Text.untilZero_eq_self_iff.mpr (by simp [Text.ZeroFree, kindName])
    rw [readText, Attribute.find?_encodeAll hattrs hslot]
    show (Value.string (Text.Utf8.encode action.kindName ++ [0])).toOption = _
    rw [Value.string_encode, hplain]
    rfl
  have hfound : Attribute.find? optionsAttr (Field.encodeAll
      [Field.string kindAttr action.kindName, .nest optionsAttr action.optionFields]) =
        some (Field.encodeAll action.optionFields) := by
    rw [Attribute.find?_encodeAll hattrs hslot]
    rfl
  rw [ofTable, Attribute.scan_encodeAll (by simp [tableFields, Field.IsAttribute]) hsize]
  show (readText kindAttr (Field.encodeAll _)).bind (fun kind =>
    readKind kind ((Attribute.find? optionsAttr (Field.encodeAll _)).getD [])) = _
  rw [hkind, Option.bind_some, hfound]
  exact readKind_optionFields hoptions

end Action

namespace Filter

theorem readAction_content? {f : Filter} {options : List Field} (h : f.optionFields = .ok options)
    (hsize : Field.oversizedAmong? options = none) :
    readAction f.kind f.content? = some (f.action.map Action.told) := by
  rw [optionFields] at h
  rw [content?]
  split at h
  · rename_i haction
    simp only [haction, Option.bind_none, readAction, Option.map_none]
    cases actionAttr? f.kind <;> rfl
  · rename_i action haction
    split at h
    · rename_i attr hattr
      rw [← Except.ok.inj h] at hsize
      have htable : Field.oversizedAmong? [.nest attr action.tableFields] = none := by
        rw [Field.oversizedAmong?, Option.or_eq_none_iff, Field.oversized?,
          Option.or_eq_none_iff] at hsize
        exact hsize.1.1
      have hunmarked : Attribute.unmarked (Field.nestKind attr) = attr := by
        rw [actionAttr?] at hattr
        split at hattr
        · rw [← Option.some.inj hattr]
          decide
        split at hattr
        · rw [← Option.some.inj hattr]
          decide
        · exact absurd hattr (by simp)
      have hfound : Attribute.find? attr (Field.encodeAll [.nest attr action.tableFields]) =
          some (Field.encodeAll action.tableFields) := by
        rw [Attribute.find?_encodeAll (by simp [Field.IsAttribute]) htable, List.map_singleton,
          Field.asAttribute_nest hunmarked]
        simp
      simp only [haction, Option.bind_some, hattr, Option.map_some, readAction, hfound]
      exact Action.ofTable_tableFields (Option.or_eq_none_iff.mp
        (Option.or_eq_none_iff.mp htable).1).1
    · exact absurd h (by simp)

end Filter

namespace Discipline

/-- Options as they are read: empty ones that are not understood are none. -/
def toldOptions : DisciplineOptions → DisciplineOptions
  | .raw [] => .none
  | options => options

theorem readOptions_told {d : Discipline} (hvalid : d.validate = .ok ()) {verb : Verb}
    (hverb : verb ≠ .delete) (hsize : Field.oversizedAmong? (d.requestFields verb) = none)
    (hraw : ∀ octets, d.options = .raw octets → d.kind ≠ fairQueueKind) :
    readOptions d.kind d.content? = some (toldOptions d.options) := by
  have hfit := optionsFit_of_validate hvalid
  rw [content?]
  cases hoptions : d.options with
  | none => rfl
  | fairQueue params =>
      rw [hoptions] at hfit
      have hkind : d.kind = fairQueueKind := by simpa [optionsFit] using hfit
      have hplain : plainKinds.contains d.kind = false := by
        rw [hkind]
        decide
      have hnest : Field.nest TrafficHead.optionsAttr params.fields ∈ d.requestFields verb := by
        rw [requestFields, if_neg hverb, hoptions]
        simp
      have hinner : Field.oversizedAmong? params.fields = none :=
        (Option.or_eq_none_iff.mp (Field.oversizedAmong?_eq_none_iff.mp hsize _ hnest)).1
      simp only [readOptions, hplain, Bool.false_eq_true, if_false, if_pos hkind,
        FairQueue.ofPayload?_encodeAll hinner]
      rfl
  | raw octets =>
      rw [hoptions] at hfit
      have hplain : plainKinds.contains d.kind = false := by
        rw [optionsFit, Bool.not_eq_true'] at hfit
        exact hfit
      simp only [readOptions, hplain, Bool.false_eq_true, if_false, if_neg (hraw octets hoptions)]
      cases octets <;> rfl

end Discipline

theorem Address.readLabel?_eq (label : Option String) :
    readLabel? label = some (label.map Text.untilZero) := by
  cases label with
  | none => rfl
  | some label =>
      rw [readLabel?, Value.string_encode]
      rfl

theorem Value.isV6_of_ip {family read : Ip} {payload : Bytes}
    (h : ip family.family payload = .ok read) : read.isV6 = family.isV6 := by
  cases family with
  | v4 bits =>
      rw [ip, if_pos (show (Ip.v4 bits).family = Ip.inet from rfl)] at h
      obtain ⟨octets, -, rfl⟩ := map_eq_ok_iff.mp h
      rfl
  | v6 bits =>
      have hother : ¬(Ip.v6 bits).family = Ip.inet := by
        show ¬Ip.inet6 = Ip.inet
        decide
      rw [ip, if_neg hother, if_pos (show (Ip.v6 bits).family = Ip.inet6 from rfl)] at h
      obtain ⟨octets, -, rfl⟩ := map_eq_ok_iff.mp h
      rfl

theorem Route.readHop?_eq_self_iff {family : Ip} {hop : Option Ip} :
    readHop? family.family hop = some hop ↔ ∀ ip, hop = some ip → ip.isV6 = family.isV6 := by
  cases hop with
  | none => simp [readHop?]
  | some ip =>
      rw [readHop?]
      constructor
      · intro h other hother
        rw [← Option.some.inj hother]
        obtain ⟨read, hread, hsame⟩ := Option.map_eq_some_iff.mp h
        rw [Option.some.inj hsame] at hread
        exact Value.isV6_of_ip (Value.eq_ok_of_toOption hread)
      · intro h
        have hversion := h ip rfl
        have hfamily : family.family = ip.family := by
          cases family <;> cases ip <;> first | rfl | exact absurd hversion (by simp [Ip.isV6])
        rw [hfamily, Value.ip_toBytes]
        rfl

end NetState
