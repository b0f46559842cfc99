import NetState.Proofs.Attribute
import NetState.Proofs.Object.Address
import NetState.Proofs.Object.Link

namespace NetState

namespace LinkKind

/-- The kind that messages tell of a link of some kind. -/
def told : LinkKind → LinkKind
  | unknown => ethernet
  | kind => kind

theorem read_kernelName {kind : LinkKind} {name : String} (h : kind.kernelName? = some name) :
    (Value.string (Text.Utf8.encode name ++ [0])).toOption = some name ∧
      ofKernelName name = kind ∧ kind ≠ .unknown := by
  cases kind <;> simp only [kernelName?, Option.some.injEq, reduceCtorEq] at h <;> subst h <;>
    exact ⟨by decide +kernel, by decide +kernel, by decide⟩

theorem told_eq (kind : LinkKind) :
    (if kind.kernelName?.isSome then kind else ofHardwareType kind.hardwareType) = kind.told := by
  cases kind <;> rfl

theorem told_ne_unknown (kind : LinkKind) : kind.told ≠ .unknown := by
  cases kind <;> decide

theorem exists_kernelName {kind : LinkKind} (h : kind.isCreatable = true) :
    ∃ name, kind.kernelName? = some name := by
  cases kind <;> simp only [isCreatable, Bool.false_eq_true] at h <;> exact ⟨_, rfl⟩

end LinkKind

theorem LinkState.ofNumber_number (state : LinkState) : ofNumber state.number = state := by
  cases state <;> rfl

namespace Link

variable {link start : Link}

theorem readAttribute_name {name text : String}
    (h : Value.string (Text.Utf8.encode name ++ [0]) = .ok text) (start : Link) :
    start.readAttribute (Field.string nameAttr name).asAttribute =
      some { start with name := text } := by
  rw [Field.string, Field.asAttribute_leaf (by decide), readAttribute, if_pos rfl, h]
  rfl

theorem foldlM_mtu (mtu : Option UInt32) (start : Link) :
    ((optionalWord mtuAttr mtu).map Field.asAttribute).foldlM readAttribute start =
      some { start with mtu := mtu.or start.mtu } := by
  cases mtu with
  | none => rfl
  | some value =>
      have hname : ¬mtuAttr = nameAttr := by decide
      show ([(Field.u32 mtuAttr value).asAttribute].foldlM readAttribute start) = _
      rw [Field.u32, Field.asAttribute_leaf (by decide), List.foldlM_cons, readAttribute,
        if_neg hname, if_pos rfl, Value.u32_ofUInt32]
      rfl

theorem foldlM_lower (lower : Option UInt32) (start : Link) :
    ((optionalWord lowerAttr lower).map Field.asAttribute).foldlM readAttribute start =
      some { start with lower := lower.or start.lower } := by
  cases lower with
  | none => rfl
  | some value =>
      have hothers : ¬lowerAttr = nameAttr ∧ ¬lowerAttr = mtuAttr := by decide
      show ([(Field.u32 lowerAttr value).asAttribute].foldlM readAttribute start) = _
      rw [Field.u32, Field.asAttribute_leaf (by decide), List.foldlM_cons, readAttribute,
        if_neg hothers.1, if_neg hothers.2, if_pos rfl, Value.u32_ofUInt32]
      rfl

theorem readAttribute_state (state : LinkState) (start : Link) :
    start.readAttribute (Field.u8 stateAttr state.number).asAttribute =
      some { start with state } := by
  have hothers : ¬stateAttr = nameAttr ∧ ¬stateAttr = mtuAttr ∧ ¬stateAttr = lowerAttr := by decide
  rw [Field.u8, Field.asAttribute_leaf (by decide), readAttribute, if_neg hothers.1,
    if_neg hothers.2.1, if_neg hothers.2.2, if_pos rfl]
  show some { start with state := LinkState.ofNumber state.number } = _
  rw [LinkState.ofNumber_number]

theorem infoData_eq_ok {data : List Field} (h : link.infoData = .ok data) :
    data = [] ∧ link.kind ≠ .vlan ∨
      (∃ id, link.kind = .vlan ∧ link.vlanId = some id ∧
        data = [.nest infoDataAttr [Field.u16 vlanIdAttr id]]) ∨
      ∃ fields, link.kind ≠ .vlan ∧ data = [.nest infoDataAttr fields] := by
  rw [infoData] at h
  split at h
  · rename_i hkind
    split at h
    · rename_i id hid
      exact Or.inr (Or.inl ⟨id, hkind, hid, (Except.ok.inj h).symm⟩)
    · exact absurd h (by simp)
  · rename_i hkind
    rw [← Except.ok.inj h]
    cases link.peer with
    | none => exact Or.inl ⟨rfl, by rw [hkind]; decide⟩
    | some peer => exact Or.inr (Or.inr ⟨_, by rw [hkind]; decide, rfl⟩)
  · rename_i hvlan _
    exact Or.inl ⟨(Except.ok.inj h).symm, hvlan⟩

theorem foldlM_readInfoAttribute {kind seen : LinkKind} {name : String}
    (hname : kind.kernelName? = some name) {data : List Field} {content : Option Bytes}
    (hdata : data = [] ∧ content = none ∨
      ∃ fields, data = [.nest infoDataAttr fields] ∧ content = some (Field.encodeAll fields)) :
    ((Field.string infoKindAttr name :: data).map Field.asAttribute).foldlM readInfoAttribute
      (seen, none) = some (kind, content) := by
  obtain ⟨hread, hkind, hknown⟩ := LinkKind.read_kernelName hname
  have hfirst : readInfoAttribute (seen, none) (Field.string infoKindAttr name).asAttribute =
      some (kind, none) := by
    rw [Field.string, Field.asAttribute_leaf (by decide), readInfoAttribute, if_pos rfl, hread,
      Option.map_some, hkind]
    simp only [hknown, if_false]
  rw [List.map_cons, List.foldlM_cons, hfirst]
  rcases hdata with ⟨rfl, rfl⟩ | ⟨fields, rfl, rfl⟩
  · rfl
  · have hother : ¬infoDataAttr = infoKindAttr := by decide
    show ([(Field.nest infoDataAttr fields).asAttribute].foldlM readInfoAttribute (kind, none)) = _
    rw [Field.asAttribute_nest (by decide), List.foldlM_cons, readInfoAttribute, if_neg hother,
      if_pos rfl]
    rfl

theorem readInfo_of_ne {payload : Bytes} {attrs : List Attribute} {kind : LinkKind}
    {content : Option Bytes} (hattrs : Attribute.readAll? payload = some attrs)
    (hfold : attrs.foldlM readInfoAttribute (start.kind, none) = some (kind, content))
    (hkind : kind ≠ .vlan) : start.readInfo payload = some { start with kind } := by
  rw [readInfo, hattrs]
  simp only [Option.bind_eq_bind, Option.bind_some, hfold]
  split
  · exact absurd rfl hkind
  · rfl

theorem readInfo_of_vlan {payload : Bytes} {attrs : List Attribute} {id : UInt16}
    (hattrs : Attribute.readAll? payload = some attrs)
    (hfold : attrs.foldlM readInfoAttribute (start.kind, none) =
      some (.vlan, some (Field.encodeAll [Field.u16 vlanIdAttr id]))) :
    start.readInfo payload = some { start with kind := .vlan, vlanId := some id } := by
  have hdata : Attribute.readAll? (Field.encodeAll [Field.u16 vlanIdAttr id]) =
      some [⟨vlanIdAttr, Bytes.ofUInt16 id⟩] :=
    Attribute.readAll?_encodeAll (by simp [Field.u16, Field.IsAttribute]) rfl
  have hid : Value.u16 (Bytes.ofUInt16 id) = .ok id := by
    show Except.ok (UInt16.ofNat (Bytes.ofLittleEndian (Bytes.ofUInt16 id))) = _
    rw [Bytes.toUInt16_ofUInt16]
  rw [readInfo, hattrs]
  simp only [Option.bind_eq_bind, Option.bind_some, hfold, hdata]
  rw [List.foldlM_cons, readVlanAttribute, if_pos rfl, hid]
  rfl

theorem readInfo_info {name : String} {data : List Field}
    (hname : link.kind.kernelName? = some name) (hdata : link.infoData = .ok data)
    (hsize : Field.oversizedAmong? (Field.string infoKindAttr name :: data) = none) (start : Link) :
    start.readInfo (Field.encodeAll (Field.string infoKindAttr name :: data)) =
      some { start with
        kind := link.kind
        vlanId := if link.kind = .vlan then link.vlanId else start.vlanId } := by
  have hform := infoData_eq_ok hdata
  have hattrs : ∀ field ∈ Field.string infoKindAttr name :: data, field.IsAttribute := by
    rcases hform with ⟨rfl, -⟩ | ⟨id, -, -, rfl⟩ | ⟨inner, -, rfl⟩ <;>
      simp [Field.string, Field.IsAttribute]
  have hread := Attribute.readAll?_encodeAll hattrs hsize
  rcases hform with ⟨rfl, hkind⟩ | ⟨id, hkind, hid, rfl⟩ | ⟨inner, hkind, rfl⟩
  · rw [if_neg hkind, readInfo_of_ne hread
      (foldlM_readInfoAttribute hname (Or.inl ⟨rfl, rfl⟩)) hkind]
  · have hfold := @foldlM_readInfoAttribute _ start.kind _ hname _ _
      (Or.inr ⟨[Field.u16 vlanIdAttr id], rfl, rfl⟩)
    rw [hkind] at hfold
    rw [if_pos hkind, hid, readInfo_of_vlan hread hfold, hkind]
  · rw [if_neg hkind, readInfo_of_ne hread
      (foldlM_readInfoAttribute hname (Or.inr ⟨inner, rfl, rfl⟩)) hkind]

theorem foldlM_info {fields : List Field} (hinfo : link.info = .ok fields)
    (hsize : Field.oversizedAmong? fields = none) (start : Link) :
    (fields.map Field.asAttribute).foldlM readAttribute start =
      some { start with
        kind := if link.kind.kernelName?.isSome then link.kind else start.kind
        vlanId := if link.kind = .vlan then link.vlanId else start.vlanId } := by
  rcases info_eq_ok_iff.mp hinfo with ⟨hname, rfl⟩ | ⟨name, data, hname, hdata, rfl⟩
  · have hkind : link.kind ≠ .vlan := by
      intro hvlan
      rw [hvlan] at hname
      exact absurd hname (by simp [LinkKind.kernelName?])
    rw [hname, if_neg hkind]
    rfl
  · rw [Field.oversizedAmong?, Option.or_eq_none_iff, Field.oversized?,
      Option.or_eq_none_iff] at hsize
    have hothers : ¬infoAttr = nameAttr ∧ ¬infoAttr = mtuAttr ∧ ¬infoAttr = lowerAttr ∧
      ¬infoAttr = stateAttr := by decide
    show ([(Field.nest infoAttr _).asAttribute].foldlM readAttribute start) = _
    rw [Field.asAttribute_nest (by decide), List.foldlM_cons, readAttribute, if_neg hothers.1,
      if_neg hothers.2.1, if_neg hothers.2.2.1, if_neg hothers.2.2.2, if_pos rfl,
      readInfo_info hname hdata hsize.1.1, hname]
    rfl

theorem foldlM_words (mtu lower : Option UInt32) (hmtu : start.mtu = none)
    (hlower : start.lower = none) :
    ((optionalWord mtuAttr mtu ++ optionalWord lowerAttr lower).map Field.asAttribute).foldlM
      readAttribute start = some { start with mtu, lower } := by
  have hread := Attribute.foldlM_append_some (foldlM_mtu mtu start) (foldlM_lower lower _)
  simp only [← List.map_append, hmtu, hlower, Option.or_none] at hread
  exact hread

theorem isAttribute_optionalWord {kind : UInt16} {value : Option UInt32} {field : Field}
    (h : field ∈ optionalWord kind value) : field.IsAttribute := by
  obtain ⟨word, -, rfl⟩ := List.mem_map.mp h
  trivial

theorem isAttribute_info {fields : List Field} (hinfo : link.info = .ok fields) :
    ∀ field ∈ fields, field.IsAttribute := by
  rcases info_eq_ok_iff.mp hinfo with ⟨-, rfl⟩ | ⟨kernelName, data, -, -, rfl⟩
  · simp
  · simp [Field.IsAttribute]

def nameFields (link : Link) : List Field :=
  if link.name = "" then [] else [Field.string nameAttr link.name]

/-- Whether a text is what is read where the name of a link was written, if it has one. -/
def ReadsName (link : Link) (text : String) : Prop :=
  if link.name = "" then text = ""
  else Value.string (Text.Utf8.encode link.name ++ [0]) = .ok text

theorem foldlM_name {text : String} (h : link.ReadsName text) (hstart : start.name = "") :
    (link.nameFields.map Field.asAttribute).foldlM readAttribute start =
      some { start with name := text } := by
  rw [ReadsName] at h
  rw [nameFields]
  split at h
  · rename_i hempty
    rw [if_pos hempty, h, ← hstart]
    rfl
  · rename_i hname
    rw [if_neg hname]
    show ([(Field.string nameAttr link.name).asAttribute].foldlM readAttribute start) = _
    rw [List.foldlM_cons, readAttribute_name h]
    rfl

theorem isAttribute_name {field : Field} (h : field ∈ link.nameFields) : field.IsAttribute := by
  rw [nameFields] at h
  split at h
  · exact absurd h (by simp)
  · rw [List.mem_singleton.mp h]
    trivial

def settingHead (link : Link) : LinkHead :=
  ⟨0, 0, link.index, link.flags &&& upFlag, upFlag⟩

theorem requestFields_create {fields : List Field} (h : link.requestFields .create = .ok fields) :
    link.kind.isCreatable = true ∧ ∃ info, link.info = .ok info ∧
      fields = .raw link.settingHead.toBytes :: (link.nameFields ++ optionalWord mtuAttr link.mtu ++
        optionalWord lowerAttr link.lower ++ info) := by
  rw [requestFields] at h
  simp only [reduceCtorEq, if_false, if_true] at h
  split at h
  · exact absurd h (by simp [throw, throwThe, MonadExceptOf.throw, bind, Except.bind])
  · rename_i hkind
    rw [Bool.not_eq_true', Bool.not_eq_false] at hkind
    obtain ⟨info, hinfo, h⟩ := bind_eq_ok_iff.mp h
    exact ⟨hkind, info, hinfo, (Except.ok.inj h).symm⟩

theorem requestFields_change (link : Link) :
    link.requestFields .change = .ok (.raw link.settingHead.toBytes ::
      (link.nameFields ++ optionalWord mtuAttr link.mtu)) :=
  rfl

theorem ofPayload?_of_foldlM {head : LinkHead} {fields : List Field} {read : Link}
    (hattrs : ∀ field ∈ fields, field.IsAttribute) (hsize : Field.oversizedAmong? fields = none)
    (hread : (fields.map Field.asAttribute).foldlM readAttribute (started head) = some read)
    (hkind : head.hardwareType = LinkKind.bareType → read.kind ≠ .unknown) :
    ofPayload? (Field.encodeAll (.raw head.toBytes :: fields)) = some read :=
  ofPayload?_eq_some_iff.mpr ⟨_, read, Attribute.readAll?_encodeAll hattrs hsize, hread,
    (if_neg fun h => hkind h.1 h.2).symm⟩

theorem ofPayload?_create {fields : List Field} {text : String}
    (hfields : link.requestFields .create = .ok fields)
    (hsize : Field.oversizedAmong? fields = none) (hname : link.ReadsName text) :
    ofPayload? (Field.encodeAll fields) = some
      { new text link.kind with
        index := link.index
        flags := link.flags &&& upFlag
        mtu := link.mtu
        lower := link.lower
        vlanId := if link.kind = .vlan then link.vlanId else none } := by
  obtain ⟨hkind, info, hinfo, rfl⟩ := requestFields_create hfields
  obtain ⟨kernelName, hkernel⟩ := LinkKind.exists_kernelName hkind
  have hattrs : ∀ field ∈ link.nameFields ++ optionalWord mtuAttr link.mtu ++
      optionalWord lowerAttr link.lower ++ info, field.IsAttribute := by
    simp only [List.mem_append]
    rintro field (((h | h) | h) | h)
    · exact isAttribute_name h
    · exact isAttribute_optionalWord h
    · exact isAttribute_optionalWord h
    · exact isAttribute_info hinfo field h
  have hinner : Field.oversizedAmong? info = none :=
    Field.oversizedAmong?_of_subset
      (fun _ h => List.mem_cons_of_mem _ (List.mem_append_right _ h)) hsize
  have hstart : (started link.settingHead).name = "" := rfl
  have hread := Attribute.foldlM_append_some
    (Attribute.foldlM_append_some (foldlM_name hname hstart)
    (foldlM_words link.mtu link.lower rfl rfl)) (foldlM_info hinfo hinner _)
  simp only [← List.map_append, ← List.append_assoc, hkernel, Option.isSome_some, if_true] at hread
  exact ofPayload?_of_foldlM hattrs hsize hread
    fun h => absurd h (show ¬(0 : UInt16) = LinkKind.bareType by decide)

theorem ofPayload?_change {text : String}
    (hsize : Field.oversizedAmong? (.raw link.settingHead.toBytes ::
      (link.nameFields ++ optionalWord mtuAttr link.mtu)) = none) (hname : link.ReadsName text) :
    ofPayload? (Field.encodeAll (.raw link.settingHead.toBytes ::
        (link.nameFields ++ optionalWord mtuAttr link.mtu))) = some
      { new text .unknown with
        index := link.index
        flags := link.flags &&& upFlag
        mtu := link.mtu } := by
  have hattrs : ∀ field ∈ link.nameFields ++ optionalWord mtuAttr link.mtu, field.IsAttribute := by
    simp only [List.mem_append]
    rintro field (h | h)
    · exact isAttribute_name h
    · exact isAttribute_optionalWord h
  have hstart : (started link.settingHead).name = "" := rfl
  have hread := Attribute.foldlM_append_some (foldlM_name hname hstart) (foldlM_mtu link.mtu _)
  rw [← List.map_append] at hread
  simp only [show (started link.settingHead).mtu = none from rfl, Option.or_none] at hread
  exact ofPayload?_of_foldlM hattrs hsize hread
    fun h => absurd h (show ¬(0 : UInt16) = LinkKind.bareType by decide)

theorem ofPayload?_kernel {fields : List Field} {text : String}
    (hfields : link.kernelFields = .ok fields) (hsize : Field.oversizedAmong? fields = none)
    (hname : Value.string (Text.Utf8.encode link.name ++ [0]) = .ok text) :
    ofPayload? (Field.encodeAll fields) = some
      { link with
        name := text
        kind := link.kind.told
        vlanId := if link.kind = .vlan then link.vlanId else none
        peer := none } := by
  obtain ⟨info, hinfo, rfl⟩ := kernelFields_eq_ok hfields
  have hattrs : ∀ field ∈ Field.string nameAttr link.name :: (optionalWord mtuAttr link.mtu ++
      optionalWord lowerAttr link.lower ++ Field.u8 stateAttr link.state.number :: info),
        field.IsAttribute := by
    simp only [List.mem_cons, List.mem_append]
    rintro field (rfl | (h | h) | rfl | h)
    · trivial
    · exact isAttribute_optionalWord h
    · exact isAttribute_optionalWord h
    · trivial
    · exact isAttribute_info hinfo field h
  have hinner : Field.oversizedAmong? info = none :=
    Field.oversizedAmong?_of_subset (fun _ h => List.mem_cons_of_mem _ (List.mem_cons_of_mem _
      (List.mem_append_right _ (List.mem_cons_of_mem _ h)))) hsize
  have hstate : ((Field.u8 stateAttr link.state.number :: info).map Field.asAttribute).foldlM
      readAttribute
          { started link.kernelHead with name := text, mtu := link.mtu, lower := link.lower } =
        some { link with
          name := text
          kind := link.kind.told
          vlanId := if link.kind = .vlan then link.vlanId else none
          peer := none } := by
    rw [List.map_cons, List.foldlM_cons, readAttribute_state, ← link.kind.told_eq]
    exact foldlM_info hinfo hinner _
  have hread := Attribute.foldlM_append_some
    (@foldlM_words { started link.kernelHead with name := text } link.mtu
    link.lower rfl rfl) hstate
  rw [← List.map_append] at hread
  have hall := Attribute.foldlM_cons_some (readAttribute_name hname (started link.kernelHead)) hread
  rw [← List.map_cons] at hall
  exact ofPayload?_of_foldlM hattrs hsize hall fun _ => link.kind.told_ne_unknown

end Link

namespace Address

variable {address : Address}

def readLabel? : Option String → Option (Option String)
  | none => some none
  | some label => (Value.string (Text.Utf8.encode label ++ [0])).toOption.map some

theorem foldlM_label (family : UInt8) (start : Partial) (label : Option String) :
    (label.toList.map fun label => (⟨labelAttr, Text.Utf8.encode label ++ [0]⟩ : Attribute)).foldlM
        (readAttribute family) start =
      (readLabel? label).map fun label => { start with label := label.or start.label } := by
  cases label with
  | none => rfl
  | some label =>
      have hothers : ¬labelAttr = localAttr ∧ ¬labelAttr = ipAttr := by decide
      rw [Option.toList_some, List.map_singleton, List.foldlM_cons, readAttribute,
        if_neg hothers.1, if_neg hothers.2, if_pos rfl, readLabel?]
      cases (Value.string (Text.Utf8.encode label ++ [0])).toOption <;> rfl

theorem foldlM_flags (family : UInt8) (start : Partial) {flags : UInt32}
    (hstart : start.flags = flags.toUInt8.toUInt32) :
    (if 0xFF < flags then [(⟨flagsAttr, Bytes.ofUInt32 flags⟩ : Attribute)] else []).foldlM
      (readAttribute family) start = some { start with flags } := by
  split
  · have hothers : ¬flagsAttr = localAttr ∧ ¬flagsAttr = ipAttr ∧ ¬flagsAttr = labelAttr := by
      decide
    rw [List.foldlM_cons, readAttribute, if_neg hothers.1, if_neg hothers.2.1, if_neg hothers.2.2,
      if_pos rfl, Value.u32_ofUInt32]
    rfl
  · rename_i hsmall
    have hflags : flags.toUInt8.toUInt32 = flags := by
      refine UInt32.toNat_inj.mp ?_
      rw [UInt8.toNat_toUInt32, UInt32.toNat_toUInt8]
      have : flags.toNat ≤ 255 := UInt32.le_iff_toNat_le.mp (UInt32.not_lt.mp hsmall)
      omega
    rw [← hflags, ← hstart]
    rfl

theorem foldlM_lifetimes (family : UInt8) {start : Partial}
    (hstart : start.validFor = forever ∧ start.preferredFor = forever) :
    (if address.validFor = forever ∧ address.preferredFor = forever then []
      else [(⟨lifetimeAttr, address.lifetimeBytes⟩ : Attribute)]).foldlM
        (readAttribute family) start =
      some { start with validFor := address.validFor, preferredFor := address.preferredFor } := by
  split
  · rename_i hlasting
    obtain ⟨own, other, label, flags, validFor, preferredFor⟩ := start
    obtain ⟨rfl, rfl⟩ := hstart
    rw [hlasting.1, hlasting.2]
    rfl
  · have hothers : ¬lifetimeAttr = localAttr ∧ ¬lifetimeAttr = ipAttr ∧ ¬lifetimeAttr = labelAttr ∧
        ¬lifetimeAttr = flagsAttr := by
      decide
    have hoctets : Bytes.split? lifetimeSize address.lifetimeBytes =
        some (address.lifetimeBytes, []) :=
      Bytes.split?_eq_some_iff.mpr ⟨rfl, (List.append_nil _).symm⟩
    have hpreferred : Bytes.u32At address.lifetimeBytes 0 = address.preferredFor := by
      rw [lifetimeBytes, List.append_assoc]
      exact Bytes.u32At_ofUInt32 _ _
    have hvalid : Bytes.u32At address.lifetimeBytes 4 = address.validFor :=
      Bytes.toUInt32_ofUInt32 address.validFor
    rw [List.foldlM_cons, readAttribute, if_neg hothers.1, if_neg hothers.2.1,
      if_neg hothers.2.2.1, if_neg hothers.2.2.2, if_pos rfl, hoctets, Option.map_some]
    show some { start with
      validFor := Bytes.u32At address.lifetimeBytes 4
      preferredFor := Bytes.u32At address.lifetimeBytes 0 } = _
    rw [hpreferred, hvalid]

theorem foldlM_detailAttrs (address : Address) (family : UInt8) (start : Partial)
    (hflags : start.flags = address.flags.toUInt8.toUInt32)
    (hlifetimes : start.validFor = forever ∧ start.preferredFor = forever) :
    address.detailAttrs.foldlM (readAttribute family) start =
      (readLabel? address.label).map fun label =>
        { start with
          label := label.or start.label
          flags := address.flags
          validFor := address.validFor
          preferredFor := address.preferredFor } := by
  rw [detailAttrs, List.foldlM_append, List.foldlM_append, foldlM_label]
  cases readLabel? address.label with
  | none => rfl
  | some label =>
      have hrest := foldlM_flags family { start with label := label.or start.label } hflags
      rw [Option.map_some, Option.bind_eq_bind, Option.bind_some, hrest]
      exact foldlM_lifetimes family hlifetimes

theorem ofPayload?_eq {verb : Verb} (hverb : verb ≠ .delete) {fields : List Field}
    (hfields : address.requestFields verb = .ok fields)
    (hsize : Field.oversizedAmong? fields = none) :
    ofPayload? (Field.encodeAll fields) = (readLabel? address.label).map fun label =>
      { address with label, scope := some (address.scope.getD 0) } := by
  obtain ⟨-, rfl⟩ := (requestFields_eq_ok_iff hverb).mp hfields
  have hattrs := Attribute.readAll?_ofAttribute
    (unmarked_identityAttrs fun _ => kind_of_mem_detailAttrs) hsize
  obtain ⟨own, other, hidentity, htells⟩ := exists_foldlM_identityAttrs address.ip
    (started address.requestHead)
  have hfold : (identityAttrs address.ip ++ address.detailAttrs).foldlM
      (readAttribute address.ip.family) (started address.requestHead) =
        (readLabel? address.label).map fun label => (⟨own, other, label.or none, address.flags,
          address.validFor, address.preferredFor⟩ : Partial) := by
    rw [List.foldlM_append, hidentity]
    exact foldlM_detailAttrs address _ _ rfl ⟨rfl, rfl⟩
  cases hlabel : readLabel? address.label with
  | none =>
      rw [hlabel] at hfold
      refine Option.eq_none_iff_forall_ne_some.mpr fun image himage => ?_
      obtain ⟨attrs, seen, ip, hall, hseen, -⟩ := ofPayload?_eq_some_iff.mp himage
      rw [← Option.some.inj (hattrs.symm.trans hall)] at hseen
      exact absurd (hfold.symm.trans hseen) (by simp)
  | some label =>
      rw [hlabel] at hfold
      refine ofPayload?_eq_some_iff.mpr ⟨_, _, _, hattrs, hfold, htells rfl, ?_⟩
      show _ = Address.mk _ _ _ (label.or none) _ _ _ _
      rw [Option.or_none]
      rfl

end Address
end NetState
