import NetState.Link.Wire
import NetState.Proofs.Text
import NetState.Proofs.Wire

namespace NetState

namespace Link

theorem read_toBytes (head : LinkHead) : LinkHead.read head.toBytes = head := by
  have htype : head.toBytes.u16At 2 = head.hardwareType :=
    Bytes.toUInt16_ofUInt16 head.hardwareType
  have hindex : head.toBytes.u32At 4 = head.index := Bytes.toUInt32_ofUInt32 head.index
  have hflags : head.toBytes.u32At 8 = head.flags := Bytes.toUInt32_ofUInt32 head.flags
  have hchange : head.toBytes.u32At 12 = head.change := Bytes.toUInt32_ofUInt32 head.change
  rw [LinkHead.read, htype, hindex, hflags, hchange]
  rfl

theorem index_readInfo {link after : Link} {payload : Bytes}
    (h : link.readInfo payload = some after) : after.index = link.index := by
  rw [readInfo] at h
  obtain ⟨attrs, -, h⟩ := Option.bind_eq_some_iff.mp h
  obtain ⟨⟨kind, data⟩, -, h⟩ := Option.bind_eq_some_iff.mp h
  simp only at h
  split at h
  · obtain ⟨inner, -, h⟩ := Option.bind_eq_some_iff.mp h
    refine (Attribute.foldlM_keeps ?_ h).trans rfl
    intro attr _ seen after hread
    rw [readVlanAttribute] at hread
    split at hread
    · obtain ⟨id, -, rfl⟩ := Option.map_eq_some_iff.mp hread
      rfl
    · rw [Option.some.inj hread]
  · rw [← Option.some.inj h]

theorem index_readAttribute {link after : Link} {attr : Attribute}
    (h : link.readAttribute attr = some after) : after.index = link.index := by
  rw [readAttribute] at h
  split at h
  · obtain ⟨name, -, rfl⟩ := Option.map_eq_some_iff.mp h
    rfl
  split at h
  · obtain ⟨mtu, -, rfl⟩ := Option.map_eq_some_iff.mp h
    rfl
  split at h
  · obtain ⟨lower, -, rfl⟩ := Option.map_eq_some_iff.mp h
    rfl
  split at h
  · obtain ⟨state, -, rfl⟩ := Option.map_eq_some_iff.mp h
    rfl
  split at h
  · exact index_readInfo h
  · rw [Option.some.inj h]

def started (head : LinkHead) : Link :=
  { new "" (.ofHardwareType head.hardwareType) with index := head.index, flags := head.flags }

theorem ofPayload?_eq_some_iff {head : LinkHead} {fields : List Field} {link : Link} :
    ofPayload? (Field.encodeAll (.raw head.toBytes :: fields)) = some link ↔
      ∃ attrs read, Attribute.readAll? (Field.encodeAll fields) = some attrs ∧
        attrs.foldlM readAttribute (started head) = some read ∧
        link = if head.hardwareType = LinkKind.bareType ∧ read.kind = .unknown then
          { read with kind := .tun } else read := by
  have hsplit : Bytes.split? LinkHead.size (Field.encodeAll (.raw head.toBytes :: fields)) =
      some (head.toBytes, Field.encodeAll fields) :=
    Field.split?_encodeAll head.toBytes ⟨4, rfl⟩ fields
  rw [ofPayload?, hsplit]
  show ((Attribute.readAll? (Field.encodeAll fields)).bind fun attrs =>
    (attrs.foldlM readAttribute _).bind fun read => _) = some link ↔ _
  rw [read_toBytes]
  constructor
  · intro h
    obtain ⟨attrs, hattrs, h⟩ := Option.bind_eq_some_iff.mp h
    obtain ⟨read, hread, h⟩ := Option.bind_eq_some_iff.mp h
    refine ⟨attrs, read, hattrs, hread, ?_⟩
    split at h
    · rename_i hbare
      rw [if_pos hbare]
      exact (Option.some.inj h).symm
    · rename_i hbare
      rw [if_neg hbare]
      exact (Option.some.inj h).symm
  · rintro ⟨attrs, read, hattrs, hread, rfl⟩
    rw [hattrs, Option.bind_some]
    refine Option.bind_eq_some_iff.mpr ⟨read, hread, ?_⟩
    split <;> rfl

theorem index_of_ofPayload? {head : LinkHead} {fields : List Field} {link : Link}
    (h : ofPayload? (Field.encodeAll (.raw head.toBytes :: fields)) = some link) :
    link.index = head.index := by
  obtain ⟨attrs, read, -, hread, rfl⟩ := ofPayload?_eq_some_iff.mp h
  have hindex : read.index = head.index :=
    (Attribute.foldlM_keeps (fun _ _ => index_readAttribute) hread).trans rfl
  split
  · exact hindex
  · exact hindex

theorem info_eq_ok_iff {link : Link} {fields : List Field} :
    link.info = .ok fields ↔ (link.kind.kernelName? = none ∧ fields = []) ∨
      ∃ kernelName data, link.kind.kernelName? = some kernelName ∧ link.infoData = .ok data ∧
        fields = [.nest infoAttr (Field.string infoKindAttr kernelName :: data)] := by
  rw [info]
  cases link.kind.kernelName? with
  | none => simp [eq_comm]
  | some kernelName =>
      rw [bind_eq_ok_iff]
      simp [pure, Except.pure, eq_comm]

def kernelHead (link : Link) : LinkHead :=
  ⟨0, link.kind.hardwareType, link.index, link.flags, 0⟩

theorem kernelFields_eq_ok {link : Link} {fields : List Field}
    (h : link.kernelFields = .ok fields) :
    ∃ info, link.info = .ok info ∧ fields = .raw link.kernelHead.toBytes ::
      Field.string nameAttr link.name :: (optionalWord mtuAttr link.mtu ++
        optionalWord lowerAttr link.lower ++ Field.u8 stateAttr link.state.number :: info) := by
  rw [kernelFields] at h
  obtain ⟨info, hinfo, h⟩ := bind_eq_ok_iff.mp h
  exact ⟨info, hinfo, (Except.ok.inj h).symm⟩

def deleteHead (link : Link) : LinkHead :=
  ⟨0, 0, link.index, 0, 0⟩

theorem requestFields_delete (link : Link) :
    link.requestFields .delete = .ok (.raw link.deleteHead.toBytes ::
      if link.name = "" then [] else [Field.string nameAttr link.name]) := rfl

theorem exists_name_of_ofPayload? {head : LinkHead} {name : String} {fields : List Field}
    {link : Link} (hsize : Field.oversized? (Field.string nameAttr name) = none)
    (h : ofPayload? (Field.encodeAll (.raw head.toBytes :: Field.string nameAttr name :: fields)) =
      some link) :
    ∃ text, Value.string (Text.Utf8.encode name ++ [0]) = .ok text := by
  obtain ⟨attrs, read, hattrs, hread, -⟩ := ofPayload?_eq_some_iff.mp h
  rw [Field.encodeAll, Field.string, Attribute.readAll?_leaf rfl hsize] at hattrs
  obtain ⟨others, -, rfl⟩ := Option.map_eq_some_iff.mp hattrs
  rw [List.foldlM_cons] at hread
  obtain ⟨first, hfirst, -⟩ := Option.bind_eq_some_iff.mp hread
  rw [readAttribute, if_pos rfl] at hfirst
  exact Value.exists_string_of_map hfirst

theorem exists_ofPayload?_delete {link : Link} {fields : List Field}
    (hfields : link.requestFields .delete = .ok fields)
    (hsize : Field.oversizedAmong? fields = none) :
    ∃ read, ofPayload? (Field.encodeAll fields) = some read := by
  rw [requestFields_delete] at hfields
  obtain rfl := Except.ok.inj hfields
  by_cases hname : link.name = ""
  · rw [if_pos hname]
    exact ⟨_, ofPayload?_eq_some_iff.mpr ⟨[], _, Attribute.readAll?_nil, rfl, rfl⟩⟩
  · rw [if_neg hname] at hsize ⊢
    have hfits : Field.oversized? (Field.string nameAttr link.name) = none :=
      Field.oversizedAmong?_eq_none_iff.mp hsize _ (List.mem_cons_of_mem _ List.mem_cons_self)
    have hattrs : Attribute.readAll? (Field.encodeAll [Field.string nameAttr link.name]) =
        some [⟨nameAttr, Text.Utf8.encode link.name ++ [0]⟩] := by
      rw [Field.encodeAll, Field.string, Attribute.readAll?_leaf rfl hfits, Field.encodeAll,
        Attribute.readAll?_nil]
      rfl
    have hread : [Attribute.mk nameAttr (Text.Utf8.encode link.name ++ [0])].foldlM readAttribute
        (started link.deleteHead) =
          some { started link.deleteHead with name := Text.untilZero link.name } := by
      rw [List.foldlM_cons, readAttribute, if_pos rfl, Value.string_encode]
      rfl
    exact ⟨_, ofPayload?_eq_some_iff.mpr ⟨_, _, hattrs, hread, rfl⟩⟩

theorem atMost_optionalWord (kind : UInt16) (value : Option UInt32) :
    Field.AtMost 1 (optionalWord kind value) := by
  cases value with
  | none => exact ⟨Nat.zero_le _, by simp [optionalWord]⟩
  | some word => exact ⟨Nat.le_refl _, by simp [optionalWord, Field.u32]⟩

theorem atMost_info {link : Link} {fields : List Field} (h : link.info = .ok fields) :
    Field.AtMost 1 fields := by
  rcases info_eq_ok_iff.mp h with ⟨-, rfl⟩ | ⟨kernelName, data, -, -, rfl⟩
  · exact ⟨Nat.zero_le _, by simp⟩
  · exact ⟨Nat.le_refl _, by simp⟩

theorem atMost_name (name : String) : Field.AtMost 1 [Field.string nameAttr name] :=
  ⟨Nat.le_refl _, by simp [Field.string]⟩

theorem atMost_kernelFields {link : Link} {fields : List Field}
    (h : link.kernelFields = .ok fields) : Field.AtMost 16 fields := by
  obtain ⟨info, hinfo, rfl⟩ := kernelFields_eq_ok h
  have hown : Field.AtMost 1 [Field.u8 stateAttr link.state.number] :=
    ⟨Nat.le_refl 1, by simp [Field.u8]⟩
  have hstate := Field.atMost_append hown (atMost_info hinfo)
  have hrest := Field.atMost_append (atMost_name link.name) (Field.atMost_append
    (Field.atMost_append (atMost_optionalWord mtuAttr link.mtu)
      (atMost_optionalWord lowerAttr link.lower)) hstate)
  exact (Field.atMost_cons_raw link.kernelHead.toBytes (show _ = LinkHead.size from rfl) (by decide)
    hrest).mono (by decide)

theorem atMost_requestFields {link : Link} {verb : Verb} {fields : List Field}
    (h : link.requestFields verb = .ok fields) : Field.AtMost 16 fields := by
  have hname : Field.AtMost 1
      (if link.name = "" then [] else [Field.string nameAttr link.name]) := by
    split
    · exact ⟨Nat.zero_le _, by simp⟩
    · exact atMost_name link.name
  have hraw {count : Nat} {more : List Field} (head : LinkHead) (hmore : Field.AtMost count more)
      (hcount : count + 1 ≤ 16) : Field.AtMost 16 (.raw head.toBytes :: more) :=
    (Field.atMost_cons_raw head.toBytes (show _ = LinkHead.size from rfl) (by decide)
      hmore).mono hcount
  have hmtu := Field.atMost_append hname (atMost_optionalWord mtuAttr link.mtu)
  rw [requestFields] at h
  simp only at h
  split at h
  · rw [← Except.ok.inj h]
    exact hraw _ hname (by decide)
  · split at h
    · split at h
      · exact absurd h (by simp [throw, throwThe, MonadExceptOf.throw, bind, Except.bind])
      · obtain ⟨info, hinfo, h⟩ := bind_eq_ok_iff.mp h
        rw [← Except.ok.inj h]
        exact hraw _ (Field.atMost_append (Field.atMost_append hmtu
          (atMost_optionalWord lowerAttr link.lower)) (atMost_info hinfo)) (by decide)
    · rw [← Except.ok.inj h]
      exact hraw _ hmtu (by decide)

end Link

end NetState
