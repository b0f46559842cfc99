import NetState.Filter.Wire
import NetState.Proofs.Text
import NetState.Proofs.Wire

namespace NetState

namespace TrafficHead

theorem read_toBytes (head : TrafficHead) : read head.toBytes = head := by
  have hinterface : head.toBytes.u32At 4 = head.interface :=
    Bytes.toUInt32_ofUInt32 head.interface
  have hhandle : head.toBytes.u32At 8 = head.handle.raw := Bytes.toUInt32_ofUInt32 head.handle.raw
  have hparent : head.toBytes.u32At 12 = head.parent.raw := Bytes.toUInt32_ofUInt32 head.parent.raw
  have hinfo : head.toBytes.u32At 16 = head.info := Bytes.toUInt32_ofUInt32 head.info
  rw [read, hinterface, hhandle, hparent, hinfo]
  rfl

theorem ofPayload?_encodeAll (head : TrafficHead) (fields : List Field) :
    ofPayload? (Field.encodeAll (.raw head.toBytes :: fields)) =
      (Attribute.readAll? (Field.encodeAll fields)).bind fun attrs =>
        (attrs.foldlM readAttribute ("", none)).map fun told => (head, told) := by
  have hsplit : Bytes.split? size (Field.encodeAll (.raw head.toBytes :: fields)) =
      some (head.toBytes, Field.encodeAll fields) :=
    Field.split?_encodeAll head.toBytes ⟨5, rfl⟩ fields
  rw [ofPayload?, hsplit]
  show ((Attribute.readAll? (Field.encodeAll fields)).bind fun attrs =>
    (attrs.foldlM readAttribute ("", none)).bind fun told =>
      some (read head.toBytes, told)) = _
  rw [read_toBytes]
  simp only [Option.map_eq_bind]
  rfl

theorem head_of_ofPayload? {head seen : TrafficHead} {fields : List Field}
    {told : String × Option Bytes}
    (h : ofPayload? (Field.encodeAll (.raw head.toBytes :: fields)) = some (seen, told)) :
    seen = head := by
  rw [ofPayload?_encodeAll] at h
  obtain ⟨attrs, -, h⟩ := Option.bind_eq_some_iff.mp h
  obtain ⟨told, -, h⟩ := Option.map_eq_some_iff.mp h
  exact (congrArg Prod.fst h).symm

theorem ofPayload?_string {head : TrafficHead} {kind : String}
    (hsize : Field.oversizedAmong? [.raw head.toBytes, Field.string kindAttr kind] = none) :
    ofPayload? (Field.encodeAll [.raw head.toBytes, Field.string kindAttr kind]) =
      some (head, Text.untilZero kind, none) := by
  have hfits : Field.oversized? (Field.string kindAttr kind) = none :=
    Field.oversizedAmong?_eq_none_iff.mp hsize _ (List.mem_cons_of_mem _ List.mem_cons_self)
  rw [ofPayload?_encodeAll, Field.encodeAll, Field.string, Attribute.readAll?_leaf rfl hfits,
    Field.encodeAll, Attribute.readAll?_nil, Option.map_some, Option.bind_some, List.foldlM_cons,
    readAttribute, if_pos rfl, Value.string_encode]
  rfl

theorem kind_of_ofPayload? {head : TrafficHead} {kind name : String} {options : List Field}
    (hoptions : options = [] ∨ (∃ octets, options = [.leaf optionsAttr octets]) ∨
      ∃ fields, options = [.nest optionsAttr fields])
    (hsize : Field.oversizedAmong? (Field.string kindAttr kind :: options) = none)
    (hname : Value.string (Text.Utf8.encode kind ++ [0]) = .ok name)
    {read : TrafficHead × String × Option Bytes}
    (h : ofPayload? (Field.encodeAll (.raw head.toBytes :: Field.string kindAttr kind :: options)) =
      some read) : read.2.1 = name := by
  rw [Field.oversizedAmong?, Option.or_eq_none_iff] at hsize
  have hothers : ∃ others : List Attribute, (∀ attr ∈ others, attr.kind = optionsAttr) ∧
      Attribute.readAll? (Field.encodeAll options) = some others := by
    rcases hoptions with rfl | ⟨octets, rfl⟩ | ⟨fields, rfl⟩
    · exact ⟨[], by simp, Attribute.readAll?_nil⟩
    · rw [Field.oversizedAmong?, Option.or_eq_none_iff] at hsize
      refine ⟨[⟨optionsAttr, octets⟩], by simp, ?_⟩
      rw [Field.encodeAll, Attribute.readAll?_leaf rfl hsize.2.1, Field.encodeAll,
        Attribute.readAll?_nil]
      rfl
    · rw [Field.oversizedAmong?, Option.or_eq_none_iff] at hsize
      obtain ⟨hfits, hencode⟩ := Field.encode_nest hsize.2.1
      refine ⟨[⟨optionsAttr, Field.encodeAll fields⟩], by simp, ?_⟩
      rw [Field.encodeAll, hencode, Attribute.readAll?_marked hfits, Field.encodeAll,
        Attribute.readAll?_nil]
      rfl
  obtain ⟨others, hkinds, hread⟩ := hothers
  rw [ofPayload?_encodeAll, Field.encodeAll, Field.string, Attribute.readAll?_leaf rfl hsize.1,
    hread, Option.map_some, Option.bind_some, List.foldlM_cons, readAttribute, if_pos rfl,
    hname] at h
  obtain ⟨told, htold, rfl⟩ := Option.map_eq_some_iff.mp h
  obtain ⟨first, hfirst, hrest⟩ := Option.bind_eq_some_iff.mp htold
  have hkept : told.1 = first.1 := by
    refine Attribute.foldlM_keeps ?_ hrest
    intro attr hattr seen after hseen
    rw [readAttribute, if_neg (by rw [hkinds attr hattr]; decide), if_pos (hkinds attr hattr)]
      at hseen
    rw [← Option.some.inj hseen]
  rw [← Option.some.inj hfirst] at hkept
  exact hkept

end TrafficHead

namespace Discipline

def head (discipline : Discipline) : TrafficHead :=
  ⟨0, discipline.interface, discipline.handle, discipline.parent, 0⟩

theorem requestFields_eq (discipline : Discipline) (verb : Verb) :
    ∃ more : List Field, (verb = .delete → more = []) ∧ Field.AtMost 1 more ∧
      discipline.requestFields verb = .raw discipline.head.toBytes ::
        Field.string TrafficHead.kindAttr discipline.kind :: more := by
  rw [requestFields]
  by_cases hverb : verb = .delete
  · exact ⟨[], fun _ => rfl, ⟨Nat.zero_le _, by simp⟩, if_pos hverb⟩
  · refine ⟨_, fun h => absurd h hverb, ?_, if_neg hverb⟩
    split
    · exact ⟨Nat.zero_le _, by simp⟩
    · exact ⟨Nat.le_refl _, by simp⟩
    · exact ⟨Nat.le_refl _, by simp⟩

theorem atMost_traffic {head : TrafficHead} {kind : String} {more : List Field}
    (h : Field.AtMost 1 more) : Field.AtMost 16
      (.raw head.toBytes :: Field.string TrafficHead.kindAttr kind :: more) := by
  have hkind : Field.AtMost 1 [Field.string TrafficHead.kindAttr kind] :=
    ⟨Nat.le_refl _, by simp [Field.string]⟩
  exact (Field.atMost_cons_raw head.toBytes (show _ = TrafficHead.size from rfl) (by decide)
    (Field.atMost_append hkind h)).mono (by decide)

theorem atMost_requestFields (discipline : Discipline) (verb : Verb) :
    Field.AtMost 16 (discipline.requestFields verb) := by
  obtain ⟨more, -, hmore, hform⟩ := requestFields_eq discipline verb
  rw [hform]
  exact atMost_traffic hmore

theorem head_of_ofPayload? {discipline image : Discipline} {fields : List Field}
    (h : ofPayload? (Field.encodeAll (.raw discipline.head.toBytes :: fields)) = some image) :
    image.interface = discipline.interface ∧ image.handle = discipline.handle ∧
      image.parent = discipline.parent := by
  rw [ofPayload?] at h
  obtain ⟨⟨head, told⟩, hread, h⟩ := Option.bind_eq_some_iff.mp h
  obtain ⟨options, -, h⟩ := Option.bind_eq_some_iff.mp h
  rw [TrafficHead.head_of_ofPayload? hread] at h
  rw [← Option.some.inj h]
  exact ⟨rfl, rfl, rfl⟩

theorem kind_of_ofPayload? {discipline image : Discipline}
    (hname : Value.string (Text.Utf8.encode discipline.kind ++ [0]) = .ok discipline.kind)
    (hsize : Field.oversizedAmong? (discipline.requestFields .change) = none)
    (h : ofPayload? (Field.encodeAll (discipline.requestFields .change)) = some image) :
    image.kind = discipline.kind := by
  have hform : ∃ options : List Field, (options = [] ∨
      (∃ octets, options = [.leaf TrafficHead.optionsAttr octets]) ∨
        ∃ fields, options = [.nest TrafficHead.optionsAttr fields]) ∧
      discipline.requestFields .change = .raw discipline.head.toBytes ::
        Field.string TrafficHead.kindAttr discipline.kind :: options := by
    rw [requestFields]
    cases discipline.options with
    | none => exact ⟨_, Or.inl rfl, rfl⟩
    | fairQueue params => exact ⟨_, Or.inr (Or.inr ⟨_, rfl⟩), rfl⟩
    | raw octets => exact ⟨_, Or.inr (Or.inl ⟨_, rfl⟩), rfl⟩
  obtain ⟨options, hoptions, hfields⟩ := hform
  rw [hfields] at hsize h
  rw [ofPayload?] at h
  obtain ⟨read, hread, h⟩ := Option.bind_eq_some_iff.mp h
  have hkind := TrafficHead.kind_of_ofPayload? hoptions hsize hname hread
  obtain ⟨told, -, h⟩ := Option.bind_eq_some_iff.mp h
  rw [← Option.some.inj h]
  exact hkind

end Discipline

namespace Filter

theorem toNat_swapped (word : UInt16) :
    (swapped word).toNat = word.toNat % 256 * 256 + word.toNat / 256 := by
  have hlow : word.toNat / 256 < 2 ^ 8 := by
    have := word.toNat_lt
    omega
  have hshift : word.toNat * 256 % 65536 = word.toNat % 256 * 256 := by omega
  rw [swapped, UInt16.toNat_or, UInt16.toNat_shiftLeft, UInt16.toNat_shiftRight]
  show word.toNat <<< 8 % 2 ^ 16 ||| word.toNat >>> 8 = _
  rw [Nat.shiftLeft_eq, Nat.shiftRight_eq_div_pow]
  show word.toNat * 256 % 65536 ||| word.toNat / 256 = _
  have hor := Nat.shiftLeft_add_eq_or_of_lt hlow (word.toNat % 256)
  rw [Nat.shiftLeft_eq] at hor
  rw [hshift]
  exact hor.symm

theorem swapped_swapped (word : UInt16) : swapped (swapped word) = word := by
  have hword := word.toNat_lt
  rw [← UInt16.toNat_inj, toNat_swapped, toNat_swapped]
  omega

theorem toNat_info (filter : Filter) :
    filter.info.toNat = filter.priority.toNat * 65536 + (swapped filter.protocol).toNat := by
  have hpriority := filter.priority.toNat_lt
  have hprotocol : (swapped filter.protocol).toNat < 2 ^ 16 := (swapped filter.protocol).toNat_lt
  have hshift : filter.priority.toNat * 65536 % 2 ^ 32 = filter.priority.toNat * 65536 := by
    omega
  have hor := Nat.shiftLeft_add_eq_or_of_lt hprotocol filter.priority.toNat
  rw [Nat.shiftLeft_eq] at hor
  rw [info, UInt32.toNat_or, UInt32.toNat_shiftLeft, UInt16.toNat_toUInt32, UInt16.toNat_toUInt32]
  show filter.priority.toNat <<< 16 % 2 ^ 32 ||| (swapped filter.protocol).toNat = _
  rw [Nat.shiftLeft_eq, hshift]
  exact hor.symm

theorem priority_info (filter : Filter) : (filter.info >>> 16).toUInt16 = filter.priority := by
  have hpriority := filter.priority.toNat_lt
  have hprotocol := (swapped filter.protocol).toNat_lt
  rw [← UInt16.toNat_inj, UInt32.toNat_toUInt16, UInt32.toNat_shiftRight, toNat_info]
  show (filter.priority.toNat * 65536 + (swapped filter.protocol).toNat) >>> 16 % 2 ^ 16 = _
  rw [Nat.shiftRight_eq_div_pow]
  omega

theorem protocol_info (filter : Filter) : swapped filter.info.toUInt16 = filter.protocol := by
  have hinfo : filter.info.toUInt16 = swapped filter.protocol := by
    have hprotocol := (swapped filter.protocol).toNat_lt
    rw [← UInt16.toNat_inj, UInt32.toNat_toUInt16, toNat_info]
    omega
  rw [hinfo, swapped_swapped]

theorem atMost_optionFields {filter : Filter} {fields : List Field}
    (h : filter.optionFields = .ok fields) : Field.AtMost 1 fields := by
  rw [optionFields] at h
  split at h
  · rw [← Except.ok.inj h]
    exact ⟨Nat.zero_le _, by simp⟩
  · split at h
    · rw [← Except.ok.inj h]
      exact ⟨Nat.le_refl _, by simp⟩
    · exact absurd h (by simp)

theorem requestFields_eq_ok {filter : Filter} {verb : Verb} {fields : List Field}
    (hpriority : verb = .delete → filter.priority ≠ 0)
    (h : filter.requestFields verb = .ok fields) :
    ∃ more : List Field, Field.AtMost 1 more ∧ fields = .raw filter.head.toBytes ::
      Field.string TrafficHead.kindAttr filter.kind :: more := by
  rw [requestFields] at h
  simp only at h
  split at h
  · rename_i hflush
    exact absurd hflush.2 (hpriority hflush.1)
  · split at h
    · exact ⟨[], ⟨Nat.zero_le _, by simp⟩, (Except.ok.inj h).symm⟩
    · obtain ⟨options, hoptions, h⟩ := bind_eq_ok_iff.mp h
      exact ⟨options, atMost_optionFields hoptions, (Except.ok.inj h).symm⟩

theorem requestFields_delete {filter : Filter} (h : filter.priority ≠ 0) :
    filter.requestFields .delete =
      .ok [.raw filter.head.toBytes, Field.string TrafficHead.kindAttr filter.kind] := by
  rw [requestFields, if_neg (fun hflush => h hflush.2)]
  rfl

theorem head_of_ofPayload? {filter image : Filter} {fields : List Field}
    (h : ofPayload? (Field.encodeAll (.raw filter.head.toBytes :: fields)) = some image) :
    image.interface = filter.interface ∧ image.handle = filter.handle ∧
      image.parent = filter.parent ∧ image.priority = filter.priority ∧
      image.protocol = filter.protocol := by
  rw [ofPayload?] at h
  obtain ⟨⟨head, told⟩, hread, h⟩ := Option.bind_eq_some_iff.mp h
  obtain ⟨action, -, h⟩ := Option.bind_eq_some_iff.mp h
  rw [TrafficHead.head_of_ofPayload? hread] at h
  rw [← Option.some.inj h]
  exact ⟨rfl, rfl, rfl, filter.priority_info, filter.protocol_info⟩

theorem atMost_requestFields {filter : Filter} {verb : Verb} {fields : List Field}
    (h : filter.requestFields verb = .ok fields) : Field.AtMost 16 fields := by
  by_cases hflush : verb = .delete ∧ filter.priority = 0
  · rw [requestFields, if_pos hflush] at h
    rw [← Except.ok.inj h]
    exact (Field.atMost_cons_raw filter.flushHead.toBytes (show _ = TrafficHead.size from rfl)
      (by decide) ⟨Nat.le_refl 0, by simp⟩).mono (by decide)
  · have hpriority : verb = .delete → filter.priority ≠ 0 :=
      fun hverb hzero => hflush ⟨hverb, hzero⟩
    obtain ⟨more, hmore, rfl⟩ := requestFields_eq_ok hpriority h
    exact Discipline.atMost_traffic hmore

end Filter

end NetState
