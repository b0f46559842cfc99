import NetState.Proofs.Attribute
import NetState.Proofs.Object.Traffic

namespace NetState

namespace FairQueue

theorem foldlM_append_word {front : List Attribute} {start : FairQueue} {kind : UInt16}
    (put : FairQueue → Option UInt32 → FairQueue)
    (hfront : front.foldlM readAttribute unset = some start)
    (hkind : Attribute.unmarked kind = kind)
    (hread : ∀ value, readAttribute start ⟨kind, Bytes.ofUInt32 value⟩ =
      some (put start (some value)))
    (hstart : put start none = start) (value : Option UInt32) :
    (front ++ (value.toList.map (Field.u32 kind)).map Field.asAttribute).foldlM readAttribute
      unset = some (put start value) := by
  refine Attribute.foldlM_append_some hfront ?_
  cases value with
  | none => exact congrArg some hstart.symm
  | some value =>
      rw [Option.toList_some, List.map_singleton, List.map_singleton, Field.u32,
        Field.asAttribute_leaf hkind, List.foldlM_cons, hread]
      rfl

theorem readAttribute_word (start : FairQueue) (kind : UInt16) (value : UInt32) :
    readAttribute start ⟨kind, Bytes.ofUInt32 value⟩ = some
      (if kind = targetAttr then { start with target := some value }
      else if kind = limitAttr then { start with limit := some value }
      else if kind = intervalAttr then { start with interval := some value }
      else if kind = ecnAttr then { start with ecn := some (value != 0) }
      else if kind = flowsAttr then { start with flows := some value }
      else if kind = quantumAttr then { start with quantum := some value }
      else if kind = ceThresholdAttr then { start with ceThreshold := some value }
      else if kind = dropBatchAttr then { start with dropBatch := some value }
      else if kind = memoryLimitAttr then { start with memoryLimit := some value }
      else start) := by
  rw [readAttribute, Value.u32_ofUInt32]
  rfl

theorem isAttribute_fields {params : FairQueue} : ∀ field ∈ params.fields, field.IsAttribute := by
  have hword (kind : UInt16) (value : Option UInt32) :
      ∀ field ∈ value.toList.map (Field.u32 kind), field.IsAttribute := by
    intro field hfield
    obtain ⟨_, -, rfl⟩ := List.mem_map.mp hfield
    trivial
  intro field hfield
  simp only [fields, List.mem_append] at hfield
  rcases hfield with (((((((h | h) | h) | h) | h) | h) | h) | h) | h <;> exact hword _ _ field h

theorem ofPayload?_encodeAll {params : FairQueue}
    (hsize : Field.oversizedAmong? params.fields = none) :
    ofPayload? (Field.encodeAll params.fields) = some params := by
  rw [ofPayload?, Attribute.scan_encodeAll isAttribute_fields hsize]
  simp only [fields, List.map_append]
  have htarget := @foldlM_append_word [] unset _ (fun q target => { q with target }) rfl (by decide)
    (readAttribute_word _ targetAttr) rfl params.target
  have hlimit := foldlM_append_word (fun q limit => { q with limit }) htarget (by decide)
    (readAttribute_word _ limitAttr) rfl params.limit
  have hinterval := foldlM_append_word (fun q interval => { q with interval }) hlimit (by decide)
    (readAttribute_word _ intervalAttr) rfl params.interval
  have hecn := foldlM_append_word (fun q value => { q with ecn := value.map (· != 0) }) hinterval
    (by decide) (readAttribute_word _ ecnAttr) rfl (params.ecn.map fun ecn => if ecn then 1 else 0)
  have hflows := foldlM_append_word (fun q flows => { q with flows }) hecn (by decide)
    (readAttribute_word _ flowsAttr) rfl params.flows
  have hquantum := foldlM_append_word (fun q quantum => { q with quantum }) hflows (by decide)
    (readAttribute_word _ quantumAttr) rfl params.quantum
  have hceThreshold := foldlM_append_word (fun q ceThreshold => { q with ceThreshold }) hquantum
    (by decide) (readAttribute_word _ ceThresholdAttr) rfl params.ceThreshold
  have hdropBatch := foldlM_append_word (fun q dropBatch => { q with dropBatch }) hceThreshold
    (by decide) (readAttribute_word _ dropBatchAttr) rfl params.dropBatch
  have hmemoryLimit := foldlM_append_word (fun q memoryLimit => { q with memoryLimit }) hdropBatch
    (by decide) (readAttribute_word _ memoryLimitAttr) rfl params.memoryLimit
  have hecn : (params.ecn.map fun ecn => if ecn then (1 : UInt32) else 0).map (· != 0) =
      params.ecn := by
    cases params.ecn with
    | none => rfl
    | some ecn => cases ecn <;> rfl
  exact hmemoryLimit.trans (congrArg (fun ecn => some { params with ecn }) hecn)

end FairQueue

namespace TrafficHead

theorem ofPayload?_options {head : TrafficHead} {kind : String} {options : List Field}
    {content : Option Bytes}
    (hoptions : options = [] ∧ content = none ∨
      ∃ field octets, options = [field] ∧ content = some octets ∧ field.IsAttribute ∧
        field.asAttribute = ⟨optionsAttr, octets⟩)
    (hsize : Field.oversizedAmong? (Field.string kindAttr kind :: options) = none) :
    ofPayload? (Field.encodeAll (.raw head.toBytes :: Field.string kindAttr kind :: options)) =
      (Value.string (Text.Utf8.encode kind ++ [0])).toOption.map fun name =>
        (head, name, content) := by
  have hattrs : ∀ field ∈ Field.string kindAttr kind :: options, field.IsAttribute := by
    intro field hfield
    rcases hoptions with ⟨rfl, -⟩ | ⟨option, octets, rfl, -, hoption, -⟩
    · rw [List.mem_singleton.mp hfield]
      trivial
    · rcases List.mem_cons.mp hfield with rfl | hfield
      · trivial
      · rw [List.mem_singleton.mp hfield]
        exact hoption
  have hname : readAttribute ("", none) (Field.string kindAttr kind).asAttribute =
      (Value.string (Text.Utf8.encode kind ++ [0])).toOption.map fun name => (name, none) := by
    rw [Field.string, Field.asAttribute_leaf (by decide), readAttribute, if_pos rfl]
  rw [ofPayload?_encodeAll, Attribute.readAll?_encodeAll hattrs hsize, Option.bind_some,
    List.map_cons, List.foldlM_cons, hname]
  cases (Value.string (Text.Utf8.encode kind ++ [0])).toOption with
  | none => rfl
  | some name =>
      rcases hoptions with ⟨rfl, rfl⟩ | ⟨option, octets, rfl, rfl, -, hoption⟩
      · rfl
      · have hother : ¬optionsAttr = kindAttr := by decide
        show Option.map _ (List.foldlM readAttribute (name, none) [option.asAttribute]) = _
        rw [List.foldlM_cons, hoption, readAttribute, if_neg hother, if_pos rfl]
        rfl

end TrafficHead

namespace Discipline

def content? (discipline : Discipline) : Option Bytes :=
  match discipline.options with
  | .none => none
  | .fairQueue params => some (Field.encodeAll params.fields)
  | .raw octets => some octets

theorem ofPayload?_eq {discipline : Discipline} {verb : Verb} (hverb : verb ≠ .delete)
    (hsize : Field.oversizedAmong? (discipline.requestFields verb) = none) :
    ofPayload? (Field.encodeAll (discipline.requestFields verb)) =
      (Value.string (Text.Utf8.encode discipline.kind ++ [0])).toOption.bind fun kind =>
        (readOptions kind discipline.content?).map fun options =>
          { discipline with kind, options } := by
  obtain ⟨options, hfields, hoptions⟩ : ∃ options : List Field,
      discipline.requestFields verb = .raw discipline.head.toBytes ::
        Field.string TrafficHead.kindAttr discipline.kind :: options ∧
      (options = [] ∧ discipline.content? = none ∨
        ∃ field octets, options = [field] ∧ discipline.content? = some octets ∧
          field.IsAttribute ∧ field.asAttribute = ⟨TrafficHead.optionsAttr, octets⟩) := by
    rw [requestFields, content?, if_neg hverb]
    cases discipline.options with
    | none => exact ⟨_, rfl, Or.inl ⟨rfl, rfl⟩⟩
    | fairQueue params =>
        exact ⟨_, rfl, Or.inr ⟨_, _, rfl, rfl, trivial, Field.asAttribute_nest (by decide) _⟩⟩
    | raw octets =>
        exact ⟨_, rfl, Or.inr ⟨_, _, rfl, rfl, trivial, Field.asAttribute_leaf (by decide) _⟩⟩
  rw [hfields] at hsize ⊢
  rw [ofPayload?, TrafficHead.ofPayload?_options hoptions
    (Field.oversizedAmong?_of_subset (List.subset_cons_self _ _) hsize)]
  cases (Value.string (Text.Utf8.encode discipline.kind ++ [0])).toOption with
  | none => rfl
  | some kind =>
      show (readOptions kind discipline.content?).bind _ =
        (readOptions kind discipline.content?).map _
      cases readOptions kind discipline.content? <;> rfl

theorem optionsFit_of_validate {discipline : Discipline} (h : discipline.validate = .ok ()) :
    optionsFit discipline.kind discipline.options = true := by
  simp only [validate] at h
  split at h
  · exact absurd h (by simp)
  split at h
  · exact absurd h (by simp)
  split at h
  · exact absurd h (by simp)
  split at h
  · exact absurd h (by simp)
  split at h
  · rename_i hfit
    exact hfit
  · exact absurd h (by simp)

theorem readOptions_content? {discipline : Discipline} (hvalid : discipline.validate = .ok ())
    (hsize : Field.oversizedAmong? (discipline.requestFields .create) = none)
    {options : DisciplineOptions}
    (hread : readOptions discipline.kind discipline.content? = some options)
    (hmeet : options.meet discipline.options = true) : options = discipline.options := by
  cases hoptions : discipline.options with
  | none =>
      rw [content?, hoptions] at hread
      exact (Option.some.inj hread).symm
  | fairQueue params =>
      have hfit := optionsFit_of_validate hvalid
      rw [hoptions] at hfit
      have hkind : discipline.kind = fairQueueKind := by simpa [optionsFit] using hfit
      have hplain : plainKinds.contains discipline.kind = false := by
        rw [hkind]
        decide
      have hnest : Field.nest TrafficHead.optionsAttr params.fields ∈
          discipline.requestFields .create := by
        rw [requestFields, hoptions]
        simp
      have hinner : Field.oversizedAmong? params.fields = none :=
        (Option.or_eq_none_iff.mp (Field.oversizedAmong?_eq_none_iff.mp hsize _ hnest)).1
      rw [content?, hoptions] at hread
      simp only [readOptions, hplain, Bool.false_eq_true, if_false, if_pos hkind,
        FairQueue.ofPayload?_encodeAll hinner] at hread
      exact (Option.some.inj hread).symm
  | raw octets =>
      rw [hoptions] at hmeet
      cases options with
      | raw read => simpa [DisciplineOptions.meet] using hmeet
      | _ => exact absurd hmeet (by simp [DisciplineOptions.meet])

end Discipline

namespace Filter

def content? (filter : Filter) : Option Bytes :=
  (filter.action.bind fun action =>
    (actionAttr? filter.kind).map fun attr => Field.encodeAll [.nest attr action.tableFields])

theorem requestFields_eq_ok_of_ne {filter : Filter} {verb : Verb} (hverb : verb ≠ .delete)
    {fields : List Field} (h : filter.requestFields verb = .ok fields) :
    ∃ options, filter.optionFields = .ok options ∧ fields = .raw filter.head.toBytes ::
      Field.string TrafficHead.kindAttr filter.kind :: options := by
  rw [requestFields, if_neg fun hflush => hverb hflush.1] at h
  simp only [if_neg hverb] at h
  obtain ⟨options, hoptions, h⟩ := bind_eq_ok_iff.mp h
  exact ⟨options, hoptions, (Except.ok.inj h).symm⟩

theorem ofPayload?_eq {filter : Filter} {verb : Verb} (hverb : verb ≠ .delete)
    {fields : List Field} (hfields : filter.requestFields verb = .ok fields)
    (hsize : Field.oversizedAmong? fields = none) :
    ofPayload? (Field.encodeAll fields) =
      (Value.string (Text.Utf8.encode filter.kind ++ [0])).toOption.bind fun kind =>
        (readAction kind filter.content?).map fun action => { filter with kind, action } := by
  obtain ⟨options, hmade, rfl⟩ := requestFields_eq_ok_of_ne hverb hfields
  have hoptions : options = [] ∧ filter.content? = none ∨
      ∃ field octets, options = [field] ∧ filter.content? = some octets ∧
        field.IsAttribute ∧ field.asAttribute = ⟨TrafficHead.optionsAttr, octets⟩ := by
    rw [optionFields] at hmade
    rw [content?]
    split at hmade
    · rename_i haction
      rw [haction]
      exact Or.inl ⟨(Except.ok.inj hmade).symm, rfl⟩
    · rename_i action haction
      split at hmade
      · rename_i attr hattr
        rw [haction, hattr]
        exact Or.inr ⟨_, _, (Except.ok.inj hmade).symm, rfl, trivial,
          Field.asAttribute_nest (by decide) _⟩
      · exact absurd hmade (by simp)
  rw [ofPayload?, TrafficHead.ofPayload?_options hoptions
    (Field.oversizedAmong?_of_subset (List.subset_cons_self _ _) hsize)]
  cases (Value.string (Text.Utf8.encode filter.kind ++ [0])).toOption with
  | none => rfl
  | some kind =>
      show (readAction kind filter.content?).bind _ = (readAction kind filter.content?).map _
      have hread (action : Option Action) : (⟨filter.interface, kind, filter.handle, filter.parent,
          (filter.info >>> 16).toUInt16, swapped filter.info.toUInt16, action⟩ : Filter) =
            { filter with kind, action } := by
        rw [priority_info, protocol_info]
      cases readAction kind filter.content? with
      | none => rfl
      | some action => exact congrArg some (hread action)

end Filter

end NetState
