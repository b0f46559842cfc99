import NetState.Proofs.Attribute.Insertion
import NetState.Proofs.Object.Reading

namespace NetState

open Attribute (IsOther Alike Fixed)

namespace Link

def usedAttrs : List UInt16 := [nameAttr, mtuAttr, lowerAttr, stateAttr, infoAttr]

def usedInfoAttrs : List UInt16 := [infoKindAttr, infoDataAttr]

def usedVlanAttrs : List UInt16 := [vlanIdAttr]

def DataExtends : Bytes → Bytes → Prop :=
  Attribute.Extends (IsOther usedVlanAttrs) Fixed

def InfoExtends : Bytes → Bytes → Prop :=
  Attribute.Extends (IsOther usedInfoAttrs) fun kind payload extended =>
    kind = infoDataAttr ∧ DataExtends payload extended

def Extends : Bytes → Bytes → Prop :=
  Attribute.Extends (IsOther usedAttrs) fun kind payload extended =>
    kind = infoAttr ∧ InfoExtends payload extended

theorem readVlanAttribute_of_isOther (link : Link) {extra : Attribute}
    (h : IsOther usedVlanAttrs extra) : link.readVlanAttribute extra = some link := by
  simp only [IsOther, usedVlanAttrs, List.mem_cons, not_or] at h
  rw [readVlanAttribute, if_neg h.1]

theorem readAttribute_of_isOther (link : Link) {extra : Attribute} (h : IsOther usedAttrs extra) :
    link.readAttribute extra = some link := by
  simp only [IsOther, usedAttrs, List.mem_cons, not_or] at h
  rw [readAttribute, if_neg h.1, if_neg h.2.1, if_neg h.2.2.1, if_neg h.2.2.2.1,
    if_neg h.2.2.2.2.1]

theorem readInfoAttribute_eq_readPair :
    readInfoAttribute = Attribute.readPair infoKindAttr infoDataAttr fun kind payload =>
      (Value.string payload).toOption.map fun name =>
        let told := LinkKind.ofKernelName name
        if told = .unknown then kind else told := by
  funext seen attr
  rw [readInfoAttribute, Attribute.readPair, Option.map_map]
  rfl

theorem readVlan_extends {data extended : Bytes} (h : DataExtends data extended) {link final : Link}
    (hread : (Attribute.readAll? data).bind (·.foldlM readVlanAttribute link) = some final) :
    (Attribute.readAll? extended).bind (·.foldlM readVlanAttribute link) = some final := by
  obtain ⟨attrs, hattrs, hfold⟩ := Option.bind_eq_some_iff.mp hread
  exact Option.bind_eq_some_iff.mpr
    (h.exists_foldlM (fun seen extra => seen.readVlanAttribute_of_isOther)
      (fun hinside _ => absurd hinside id) hattrs hfold)

theorem readInfo_extends {payload extended : Bytes} (h : InfoExtends payload extended)
    {link final : Link} (hread : link.readInfo payload = some final) :
    link.readInfo extended = some final := by
  simp only [readInfo, Option.bind_eq_bind, Option.bind_eq_some_iff,
    readInfoAttribute_eq_readPair] at hread
  obtain ⟨attrs, hattrs, ⟨kind, data⟩, hfold, hrest⟩ := hread
  obtain ⟨more, hmore, hinterspersed⟩ := h.exists_readAll? hattrs
  obtain ⟨changed, hlast, hdata⟩ := hinterspersed.foldlM_readPair (by decide) hfold
  simp only [readInfo, Option.bind_eq_bind, readInfoAttribute_eq_readPair, hmore, hlast,
    Option.bind_some]
  cases hdata with
  | none => exact hrest
  | some hchanged =>
      rcases hchanged with rfl | hextends
      · exact hrest
      · cases kind with
        | vlan => exact readVlan_extends hextends hrest
        | _ => exact hrest

theorem readAttribute_info {seen after : Link} {kind : UInt16} {payload changed : Bytes}
    (hinside : kind = infoAttr ∧ InfoExtends payload changed)
    (hread : seen.readAttribute ⟨kind, payload⟩ = some after) :
    seen.readAttribute ⟨kind, changed⟩ = some after := by
  obtain ⟨rfl, hextends⟩ := hinside
  exact readInfo_extends hextends hread

theorem ofPayload?_extends {head run extended : Bytes} (hhead : head.length = LinkHead.size)
    (h : Extends run extended) {link : Link} (hread : ofPayload? (head ++ run) = some link) :
    ofPayload? (head ++ extended) = some link := by
  simp only [ofPayload?, ← hhead, Bytes.split?_append, Option.bind_eq_bind, Option.bind_some,
    Option.bind_eq_some_iff] at hread ⊢
  obtain ⟨attrs, hattrs, seen, hfold, hrest⟩ := hread
  obtain ⟨more, hmore, hsame⟩ :=
    h.exists_foldlM (fun seen extra => seen.readAttribute_of_isOther) readAttribute_info hattrs
      hfold
  exact ⟨more, hmore, seen, hsame, hrest⟩

end Link

namespace Address

def usedAttrs : List UInt16 := [ipAttr, localAttr, labelAttr, flagsAttr, lifetimeAttr]

def Extends : Bytes → Bytes → Prop :=
  Attribute.Extends (IsOther usedAttrs) Fixed

theorem readAttribute_of_isOther (family : UInt8) (seen : Partial) {extra : Attribute}
    (h : IsOther usedAttrs extra) : readAttribute family seen extra = some seen := by
  simp only [IsOther, usedAttrs, List.mem_cons, not_or] at h
  rw [readAttribute, if_neg h.2.1, if_neg h.1, if_neg h.2.2.1, if_neg h.2.2.2.1,
    if_neg h.2.2.2.2.1]

theorem ofPayload?_extends {head run extended : Bytes} (hhead : head.length = AddressHead.size)
    (h : Extends run extended) {address : Address}
    (hread : ofPayload? (head ++ run) = some address) :
    ofPayload? (head ++ extended) = some address := by
  simp only [ofPayload?, ← hhead, Bytes.split?_append, Option.bind_eq_bind, Option.bind_some,
    Option.bind_eq_some_iff] at hread ⊢
  obtain ⟨attrs, hattrs, seen, hfold, hrest⟩ := hread
  obtain ⟨more, hmore, hsame⟩ :=
    h.exists_foldlM (fun seen extra => readAttribute_of_isOther _ seen)
      (fun hinside _ => absurd hinside id) hattrs hfold
  exact ⟨more, hmore, seen, hsame, hrest⟩

end Address

namespace Route

def usedAttrs : List UInt16 :=
  [destinationAttr, interfaceAttr, gatewayAttr, metricAttr, sourceAttr, tableAttr]

def Extends : Bytes → Bytes → Prop :=
  Attribute.Extends (IsOther usedAttrs) Fixed

theorem readAttribute_of_isOther (family : UInt8) (seen : Route) {extra : Attribute}
    (h : IsOther usedAttrs extra) : readAttribute family seen extra = some seen := by
  simp only [IsOther, usedAttrs, List.mem_cons, not_or] at h
  rw [readAttribute, if_neg h.2.2.2.2.2.1, if_neg h.1, if_neg h.2.2.2.1, if_neg h.2.1,
    if_neg h.2.2.1, if_neg h.2.2.2.2.1]

theorem ofPayload?_extends {head run extended : Bytes} (hhead : head.length = RouteHead.size)
    (h : Extends run extended) {route : Route} (hread : ofPayload? (head ++ run) = some route) :
    ofPayload? (head ++ extended) = some route := by
  simp only [ofPayload?, ← hhead, Bytes.split?_append, Option.bind_eq_bind, Option.bind_some,
    Option.bind_eq_some_iff] at hread ⊢
  obtain ⟨attrs, hattrs, seen, hfold, hrest⟩ := hread
  obtain ⟨more, hmore, hsame⟩ :=
    h.exists_foldlM (fun seen extra => readAttribute_of_isOther _ seen)
      (fun hinside _ => absurd hinside id) hattrs hfold
  exact ⟨more, hmore, seen, hsame, hrest⟩

end Route

namespace TrafficHead

def usedAttrs : List UInt16 := [kindAttr, optionsAttr]

def Extends (inside : Bytes → Bytes → Prop) : Bytes → Bytes → Prop :=
  Attribute.Extends (IsOther usedAttrs) fun kind payload extended =>
    kind = optionsAttr ∧ inside payload extended

def OptionsMatch (inside : Bytes → Bytes → Prop) : Option Bytes → Option Bytes → Prop :=
  Option.Rel fun options extended => options = extended ∨ inside options extended

variable {inside : Bytes → Bytes → Prop}

theorem readAttribute_eq_readPair :
    readAttribute = Attribute.readPair kindAttr optionsAttr fun _ payload =>
      (Value.string payload).toOption := by
  funext seen attr
  rw [readAttribute, Attribute.readPair]

theorem ofPayload?_extends {head run extended : Bytes} (hhead : head.length = size)
    (h : Extends inside run extended) {told : TrafficHead} {name : String} {options : Option Bytes}
    (hread : ofPayload? (head ++ run) = some (told, name, options)) :
    ∃ other, ofPayload? (head ++ extended) = some (told, name, other) ∧
      OptionsMatch inside options other := by
  simp only [ofPayload?, ← hhead, Bytes.split?_append, Option.bind_eq_bind, Option.bind_some,
    Option.bind_eq_some_iff] at hread ⊢
  obtain ⟨attrs, hattrs, seen, hfold, hrest⟩ := hread
  obtain ⟨rfl, rfl⟩ := Prod.mk.inj (Option.some.inj hrest)
  obtain ⟨more, hmore, hinterspersed⟩ := h.exists_readAll? hattrs
  rw [readAttribute_eq_readPair] at hfold
  obtain ⟨other, hlast, hoptions⟩ := hinterspersed.foldlM_readPair (by decide) hfold
  exact ⟨other, ⟨more, hmore, _, readAttribute_eq_readPair ▸ hlast, rfl⟩, hoptions⟩

end TrafficHead

namespace FairQueue

def usedAttrs : List UInt16 :=
  [targetAttr, limitAttr, intervalAttr, ecnAttr, flowsAttr, quantumAttr, ceThresholdAttr,
    dropBatchAttr, memoryLimitAttr]

def Extends : Bytes → Bytes → Prop :=
  Attribute.Extends (IsOther usedAttrs) Fixed

/-- Among the parameters is an attribute of a type that is not known, without room for a word. -/
def IsCramped (octets : Bytes) : Prop :=
  ∃ attr ∈ Attribute.scan octets, IsOther usedAttrs attr ∧ attr.payload.length < 4

theorem readAttribute_of_isOther (params : FairQueue) {extra : Attribute}
    (h : IsOther usedAttrs extra) (hroom : 4 ≤ extra.payload.length) :
    params.readAttribute extra = some params := by
  have hword : ∃ value, Value.u32 extra.payload = .ok value := by
    rw [Value.u32, Value.front, Bytes.split?, if_pos (by rw [List.length_take]; omega)]
    exact ⟨_, rfl⟩
  obtain ⟨value, hvalue⟩ := hword
  simp only [IsOther, usedAttrs, List.mem_cons, not_or] at h
  obtain ⟨h1, h2, h3, h4, h5, h6, h7, h8, h9, -⟩ := h
  rw [readAttribute, hvalue]
  simp only [if_neg h1, if_neg h2, if_neg h3, if_neg h4, if_neg h5, if_neg h6, if_neg h7,
    if_neg h8, if_neg h9]
  rfl

theorem readAttribute_of_cramped (params : FairQueue) {attr : Attribute}
    (h : attr.payload.length < 4) : params.readAttribute attr = none := by
  have hshort : ¬ (attr.payload.take 4).length = 4 := by
    rw [List.length_take]
    omega
  rw [readAttribute, Value.u32, Value.front, Bytes.split?, if_neg hshort]
  rfl

theorem ofPayload?_of_isCramped {octets : Bytes} (h : IsCramped octets) :
    ofPayload? octets = none := by
  obtain ⟨attr, hmem, -, hshort⟩ := h
  rw [ofPayload?]
  generalize unset = params
  generalize Attribute.scan octets = attrs at hmem
  induction attrs generalizing params with
  | nil => exact absurd hmem List.not_mem_nil
  | cons first rest ih =>
      rw [List.foldlM_cons]
      rcases List.mem_cons.mp hmem with rfl | hrest
      · rw [readAttribute_of_cramped params hshort]
        rfl
      · cases params.readAttribute first with
        | none => rfl
        | some next => exact ih next hrest

/-- Parameters stay what they are, unless something put in makes them unreadable. -/
theorem ofPayload?_extends {octets extended : Bytes} (h : Extends octets extended)
    (hroom : ¬ IsCramped extended) {params : FairQueue} (hread : ofPayload? octets = some params) :
    ofPayload? extended = some params := by
  have hwide := h.interspersed_scan.narrow
    (fun attr => IsOther usedAttrs attr ∧ 4 ≤ attr.payload.length)
    fun attr hmem hother =>
      ⟨hother, Nat.le_of_not_lt fun hshort => hroom ⟨attr, hmem, hother, hshort⟩⟩
  exact hwide.foldlM_eq (fun seen extra hextra => readAttribute_of_isOther seen hextra.1 hextra.2)
    (fun hinside _ => absurd hinside id) hread

end FairQueue

namespace Discipline

def OptionsExtend (name : String) (options extended : Bytes) : Prop :=
  name = fairQueueKind ∧ FairQueue.Extends options extended

/-- A message about a fair queue discipline with an attribute in its options that is not known and
has no room for a word. -/
def IsCramped (payload : Bytes) : Prop :=
  ∃ head octets, TrafficHead.ofPayload? payload = some (head, fairQueueKind, some octets) ∧
    FairQueue.IsCramped octets

theorem readOptions_fairQueue (octets : Bytes) :
    readOptions fairQueueKind (some octets) =
      (FairQueue.ofPayload? octets).map DisciplineOptions.fairQueue := by
  rw [readOptions, if_neg (by decide), if_pos rfl]

theorem ofPayload?_of_isCramped {payload : Bytes} (h : IsCramped payload) :
    ofPayload? payload = none := by
  obtain ⟨head, octets, htold, hcramped⟩ := h
  simp only [ofPayload?, htold, Option.bind_eq_bind, Option.bind_some, readOptions_fairQueue,
    FairQueue.ofPayload?_of_isCramped hcramped, Option.map_none, Option.bind_none]

theorem ofPayload?_extends {head run extended : Bytes} (hhead : head.length = TrafficHead.size)
    {told : TrafficHead} {name : String} {options : Option Bytes}
    (htold : TrafficHead.ofPayload? (head ++ run) = some (told, name, options))
    (h : TrafficHead.Extends (OptionsExtend name) run extended)
    (hroom : ¬ IsCramped (head ++ extended)) {discipline : Discipline}
    (hread : ofPayload? (head ++ run) = some discipline) :
    ofPayload? (head ++ extended) = some discipline := by
  obtain ⟨other, hother, hmatch⟩ := TrafficHead.ofPayload?_extends hhead h htold
  simp only [ofPayload?, htold, hother, Option.bind_eq_bind, Option.bind_some,
    Option.bind_eq_some_iff] at hread ⊢
  obtain ⟨shown, hoptions, hshown⟩ := hread
  refine ⟨shown, ?_, hshown⟩
  cases hmatch with
  | none => exact hoptions
  | some halike =>
      rcases halike with rfl | ⟨rfl, hextends⟩
      · exact hoptions
      · rw [readOptions_fairQueue] at hoptions ⊢
        obtain ⟨params, hparams, rfl⟩ := Option.map_eq_some_iff.mp hoptions
        have hlenient := fun hcramped => hroom ⟨told, _, hother, hcramped⟩
        rw [FairQueue.ofPayload?_extends hextends hlenient hparams, Option.map_some]

end Discipline

namespace Action

def usedAttrs : List UInt16 := [kindAttr, optionsAttr]

/-- The types of attributes that tell something of an action of a kind. -/
def usedOptionAttrs (name : String) : List UInt16 :=
  if name = "simple" then [dataAttr]
  else if name = "gact" ∨ name = "mirred" then [parametersAttr]
  else []

def OptionsExtend (name : String) : Bytes → Bytes → Prop :=
  Attribute.Extends (IsOther (usedOptionAttrs name)) Fixed

def SlotExtends (slot : Bytes) : Bytes → Prop :=
  Attribute.Extends (IsOther usedAttrs) (fun kind payload extended =>
    kind = optionsAttr ∧ ∃ name, readText kindAttr slot = some name ∧
      OptionsExtend name payload extended) slot

def TableExtends : Bytes → Bytes → Prop :=
  Attribute.Extends (fun _ => False) fun _ => SlotExtends

theorem readText_extends {name : String} {options extended : Bytes}
    (h : OptionsExtend name options extended) (hname : name = "simple") :
    readText dataAttr extended = readText dataAttr options := by
  have hused : dataAttr ∈ usedOptionAttrs name := by
    rw [usedOptionAttrs, if_pos hname]
    exact List.mem_singleton_self _
  rw [readText, readText, h.find?_eq hused fun _ _ => id]

theorem readParameters_extends {name : String} {options extended : Bytes}
    (h : OptionsExtend name options extended) (hname : name = "gact" ∨ name = "mirred")
    (size : Nat) : readParameters size extended = readParameters size options := by
  have hused : parametersAttr ∈ usedOptionAttrs name := by
    rw [usedOptionAttrs, if_neg (by rcases hname with rfl | rfl <;> decide), if_pos hname]
    exact List.mem_singleton_self _
  rw [readParameters, readParameters, h.find?_eq hused fun _ _ => id]

theorem readKind_extends {name : String} {options extended : Bytes}
    (h : OptionsExtend name options extended) : readKind name extended = readKind name options := by
  rw [readKind, readKind]
  split
  · rename_i hsimple
    rw [readText_extends h hsimple]
  · split
    · rename_i hgact
      rw [readParameters_extends h (Or.inl hgact)]
    · split
      · rename_i hmirred
        rw [readParameters_extends h (Or.inr hmirred)]
      · rfl

def ofSlot (slot : Bytes) : Option (Option Action) :=
  (readText kindAttr slot).bind fun name =>
    readKind name ((Attribute.find? optionsAttr slot).getD [])

theorem ofSlot_extends {slot extended : Bytes} (h : SlotExtends slot extended) :
    ofSlot extended = ofSlot slot := by
  have hkind : Attribute.find? kindAttr extended = Attribute.find? kindAttr slot := by
    refine Attribute.Extends.find?_eq h (by decide) ?_
    rintro _ _ ⟨hoptions, -⟩
    exact absurd hoptions (by decide)
  have hoptions := Attribute.Extends.find? h (show optionsAttr ∈ usedAttrs by decide)
  rw [ofSlot, ofSlot, readText, hkind, ← readText]
  refine Option.bind_congr fun name hname => ?_
  generalize Attribute.find? optionsAttr slot = before at hoptions
  generalize Attribute.find? optionsAttr extended = after at hoptions
  cases hoptions with
  | none => rfl
  | some halike =>
      rcases halike with rfl | ⟨-, other, hother, hextends⟩
      · rfl
      · obtain rfl : name = other := Option.some.inj (hname.symm.trans hother)
        exact readKind_extends hextends

theorem ofTable_extends {table extended : Bytes} (h : TableExtends table extended) :
    ofTable extended = ofTable table := by
  have hinterspersed := Attribute.Extends.interspersed_scan h
  rw [ofTable, ofTable]
  generalize Attribute.scan table = attrs at hinterspersed
  generalize Attribute.scan extended = more at hinterspersed
  cases hinterspersed with
  | nil => rfl
  | insert hidle => exact absurd hidle id
  | follow halike _ =>
      rcases halike with rfl | hslot
      · rfl
      · exact ofSlot_extends hslot

end Action

namespace Filter

def OptionsExtend (name : String) (options extended : Bytes) : Prop :=
  ∃ attr, actionAttr? name = some attr ∧
    Attribute.Extends (IsOther [attr]) (fun kind table changed =>
      kind = attr ∧ Action.TableExtends table changed) options extended

theorem readAction_extends {name : String} {options other : Option Bytes}
    (h : TrafficHead.OptionsMatch (OptionsExtend name) options other) :
    readAction name other = readAction name options := by
  cases h with
  | none => rfl
  | @some octets extended halike =>
      rcases halike with rfl | ⟨attr, hattr, hextends⟩
      · rfl
      · simp only [readAction, hattr]
        have htable := hextends.find? (List.mem_singleton_self attr)
        generalize Attribute.find? attr octets = before at htable
        generalize Attribute.find? attr extended = after at htable
        cases htable with
        | none => rfl
        | some halike =>
            rcases halike with rfl | ⟨-, hchanged⟩
            · rfl
            · exact Action.ofTable_extends hchanged

theorem ofPayload?_extends {head run extended : Bytes} (hhead : head.length = TrafficHead.size)
    {told : TrafficHead} {name : String} {options : Option Bytes}
    (htold : TrafficHead.ofPayload? (head ++ run) = some (told, name, options))
    (h : TrafficHead.Extends (OptionsExtend name) run extended) :
    ofPayload? (head ++ extended) = ofPayload? (head ++ run) := by
  obtain ⟨other, hother, hmatch⟩ := TrafficHead.ofPayload?_extends hhead h htold
  simp only [ofPayload?, htold, hother, Option.bind_eq_bind, Option.bind_some,
    readAction_extends hmatch]

end Filter

namespace Object

/-- A payload with attributes put in, at any levels at which a message of a type is read, whose
types are not used there. -/
inductive Extends : UInt16 → Bytes → Bytes → Prop where
  | link {type : UInt16} {head run extended : Bytes}
      (htype : type = MessageType.newLink ∨ type = MessageType.delLink)
      (hhead : head.length = LinkHead.size) (hrun : Link.Extends run extended) :
      Extends type (head ++ run) (head ++ extended)
  | address {type : UInt16} {head run extended : Bytes}
      (htype : type = MessageType.newAddress ∨ type = MessageType.delAddress)
      (hhead : head.length = AddressHead.size) (hrun : Address.Extends run extended) :
      Extends type (head ++ run) (head ++ extended)
  | route {type : UInt16} {head run extended : Bytes}
      (htype : type = MessageType.newRoute ∨ type = MessageType.delRoute)
      (hhead : head.length = RouteHead.size) (hrun : Route.Extends run extended) :
      Extends type (head ++ run) (head ++ extended)
  | discipline {type : UInt16} {head run extended : Bytes} {told : TrafficHead} {name : String}
      {options : Option Bytes}
      (htype : type = MessageType.newDiscipline ∨ type = MessageType.delDiscipline)
      (hhead : head.length = TrafficHead.size)
      (htold : TrafficHead.ofPayload? (head ++ run) = some (told, name, options))
      (hrun : TrafficHead.Extends (Discipline.OptionsExtend name) run extended) :
      Extends type (head ++ run) (head ++ extended)
  | filter {type : UInt16} {head run extended : Bytes} {told : TrafficHead} {name : String}
      {options : Option Bytes}
      (htype : type = MessageType.newFilter ∨ type = MessageType.delFilter)
      (hhead : head.length = TrafficHead.size)
      (htold : TrafficHead.ofPayload? (head ++ run) = some (told, name, options))
      (hrun : TrafficHead.Extends (Filter.OptionsExtend name) run extended) :
      Extends type (head ++ run) (head ++ extended)

/-- A message about a fair queue discipline that cannot be read for an attribute that is not
known. -/
def IsCramped (type : UInt16) (payload : Bytes) : Prop :=
  (type = MessageType.newDiscipline ∨ type = MessageType.delDiscipline) ∧
    Discipline.IsCramped payload

variable {type : UInt16} {payload extended : Bytes}

theorem headD_append {head : Bytes} {size : Nat} (hhead : head.length = size + 1) (run : Bytes) :
    (head ++ run).headD 0 = head.headD 0 := by
  cases head with
  | nil => exact absurd hhead (by simp)
  | cons octet rest => rfl

theorem unread_traffic {told : TrafficHead × String × Option Bytes}
    (h : TrafficHead.ofPayload? payload = some told) :
    unread TrafficHead.size payload = .crash := by
  obtain ⟨⟨octets, rest⟩, hsplit, h⟩ := Option.bind_eq_some_iff.mp h
  obtain ⟨attrs, hattrs, -⟩ := Option.bind_eq_some_iff.mp h
  rw [unread, hsplit]
  exact if_pos (Option.isSome_iff_exists.mpr ⟨attrs, hattrs⟩)

theorem ofPayload_of_isCramped (h : IsCramped type payload) :
    ofPayload type payload = .error .crash := by
  have hcrash : unread TrafficHead.size payload = .crash := by
    obtain ⟨-, head, octets, htold, -⟩ := h
    exact unread_traffic htold
  rw [ofPayload_discipline_eq h.1, Discipline.ofPayload?_of_isCramped h.2, demand, hcrash]

theorem ofPayload_extends (h : Extends type payload extended) (hroom : ¬ IsCramped type extended)
    {object : Option Object} (hread : ofPayload type payload = .ok object) :
    ofPayload type extended = .ok object := by
  cases h with
  | @link head run extended htype hhead hrun =>
      rw [ofPayload_link_eq htype, demand_eq_ok_iff] at hread ⊢
      obtain ⟨l, hl, rfl⟩ := hread
      exact ⟨l, Link.ofPayload?_extends hhead hrun hl, rfl⟩
  | @address head run extended htype hhead hrun =>
      rw [ofPayload_address_eq htype, headD_append hhead] at hread ⊢
      split
      · rename_i hfamily
        rw [if_pos hfamily, demand_eq_ok_iff] at hread
        obtain ⟨a, ha, rfl⟩ := hread
        rw [Address.ofPayload?_extends hhead hrun ha, demand]
      · rename_i hfamily
        rw [if_neg hfamily] at hread
        exact hread
  | @route head run extended htype hhead hrun =>
      rw [ofPayload_route_eq htype, headD_append hhead] at hread ⊢
      split
      · rename_i hfamily
        rw [if_pos hfamily] at hread
        cases hroute : Route.ofPayload? (head ++ run) with
        | none =>
            rw [hroute] at hread
            exact absurd hread (by simp)
        | some r =>
            rw [Route.ofPayload?_extends hhead hrun hroute]
            rw [hroute] at hread
            exact hread
      · rename_i hfamily
        rw [if_neg hfamily] at hread
        exact hread
  | @discipline head run extended told name options htype hhead htold hrun =>
      rw [ofPayload_discipline_eq htype, demand_eq_ok_iff] at hread ⊢
      obtain ⟨d, hd, rfl⟩ := hread
      exact ⟨d,
        Discipline.ofPayload?_extends hhead htold hrun (fun hcramped => hroom ⟨htype, hcramped⟩)
        hd, rfl⟩
  | @filter head run extended told name options htype hhead htold hrun =>
      rw [ofPayload_filter_eq htype, demand_eq_ok_iff] at hread ⊢
      rw [Filter.ofPayload?_extends hhead htold hrun]
      exact hread

theorem decode_of_isCramped (h : IsCramped type payload) :
    decode type payload = .error .crash := by
  obtain ⟨change, hchange⟩ : ∃ change, changeOf? type = some change := by
    rcases h.1 with rfl | rfl
    · exact ⟨.new, by decide⟩
    · exact ⟨.del, by decide⟩
  rw [decode, hchange]
  simp only [ofPayload_of_isCramped h]

/-- A message that is read tells the same with attributes put in, wherever that is and whatever they
hold, just if none of them stands among the options of a fair queue discipline without room for a
word. If one does, reading the message ends the program. -/
theorem decode_extends {told : Option (Change × Object)} (h : Extends type payload extended)
    (hread : decode type payload = .ok told) :
    (decode type extended = .ok told ↔ ¬ IsCramped type extended) ∧
      (IsCramped type extended → decode type extended = .error .crash) := by
  refine ⟨⟨?_, ?_⟩, decode_of_isCramped⟩
  · intro hsame hcramped
    exact absurd ((decode_of_isCramped hcramped).symm.trans hsame) (by simp)
  · intro hroom
    rw [decode] at hread ⊢
    split at hread
    · exact hread
    · cases hpayload : ofPayload type payload with
      | error fault =>
          rw [hpayload] at hread
          exact absurd hread (by simp)
      | ok object =>
          rw [ofPayload_extends h hroom hpayload, ← hread, hpayload]

/-- The octets of an attribute of a type that is used nowhere. -/
def stranger (payload : Bytes) : Bytes :=
  Field.encodeAll [.leaf 99 payload]

/-- A message about a tagged link, with more octets behind the attributes of each level. -/
def taggedMessage (more moreInfo moreData : Bytes) : Bytes :=
  LinkHead.toBytes ⟨0, 1, 5, 0, 0⟩ ++
    (Field.encode (.leaf (Field.nestKind Link.infoAttr)
      (Field.encode (Field.string Link.infoKindAttr "vlan") ++
        (Field.encode (.leaf (Field.nestKind Link.infoDataAttr)
          (Field.encode (Field.u16 Link.vlanIdAttr 7) ++ moreData)) ++ moreInfo))) ++ more)

/-- A message about a fair queue discipline, with more octets among its options. -/
def fairQueueMessage (more : Bytes) : Bytes :=
  TrafficHead.toBytes ⟨0, 1, Handle.ofParts 1 0, Handle.root, 0⟩ ++
    (Field.encode (Field.string TrafficHead.kindAttr Discipline.fairQueueKind) ++
      (Field.encode (.leaf (Field.nestKind TrafficHead.optionsAttr)
        (Field.encode (Field.u32 FairQueue.limitAttr 1024) ++ more)) ++ []))

theorem extends_stranger {used : List UInt16} {inside : UInt16 → Bytes → Bytes → Prop}
    (hused : 99 ∉ used) {payload : Bytes} (hsize : Field.oversized? (.leaf 99 payload) = none) :
    Attribute.Extends (IsOther used) inside [] (stranger payload) :=
  .insert (Attribute.read?_marked hsize []) hused (.same [])

theorem extends_taggedMessage :
    Extends MessageType.newLink (taggedMessage [] [] [])
      (taggedMessage (stranger [1]) (stranger [1, 2]) (stranger [1, 2, 3])) := by
  have hid : Attribute.readAll? (Field.encode (Field.u16 Link.vlanIdAttr 7)) =
      some [⟨Link.vlanIdAttr, Bytes.ofUInt16 7⟩] := by decide +kernel
  have hdata : Link.DataExtends (Field.encode (Field.u16 Link.vlanIdAttr 7) ++ [])
      (Field.encode (Field.u16 Link.vlanIdAttr 7) ++ stranger [1, 2, 3]) :=
    Attribute.Extends.insert_leaf hid (by decide) rfl (by decide) []
  refine .link (Or.inl rfl) rfl (.follow (Attribute.read?_marked rfl _)
    (Attribute.read?_marked rfl _) (Or.inr ⟨by decide, ?_⟩) (extends_stranger (by decide) rfl))
  exact .follow (Attribute.read?_marked rfl _) (Attribute.read?_marked rfl _) (Or.inl rfl)
    (.follow (Attribute.read?_marked rfl _) (Attribute.read?_marked rfl _)
      (Or.inr ⟨by decide, hdata⟩) (extends_stranger (by decide) rfl))

theorem decode_extends_taggedMessage :
    let told : Option (Change × Object) :=
      some (.new, .link { Link.new "" .vlan with index := 5, vlanId := some 7 })
    decode MessageType.newLink (taggedMessage [] [] []) = .ok told ∧
      decode MessageType.newLink
        (taggedMessage (stranger [1]) (stranger [1, 2]) (stranger [1, 2, 3])) = .ok told := by
  intro told
  have hread : decode MessageType.newLink (taggedMessage [] [] []) = .ok told :=
    Value.eq_ok_of_toOption (by decide +kernel)
  refine ⟨hread, (decode_extends extends_taggedMessage hread).1.mpr ?_⟩
  rintro ⟨htype, -⟩
  exact absurd htype (by decide)

/-- Reading a message about a fair queue discipline ends the program if an attribute of one octet,
of a type that is not known, stands among its options. -/
theorem exists_decode_ne :
    ∃ payload extended told,
      Extends MessageType.newDiscipline payload extended ∧
      decode MessageType.newDiscipline payload = .ok (some told) ∧
      decode MessageType.newDiscipline extended = .error .crash := by
  have htold : TrafficHead.ofPayload? (fairQueueMessage []) =
      some (⟨0, 1, Handle.ofParts 1 0, Handle.root, 0⟩, Discipline.fairQueueKind,
        some (Field.encode (Field.u32 FairQueue.limitAttr 1024))) := by decide +kernel
  have hextended : TrafficHead.ofPayload? (fairQueueMessage (stranger [1])) =
      some (⟨0, 1, Handle.ofParts 1 0, Handle.root, 0⟩, Discipline.fairQueueKind,
        some (Field.encode (Field.u32 FairQueue.limitAttr 1024) ++ stranger [1])) := by
    decide +kernel
  have hlimit : Attribute.readAll? (Field.encode (Field.u32 FairQueue.limitAttr 1024)) =
      some [⟨FairQueue.limitAttr, Bytes.ofUInt32 1024⟩] := by decide +kernel
  have hoptions : FairQueue.Extends (Field.encode (Field.u32 FairQueue.limitAttr 1024) ++ [])
      (Field.encode (Field.u32 FairQueue.limitAttr 1024) ++ stranger [1]) :=
    Attribute.Extends.insert_leaf hlimit (by decide) rfl (by decide) []
  have hkind : ∃ attrs, Attribute.readAll?
      (Field.encode (Field.string TrafficHead.kindAttr Discipline.fairQueueKind)) = some attrs :=
    Option.isSome_iff_exists.mp (by decide +kernel)
  obtain ⟨attrs, hattrs⟩ := hkind
  refine ⟨fairQueueMessage [], fairQueueMessage (stranger [1]),
    (.new, .discipline ⟨1, Discipline.fairQueueKind, Handle.ofParts 1 0, Handle.root,
      .fairQueue { FairQueue.unset with limit := some 1024 }⟩), ?_,
    Value.eq_ok_of_toOption (by decide +kernel), decode_of_isCramped ⟨Or.inl rfl, _, _, hextended,
      ⟨99, [1]⟩, by decide +kernel, by decide, by decide⟩⟩
  exact .discipline (Or.inl rfl) rfl htold
    (Attribute.Extends.change_leaf hattrs (by decide +kernel) rfl rfl ⟨by decide, rfl, hoptions⟩ [])

end Object

end NetState
