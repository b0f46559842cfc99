import NetState.Proofs.Inventory.Find
import NetState.Proofs.Object.Reading
import NetState.Proofs.Peer.Treat
import NetState.Session.Plan

namespace NetState

open Peer

theorem or_and_word (a b mask : UInt32) : (a ||| b) &&& mask = (a &&& mask) ||| (b &&& mask) := by
  refine UInt32.eq_of_toBitVec_eq (BitVec.eq_of_getLsbD_eq fun i hi => ?_)
  simp only [UInt32.toBitVec_and, UInt32.toBitVec_or, BitVec.getLsbD_and, BitVec.getLsbD_or,
    Bool.and_or_distrib_right]

/-- Whether what is told of an object is read as something that is as wanted. -/
def Object.Fulfils (stored wanted : Object) : Prop :=
  ∃ image, stored.image? = some image ∧ image.satisfies wanted = true

def Link.HasReadableName (link : Link) : Prop :=
  Field.oversized? (Field.string nameAttr link.name) = none ∧
    ∃ text, Value.string (Text.Utf8.encode link.name ++ [0]) = .ok text

theorem Link.hasReadableName_of_image? {link : Link} {image : Object}
    (h : (Object.link link).image? = some image) : link.HasReadableName := by
  obtain ⟨⟨change, told⟩, htold, rfl⟩ := Option.map_eq_some_iff.mp h
  obtain ⟨fields, hfields, hsize, -, hread⟩ := Object.told?_eq_some_iff.mp htold
  rw [Object.messageFields_newType] at hfields
  obtain ⟨info, -, rfl⟩ := kernelFields_eq_ok hfields
  obtain ⟨read, hpayload, -⟩ := Object.demand_eq_ok_some_iff.mp hread
  have hname : Field.oversized? (Field.string nameAttr link.name) = none :=
    Field.oversizedAmong?_eq_none_iff.mp hsize _ (List.mem_cons_of_mem _ List.mem_cons_self)
  exact ⟨hname, exists_name_of_ofPayload? hname hpayload⟩

namespace Address

theorem readLabel?_self {a : Address} {label : Option String}
    (hread : readLabel? a.label = some label)
    (hwanted : a.label.all (fun wanted => label == some wanted) = true) : label = a.label := by
  cases hlabel : a.label with
  | none =>
      rw [hlabel] at hread
      exact (Option.some.inj hread).symm
  | some wanted =>
      rw [hlabel] at hwanted
      simpa using hwanted

theorem askedFlags_stored (read : Address) (link : Link) :
    askedFlags (storedAddress read link).flags = askedFlags read.flags := by
  simp only [storedAddress]
  split
  · have hmarked : permanentFlag &&& ~~~stateFlags = 0 := by decide
    rw [askedFlags, or_and_word, hmarked, UInt32.or_zero]
    rfl
  · rfl

theorem exists_readLabel?_stored {read : Address} {link : Link}
    (hread : readLabel? read.label = some read.label) (hname : link.HasReadableName) :
    ∃ label, readLabel? (storedAddress read link).label = some label ∧
      (read.label = none ∨ label = read.label) := by
  obtain ⟨-, text, htext⟩ := hname
  simp only [storedAddress]
  split
  · exact ⟨read.label, hread, Or.inr rfl⟩
  · cases hlabel : read.label with
    | none =>
        rw [Option.none_or, readLabel?, htext]
        exact ⟨some text, rfl, Or.inl rfl⟩
    | some label =>
        rw [hlabel] at hread
        exact ⟨some label, hread, Or.inr rfl⟩

theorem labelFits_stored {read : Address} {link : Link} (hread : read.LabelFits)
    (hname : link.HasReadableName) : (storedAddress read link).LabelFits := by
  intro label hlabel
  simp only [storedAddress] at hlabel
  split at hlabel
  · exact hread label hlabel
  · cases hown : read.label with
    | none =>
        rw [hown, Option.none_or] at hlabel
        rw [← Option.some.inj hlabel]
        exact hname.1
    | some own =>
        rw [hown, Option.some_or] at hlabel
        exact hread label (hown.trans hlabel)

theorem fulfils {a : Address} {verb : Verb} (hverb : verb ≠ .delete) {told : Object}
    (hread : (Object.address a).ReadsAs verb told) (hwanted : told.satisfies (.address a) = true) :
    ∃ read, told = .address read ∧ ∀ link : Link, link.HasReadableName →
      (Object.address (storedAddress read link)).Fulfils (.address a) := by
  obtain ⟨hversion, hfits, label, hlabel, rfl⟩ := (readsAs_iff hverb).mp hread
  simp only [Object.satisfies, satisfies, Bool.and_eq_true] at hwanted
  obtain ⟨hsame, ⟨⟨⟨-, hlabelled⟩, hscope⟩, -⟩, -⟩ := hwanted
  obtain rfl := readLabel?_self hlabel hlabelled
  let read : Address := { a with scope := some (a.scope.getD 0) }
  refine ⟨read, rfl, fun link hname => ?_⟩
  obtain ⟨shown, hshown, hkept⟩ := @exists_readLabel?_stored read link hlabel hname
  have himage := Object.image?_of_readsAs (kind_address_ne_link _) ((readsAs_iff (by decide)).mpr
    ⟨fun hv6 => ?_, @labelFits_stored read link hfits hname, shown, hshown, rfl⟩)
  · refine ⟨_, himage, ?_⟩
    simp only [Object.satisfies, satisfies, Bool.and_eq_true, beq_iff_eq, decide_eq_true_eq]
    refine ⟨hsame, ⟨⟨⟨askedFlags_stored read link, ?_⟩, hscope⟩, UInt32.le_refl _⟩,
      UInt32.le_refl _⟩
    rcases hkept with hnone | hkept
    · rw [show a.label = none from hnone]
      rfl
    · rw [hkept]
      exact hlabelled
  · have hnone : read.label = none := hversion hv6
    show (if read.ip.isV6 then read.label else _) = none
    rw [if_pos (show read.ip.isV6 = true from hv6), hnone]

end Address

namespace Route

theorem family_mask (ip : Ip) (length : UInt8) : (ip.mask length).family = ip.family := by
  cases ip <;> rfl

theorem fulfils {r : Route} {verb : Verb} (hverb : verb ≠ .delete) {told : Object}
    (hread : (Object.route r).ReadsAs verb told) (hwanted : told.satisfies (.route r) = true) :
    ∃ read, told = .route read ∧ ∀ interface, (read.interface ≠ 0 → interface = read.interface) →
      (Object.route { read with interface, metric := read.effectiveMetric }).Fulfils
        (.route r) := by
  obtain ⟨hfamilies, hkind, gateway, source, hgateway, hsource, rfl⟩ := (readsAs_iff hverb).mp hread
  simp only [Object.satisfies, satisfies, Bool.and_eq_true, beq_iff_eq] at hwanted
  obtain ⟨hsame, ⟨⟨⟨-, rfl⟩, hsourced⟩, -⟩, hprotocol⟩ := hwanted
  obtain rfl := readHop?_self hsource hsourced
  refine ⟨_, rfl, fun interface hinterface => ?_⟩
  let read : Route :=
    { r with
      destination := r.destination.mask r.length
      metric := r.effectiveMetric
      scope := r.requestScope verb
      flags := 0 }
  let stored : Route := { read with interface, metric := read.effectiveMetric }
  have hversion : stored.isV6 = r.isV6 := Ip.isV6_mask _ _
  have hmetric : read.effectiveMetric = r.effectiveMetric :=
    Object.effectiveMetric_of_metric (Ip.isV6_mask _ _) rfl
  have hfamily : stored.destination.family = r.destination.family := family_mask _ _
  have hreads : (Object.route stored).ReadsAs .change _ := (readsAs_iff (by decide)).mpr
    ⟨fun gateway hway => (hfamilies gateway hway).trans hversion.symm, hkind, _, _,
      hfamily ▸ hgateway, hfamily ▸ hsource, rfl⟩
  refine ⟨_, Object.image?_of_readsAs (kind_route_ne_link _) hreads, ?_⟩
  have hstored : stored.effectiveMetric = r.effectiveMetric :=
    (Object.effectiveMetric_of_metric hversion hmetric)
  have hdestination : stored.destination.mask stored.length = r.destination.mask r.length :=
    Ip.mask_mask _ _
  obtain ⟨hsameKind, hsameKey⟩ := @Object.kind_key_route
    { stored with
      destination := stored.destination.mask stored.length
      metric := stored.effectiveMetric
      scope := stored.requestScope .change
      flags := 0 } r (by rw [identity, hstored, hdestination])
  simp only [Object.satisfies, satisfies, Object.equivalent, Bool.and_eq_true, Bool.or_eq_true,
    beq_iff_eq]
  refine ⟨⟨hsameKind, hsameKey⟩, ⟨⟨⟨?_, trivial⟩, hsourced⟩, rfl⟩, Or.inr rfl⟩
  by_cases hset : r.interface = 0
  · exact Or.inl hset
  · exact Or.inr (hinterface hset)

end Route

namespace Discipline

/-- Whether what a wanted discipline says of its handle is what its kind always has. -/
def HandleIsFree (d : Discipline) : Prop :=
  isIngressKind d.kind = true → d.handle.isUnspecified = true ∨ d.handle = Handle.ingressDiscipline

theorem oversizedAmong?_handle (d : Discipline) (handle : Handle) {first second : Verb}
    (hfirst : first ≠ .delete) (hsecond : second ≠ .delete) :
    Field.oversizedAmong? (({ d with handle } : Discipline).requestFields first) =
      Field.oversizedAmong? (d.requestFields second) := by
  simp only [requestFields, if_neg hfirst, if_neg hsecond, List.cons_append, List.nil_append,
    Field.oversizedAmong?, Field.oversized?]

theorem fulfils {d : Discipline} (hvalid : d.validate = .ok ()) {verb : Verb}
    (hverb : verb ≠ .delete) {told : Object} (hread : (Object.discipline d).ReadsAs verb told)
    (hwanted : told.satisfies (.discipline d) = true) (hfree : d.HandleIsFree) {stored : Object} :
    told = .discipline d ∧ (Places d stored → stored.Fulfils (.discipline d)) := by
  obtain ⟨hsize, kind, options, hkind, hoptions, rfl⟩ := (readsAs_iff hverb).mp hread
  simp only [Object.satisfies, satisfies, Bool.and_eq_true, beq_iff_eq] at hwanted
  obtain ⟨-, ⟨rfl, -⟩, hmeet⟩ := hwanted
  have hcreate : Field.oversizedAmong? (d.requestFields .create) = none :=
    (oversizedAmong?_handle d d.handle (by decide) hverb).trans hsize
  obtain rfl := readOptions_content? hvalid hcreate hoptions hmeet
  refine ⟨rfl, ?_⟩
  rintro ⟨handle, hhandle, rfl⟩
  have hreads :
      (Object.discipline { d with handle }).ReadsAs .change (.discipline { d with handle }) :=
    (readsAs_iff (by decide)).mpr ⟨(oversizedAmong?_handle d handle (by decide) hverb).trans hsize,
      _, _, hkind, hoptions, rfl⟩
  refine ⟨_, Object.image?_of_readsAs (kind_discipline_ne_link _) hreads, ?_⟩
  have hplaced : d.handle.isUnspecified = true ∨ handle = d.handle := by
    rcases hhandle with hunset | hset | ⟨hingress, rfl⟩
    · exact Or.inl hunset
    · exact Or.inr hset
    · exact (hfree hingress).imp_right Eq.symm
  simp only [Object.satisfies, satisfies, Object.equivalent, Object.kind, Object.key,
    Bool.and_eq_true, Bool.or_eq_true, beq_iff_eq]
  exact ⟨⟨trivial, trivial⟩, ⟨trivial, hplaced⟩, hmeet⟩

end Discipline

namespace Filter

theorem fulfils {f : Filter} {verb : Verb} (hverb : verb ≠ .delete) {told : Object}
    (hread : (Object.filter f).ReadsAs verb told) (hwanted : told.satisfies (.filter f) = true) :
    told = .filter f ∧ ∀ priority handle, (f.priority ≠ 0 → priority = f.priority) →
      (f.handle.isUnspecified = true ∨ handle = f.handle) →
      (Object.filter { f with priority, handle }).Fulfils (.filter f) := by
  obtain ⟨options, hoptions, hsize, kind, action, hkind, haction, rfl⟩ :=
    (readsAs_iff hverb).mp hread
  simp only [Object.satisfies, satisfies, Bool.and_eq_true, beq_iff_eq] at hwanted
  obtain ⟨⟨-, rfl⟩, rfl⟩ := hwanted
  refine ⟨rfl, fun priority handle hpriority hhandle => ?_⟩
  have hreads : (Object.filter { f with priority, handle }).ReadsAs .change
      (.filter { f with priority, handle }) :=
    (readsAs_iff (by decide)).mpr ⟨options, hoptions, hsize, _, _, hkind, haction, rfl⟩
  refine ⟨_, Object.image?_of_readsAs (kind_filter_ne_link _) hreads, ?_⟩
  simp only [Object.satisfies, satisfies, sameSlot, Bool.and_eq_true, Bool.or_eq_true, beq_iff_eq]
  refine ⟨⟨⟨⟨⟨⟨trivial, trivial⟩, trivial⟩, ?_⟩, ?_⟩, trivial⟩, trivial⟩
  · by_cases hset : f.priority = 0
    · exact Or.inl (Or.inr hset)
    · exact Or.inr (hpriority hset)
  · rcases hhandle with hunset | rfl
    · exact Or.inl (Or.inr hunset)
    · exact Or.inr rfl

end Filter

namespace Link

theorem info_congr {link other : Link} (hkind : other.kind = link.kind)
    (hid : link.kind = .vlan → other.vlanId = link.vlanId) (hpeer : other.peer = link.peer)
    {fields : List Field} (h : link.info = .ok fields) : other.info = .ok fields := by
  have hdata {data : List Field} (hdata : link.infoData = .ok data) :
      other.infoData = .ok data := by
    rw [infoData] at hdata ⊢
    rw [hkind, hpeer]
    cases hlink : link.kind <;> rw [hlink] at hdata <;> try exact hdata
    cases hnumber : link.vlanId <;> rw [hnumber] at hdata
    · exact absurd hdata (by simp)
    · rw [hid hlink, hnumber]
      exact hdata
  rcases info_eq_ok_iff.mp h with ⟨hname, rfl⟩ | ⟨name, data, hname, hown, rfl⟩
  · exact info_eq_ok_iff.mpr (Or.inl ⟨hkind ▸ hname, rfl⟩)
  · exact info_eq_ok_iff.mpr (Or.inr ⟨name, data, hkind ▸ hname, hdata hown, rfl⟩)

theorem exists_info_of_info {link : Link} {fields : List Field} (h : link.info = .ok fields) :
    ∃ own, ({ link with peer := none } : Link).info = .ok own ∧
      Field.oversizedAmong? own = none := by
  cases hkind : link.kind with
  | vlan =>
      cases hid : link.vlanId with
      | none =>
          rw [info, infoData, hkind, hid] at h
          exact absurd h (by simp [LinkKind.kernelName?, bind, Except.bind])
      | some id =>
          rw [info, infoData]
          have hnumber : Field.oversizedAmong? [.nest infoAttr [Field.string infoKindAttr "vlan",
              .nest infoDataAttr [Field.u16 vlanIdAttr id]]] =
                Field.oversizedAmong? [.nest infoAttr [Field.string infoKindAttr "vlan",
                  .nest infoDataAttr [Field.u16 vlanIdAttr 0]]] := rfl
          exact ⟨_, rfl, hnumber.trans (by decide +kernel)⟩
  | veth =>
      exact ⟨[.nest infoAttr [Field.string infoKindAttr "veth"]], rfl, by decide +kernel⟩
  | _ =>
      rw [info, infoData]
      exact ⟨_, rfl, by decide +kernel⟩

theorem oversizedAmong?_kernelFields {link : Link} {info : List Field}
    (hname : Field.oversized? (Field.string nameAttr link.name) = none)
    (hinfo : Field.oversizedAmong? info = none) :
    Field.oversizedAmong? (.raw link.kernelHead.toBytes ::
      Field.string nameAttr link.name :: (optionalWord mtuAttr link.mtu ++
        optionalWord lowerAttr link.lower ++
          Field.u8 stateAttr link.state.number :: info)) = none := by
  have hword (kind : UInt16) (value : Option UInt32) :
      Field.oversizedAmong? (optionalWord kind value) = none := by
    cases value <;> rfl
  simp only [Field.oversizedAmong?, Field.oversizedAmong?_append, hword, hname, hinfo]
  rfl

theorem image?_eq {link : Link} {info : List Field} (hmade : link.info = .ok info)
    (hinfo : Field.oversizedAmong? info = none)
    (hsize : Field.oversized? (Field.string nameAttr link.name) = none)
    (hname : Value.string (Text.Utf8.encode link.name ++ [0]) = .ok link.name) :
    (Object.link link).image? = some (.link { link with
      kind := link.kind.told
      vlanId := if link.kind = .vlan then link.vlanId else none
      peer := none }) := by
  have hfields : link.kernelFields = .ok (.raw link.kernelHead.toBytes ::
      Field.string nameAttr link.name :: (optionalWord mtuAttr link.mtu ++
        optionalWord lowerAttr link.lower ++ Field.u8 stateAttr link.state.number :: info)) := by
    rw [kernelFields, hmade]
    rfl
  have hsmall := oversizedAmong?_kernelFields hsize hinfo
  refine Object.image?_eq_some_of_fields ?_ hsmall
    (Object.demand_eq_ok_some_iff.mpr ⟨_, ofPayload?_kernel hfields hsmall hname, rfl⟩)
  rw [Object.messageFields_newType]
  exact hfields

/-- The link that a request to create one tells, if its name can be read. -/
def asked (l : Link) : Link :=
  { new l.name l.kind with
    index := l.index
    flags := l.flags &&& upFlag
    mtu := l.mtu
    lower := l.lower
    vlanId := if l.kind = .vlan then l.vlanId else none }

theorem readsAs_create {l : Link} {told : Object} (hread : (Object.link l).ReadsAs .create told)
    (hwanted : told.satisfies (.link l) = true) (hnamed : l.name ≠ "") :
    told = .link l.asked ∧ Value.string (Text.Utf8.encode l.name ++ [0]) = .ok l.name ∧
      Field.oversized? (Field.string nameAttr l.name) = none ∧ l.kind.isCreatable = true ∧
      ∃ fields, l.info = .ok fields := by
  obtain ⟨fields, hfields, hsize, htold⟩ := hread
  obtain ⟨hkind, info, hinfo, hform⟩ := requestFields_create hfields
  obtain ⟨read, hpayload, rfl⟩ := Object.demand_eq_ok_some_iff.mp htold
  have hname : l.nameFields = [Field.string nameAttr l.name] := if_neg hnamed
  rw [hname] at hform
  have hsmall : Field.oversized? (Field.string nameAttr l.name) = none := by
    refine Field.oversizedAmong?_eq_none_iff.mp hsize _ ?_
    rw [hform]
    exact List.mem_cons_of_mem _ List.mem_cons_self
  obtain ⟨text, htext⟩ : ∃ text, Value.string (Text.Utf8.encode l.name ++ [0]) = .ok text := by
    rw [hform] at hpayload
    exact exists_name_of_ofPayload? hsmall hpayload
  have hreads : l.ReadsName text := by
    rw [ReadsName, if_neg hnamed]
    exact htext
  rw [ofPayload?_create hfields hsize hreads] at hpayload
  rw [← Option.some.inj hpayload] at hwanted ⊢
  have hname : text = l.name := by
    simp only [Object.satisfies, satisfies, Bool.and_eq_true, beq_iff_eq] at hwanted
    exact hwanted.2.1.1.1
  rw [hname] at htext ⊢
  exact ⟨rfl, htext, hsmall, hkind, info, hinfo⟩

theorem isUp_asked (flags : UInt32) : (flags &&& upFlag) &&& upFlag = flags &&& upFlag := by
  rw [UInt32.and_assoc, UInt32.and_self]

theorem isUp_created (up : Bool) :
    ((broadcastFlag ||| noArpFlag ||| carrierFlags up) &&& upFlag != 0) = up := by
  cases up <;> decide

theorem isUp_changed (flags : UInt32) (up : Bool) :
    ((flags &&& ~~~carrierFlags true ||| carrierFlags up) &&& upFlag != 0) = up := by
  have hcleared : ~~~carrierFlags true &&& upFlag = 0 := by decide
  rw [or_and_word, UInt32.and_assoc, hcleared, UInt32.and_zero, UInt32.zero_or]
  cases up <;> decide

theorem fulfils_create {l : Link} {told : Object} (hread : (Object.link l).ReadsAs .create told)
    (hwanted : told.satisfies (.link l) = true) (hnamed : l.name ≠ "") :
    told = .link l.asked ∧
      (l.index = 0 → ∀ peer : Peer, (Object.link (peer.newLinkOf l.asked)).Fulfils (.link l)) := by
  obtain ⟨rfl, htext, hsmall, hkind, fields, hinfo⟩ := readsAs_create hread hwanted hnamed
  refine ⟨rfl, fun hindex peer => ?_⟩
  obtain ⟨own, hown, hsize⟩ := exists_info_of_info hinfo
  have htold : l.kind.told = l.kind := by
    cases hlink : l.kind <;> first | rfl | exact absurd hkind (by rw [hlink]; decide)
  have hmade : (peer.newLinkOf l.asked).info = .ok own :=
    @info_congr { l with peer := none } (peer.newLinkOf l.asked) rfl
      (fun hvlan => if_pos hvlan) rfl _ hown
  refine ⟨_, image?_eq hmade hsize hsmall htext, ?_⟩
  simp only [Object.satisfies, satisfies, Bool.and_eq_true, Bool.or_eq_true, beq_iff_eq]
  refine ⟨Or.inl hindex, ⟨⟨rfl, Or.inr htold⟩, ?_⟩, ?_⟩
  · refine (isUp_created l.asked.isUp).trans ?_
    show (l.flags &&& upFlag &&& upFlag != 0) = l.isUp
    rw [isUp_asked]
    rfl
  · show l.mtu.all (fun mtu => l.mtu.or (some 1500) == some mtu) = true
    cases l.mtu <;> simp

/-- The link that a request to change one tells. -/
def askedChange (l : Link) (index : UInt32) : Link :=
  { new l.name .unknown with
    index
    flags := l.flags &&& upFlag
    mtu := l.mtu }

theorem readsAs_change {l : Link} {told : Object} (hread : (Object.link l).ReadsAs .create told)
    (hwanted : told.satisfies (.link l) = true) (hnamed : l.name ≠ "") {index : UInt32}
    {read : Object} (hchange : (Object.link { l with index }).ReadsAs .change read) :
    read = .link (l.askedChange index) := by
  obtain ⟨-, htext, -⟩ := readsAs_create hread hwanted hnamed
  obtain ⟨fields, hfields, hsize, htold⟩ := hchange
  rw [← Except.ok.inj ((requestFields_change { l with index }).symm.trans hfields)] at hsize htold
  obtain ⟨link, hpayload, rfl⟩ := Object.demand_eq_ok_some_iff.mp htold
  have hreads : ({ l with index } : Link).ReadsName l.name := by
    rw [ReadsName, if_neg (show ¬({ l with index } : Link).name = "" from hnamed)]
    exact htext
  exact congrArg Object.link
    (Option.some.inj (hpayload.symm.trans (ofPayload?_change hsize hreads)))

theorem fulfils_change {l : Link} {told : Object} (hread : (Object.link l).ReadsAs .create told)
    (hwanted : told.satisfies (.link l) = true) (hnamed : l.name ≠ "") {link : Link} {seen : Object}
    (hseen : (Object.link link).image? = some seen) (hindex : l.index = 0 ∨ link.index = l.index)
    (hkind : l.kind = .unknown ∨ link.kind.told = l.kind) (state : LinkState) {flags : UInt32}
    (hflags : ({ link with flags } : Link).isUp = l.isUp) :
    (Object.link { link with flags, state, mtu := l.mtu.or link.mtu, name := l.name }).Fulfils
      (.link l) := by
  obtain ⟨-, htext, hsmall, -⟩ := readsAs_create hread hwanted hnamed
  obtain ⟨⟨change, shown⟩, hshown, rfl⟩ := Option.map_eq_some_iff.mp hseen
  obtain ⟨fields, hfields, hsize, -, -⟩ := Object.told?_eq_some_iff.mp hshown
  rw [Object.messageFields_newType] at hfields
  obtain ⟨info, hinfo, rfl⟩ := kernelFields_eq_ok hfields
  have hinner : Field.oversizedAmong? info = none :=
    Field.oversizedAmong?_of_subset (fun _ h => List.mem_cons_of_mem _ (List.mem_cons_of_mem _
      (List.mem_append_right _ (List.mem_cons_of_mem _ h)))) hsize
  let stored : Link := { link with flags, state, mtu := l.mtu.or link.mtu, name := l.name }
  have hmade : stored.info = .ok info := @info_congr link stored rfl (fun _ => rfl) rfl _ hinfo
  refine ⟨_, image?_eq hmade hinner hsmall htext, ?_⟩
  simp only [Object.satisfies, satisfies, Bool.and_eq_true, Bool.or_eq_true, beq_iff_eq]
  refine ⟨hindex, ⟨⟨trivial, hkind⟩, hflags⟩, ?_⟩
  show l.mtu.all (fun mtu => l.mtu.or link.mtu == some mtu) = true
  cases l.mtu <;> simp

theorem kind_of_image? {link : Link} {image : Object} (h : (Object.link link).image? = some image) :
    ∃ seen : Link, image = .link seen ∧ seen.index = link.index ∧ seen.kind = link.kind.told := by
  obtain ⟨⟨change, shown⟩, hshown, rfl⟩ := Option.map_eq_some_iff.mp h
  obtain ⟨fields, hfields, hsize, -, hread⟩ := Object.told?_eq_some_iff.mp hshown
  rw [Object.messageFields_newType] at hfields
  obtain ⟨info, -, hform⟩ := kernelFields_eq_ok hfields
  obtain ⟨seen, hpayload, rfl⟩ := Object.demand_eq_ok_some_iff.mp hread
  obtain ⟨-, text, htext⟩ := hasReadableName_of_image? h
  rw [ofPayload?_kernel hfields hsize htext] at hpayload
  rw [← Option.some.inj hpayload]
  exact ⟨_, rfl, rfl, rfl⟩

end Link

/-- Whether a wish is understood, and says nothing that what is stored for it could never show: a
link has a name, and a discipline on the ingress side no handle but the one it always gets. -/
structure Object.Understood (wanted : Object) : Prop where
  valid : wanted.validate = .ok ()
  read : ∃ told, wanted.ReadsAs .create told ∧ told.satisfies wanted = true
  named : ∀ l, wanted = .link l → l.name ≠ ""
  free : ∀ d, wanted = .discipline d → d.HandleIsFree

/-- Whether a request can be the last one for a wish. One for a link goes by what is known of links,
and that must be so. -/
def Object.LeadsTo (inventory : Inventory) (peer : Peer) (wanted : Object) (step : Step) : Prop :=
  match wanted with
  | .link l => step = ⟨.link l, .create⟩ ∧ inventory.find? (.link l) = none ∨
      ∃ known, step = ⟨.link { l with index := known.index }, .change⟩ ∧
        inventory.find? (.link l) = some (.link known) ∧ known.changeableTo l = true ∧
        known.index ≠ 0 ∧ ∀ link, peer.links.get? known.index = some link →
          (Object.link link).image? = some (.link known)
  | wanted => step.object = wanted ∧ (step.verb = .create ∨ step.verb = .replace) ∧
      ∀ index link, peer.links.get? index = some link → link.HasReadableName

theorem Object.ReadsAs.create {object told : Object} {verb : Verb} (h : object.ReadsAs verb told)
    (hkind : object.kind ≠ .link) (hverb : verb = .create ∨ verb = .replace) :
    object.ReadsAs .create told := by
  rcases hverb with rfl | rfl
  · exact h
  · have hsame : object.requestFields .replace = object.requestFields .create := by
      cases object with
      | link l => exact absurd rfl hkind
      | _ => rfl
    rw [ReadsAs, hsame] at h
    exact h

theorem Object.ReadsAs.unique {object told other : Object} {verb : Verb}
    (h : object.ReadsAs verb told) (hother : object.ReadsAs verb other) : other = told := by
  obtain ⟨fields, hfields, -, hread⟩ := h
  obtain ⟨left, hleft, -, hagain⟩ := hother
  rw [← Except.ok.inj (hfields.symm.trans hleft)] at hagain
  exact Option.some.inj (Except.ok.inj (hagain.symm.trans hread))

theorem Filter.interface_of_validate {f : Filter} (h : f.validate = .ok ()) : f.interface ≠ 0 := by
  rw [validate] at h
  split at h
  · exact absurd h (by simp)
  · rename_i hplaced
    exact fun hzero => hplaced (Or.inl hzero)

namespace Link

variable {inventory : Inventory} {peer : Peer} {l : Link} {told stored : Object} {flags : UInt16}

theorem fulfils_of_create (h : (Object.link l).Understood)
    (hnone : inventory.find? (.link l) = none) (hread : (Object.link l).ReadsAs .create told)
    (hflags : flags &&& (Flag.create ||| Flag.exclusive) = Flag.create ||| Flag.exclusive)
    (hstores : peer.Stores flags told stored) :
    ∃ image, stored.image? = some image ∧ image.satisfies (.link l) = true ∧
      inventory.Suits image (.link l) := by
  obtain ⟨asked, hasked, hwanted⟩ := h.read
  obtain ⟨rfl, hfulfils⟩ := fulfils_create hread (hasked.unique hread ▸ hwanted) (h.named l rfl)
  rcases hstores with ⟨hzero, -, -, rfl⟩ | ⟨link, -, hfree, -⟩
  · obtain ⟨image, himage, hdoes⟩ := hfulfils hzero peer
    refine ⟨image, himage, hdoes, fun hzero known hknown => ?_⟩
    simp only [Inventory.find?, if_pos hzero, hknown] at hnone
    exact absurd hnone (by simp)
  · exact absurd hflags hfree

theorem fulfils_of_change (hconsistent : inventory.Consistent) (h : (Object.link l).Understood)
    {known : Link} (hfound : inventory.find? (.link l) = some (.link known))
    (hchangeable : known.changeableTo l = true) (hindex : known.index ≠ 0)
    (hlinks : ∀ link, peer.links.get? known.index = some link →
      (Object.link link).image? = some (.link known))
    (hread : (Object.link { l with index := known.index }).ReadsAs .change told)
    (hstores : peer.Stores flags told stored) :
    ∃ image, stored.image? = some image ∧ image.satisfies (.link l) = true ∧
      inventory.Suits image (.link l) := by
  obtain ⟨asked, hasked, hwanted⟩ := h.read
  have hnamed := h.named l rfl
  obtain rfl := readsAs_change hasked hwanted hnamed hread
  rcases hstores with ⟨hzero, -⟩ | ⟨link, hresolved, -, rfl⟩
  · exact absurd hzero hindex
  · rw [resolveLink, if_neg (show ¬(l.askedChange known.index).index = 0 from hindex)]
      at hresolved
    have hseen := hlinks link hresolved
    obtain ⟨seen, hsame, hnumber, hkind⟩ := kind_of_image? hseen
    obtain rfl := Object.link.inj hsame
    have hplace : l.index = 0 ∨ link.index = l.index :=
      (hconsistent.link_of_find? hfound).imp And.left fun hset => hnumber.symm.trans hset.2
    have hkept : l.kind = .unknown ∨ link.kind.told = l.kind := by
      simpa [changeableTo, hkind] using hchangeable
    have hup : ({ link with
        flags := link.flags &&& ~~~carrierFlags true |||
          carrierFlags (l.askedChange known.index).isUp } : Link).isUp = l.isUp := by
      refine (isUp_changed link.flags _).trans ?_
      show (l.flags &&& upFlag &&& upFlag != 0) = l.isUp
      rw [isUp_asked]
      rfl
    obtain ⟨image, himage, hdoes⟩ := fulfils_change hasked hwanted hnamed hseen hplace hkept
      (stateOf (l.askedChange known.index).isUp) hup
    have hname : (if (l.askedChange known.index).name = "" then link.name
        else (l.askedChange known.index).name) = l.name := if_neg hnamed
    rw [hname]
    refine ⟨image, himage, hdoes, fun hzero other hother => ?_⟩
    obtain rfl : other = known := by
      rcases hconsistent.link_of_find? hfound with ⟨-, hnamed⟩ | ⟨hset, -⟩
      · exact Option.some.inj (hother.symm.trans hnamed)
      · exact absurd hzero hset
    rw [(Object.resembles_of_image? himage).slot, Object.slot, Object.slot, Object.key, Object.key,
      hnumber]
    rfl

end Link

/-- What is stored for a wish that is understood, by a request that can be the last one for it, is
as wanted and can be found. -/
theorem Object.fulfils_of_stores {inventory : Inventory} (hconsistent : inventory.Consistent)
    {peer : Peer} {wanted : Object} (h : wanted.Understood) {step : Step}
    (hleads : wanted.LeadsTo inventory peer step) {told : Object}
    (hread : step.object.ReadsAs step.verb told) {flags : UInt16}
    (hflags : step.verb = .create →
      flags &&& (Flag.create ||| Flag.exclusive) = Flag.create ||| Flag.exclusive)
    {stored : Object} (hstores : peer.Stores flags told stored) :
    ∃ image, stored.image? = some image ∧ image.satisfies wanted = true ∧
      inventory.Suits image wanted := by
  obtain ⟨object, verb⟩ := step
  obtain ⟨asked, hasked, hwanted⟩ := h.read
  cases wanted with
  | link l =>
      rcases hleads with ⟨hstep, hnone⟩ | ⟨known, hstep, hfound, hchangeable, hindex, hlinks⟩
      · cases hstep
        exact Link.fulfils_of_create h hnone hread (hflags rfl) hstores
      · cases hstep
        exact Link.fulfils_of_change hconsistent h hfound hchangeable hindex hlinks hread hstores
  | address a =>
      obtain ⟨rfl, hverb, hnames⟩ := hleads
      obtain rfl := hasked.unique (hread.create (kind_address_ne_link a) hverb)
      obtain ⟨read, rfl, hfulfils⟩ := Address.fulfils (by decide) hasked hwanted
      obtain ⟨link, hlink, rfl⟩ := hstores
      obtain ⟨image, himage, hdoes⟩ := hfulfils link (hnames _ link hlink)
      exact ⟨image, himage, hdoes, trivial⟩
  | route r =>
      obtain ⟨rfl, hverb, -⟩ := hleads
      obtain rfl := hasked.unique (hread.create (kind_route_ne_link r) hverb)
      obtain ⟨read, rfl, hfulfils⟩ := Route.fulfils (by decide) hasked hwanted
      obtain ⟨interface, hinterface, rfl⟩ := hstores
      obtain ⟨image, himage, hdoes⟩ := hfulfils interface hinterface
      exact ⟨image, himage, hdoes, trivial⟩
  | discipline d =>
      obtain ⟨rfl, hverb, -⟩ := hleads
      obtain rfl := hasked.unique (hread.create (kind_discipline_ne_link d) hverb)
      obtain ⟨rfl, hfulfils⟩ := Discipline.fulfils h.valid (by decide) hasked hwanted (h.free d rfl)
      obtain ⟨image, himage, hdoes⟩ := hfulfils hstores
      exact ⟨image, himage, hdoes, trivial⟩
  | filter f =>
      obtain ⟨rfl, hverb, -⟩ := hleads
      obtain rfl := hasked.unique (hread.create (kind_filter_ne_link f) hverb)
      obtain ⟨rfl, hfulfils⟩ := Filter.fulfils (by decide) hasked hwanted
      obtain ⟨priority, handle, hpriority, hhandle, rfl⟩ := hstores
      obtain ⟨image, himage, hdoes⟩ := hfulfils priority handle hpriority hhandle
      refine ⟨image, himage, hdoes, Filter.interface_of_validate h.valid, fun hkeyed => ?_⟩
      simp only [Filter.isKeyed, Bool.and_eq_true, bne_iff_ne, ne_eq, Bool.not_eq_true'] at hkeyed
      rw [(Object.resembles_of_image? himage).slot, hpriority hkeyed.1]
      rcases hhandle with hunset | rfl
      · exact absurd hunset (by simp [hkeyed.2])
      · rfl

end NetState
