import NetState.Proofs.Prefix
import NetState.Proofs.Wire
import NetState.Route.Wire

namespace NetState

theorem Ip.mask_mask (address : Ip) (length : UInt8) :
    (address.mask length).mask length = address.mask length := by
  rw [mask_mask_min, show min length length = length from ite_self length]

theorem Ip.isV6_mask (address : Ip) (length : UInt8) :
    (address.mask length).isV6 = address.isV6 := by
  cases address <;> rfl

theorem Ip.unspecified_family (address : Ip) :
    unspecified address.family = match address with
      | v4 _ => v4 0
      | v6 _ => v6 0 := by
  cases address <;> rfl

theorem Ip.mask_zero (address : Ip) : address.mask 0 = (unspecified address.family).mask 0 := by
  rw [unspecified_family]
  cases address with
  | v4 bits =>
      simp only [mask, keep, Ip.v4.injEq]
      rw [BitVec.shiftLeft_eq_zero (by decide), BitVec.and_zero, BitVec.and_zero]
  | v6 bits =>
      simp only [mask, keep, Ip.v6.injEq]
      rw [BitVec.shiftLeft_eq_zero (by decide), BitVec.and_zero, BitVec.and_zero]

namespace Route

theorem read_toBytes (head : RouteHead) : RouteHead.read head.toBytes = head := by
  have hflags : head.toBytes.u32At 8 = head.flags := Bytes.toUInt32_ofUInt32 head.flags
  rw [RouteHead.read, hflags]
  rfl

/-- The attributes that tell a route from others. -/
def identityAttrs (route : Route) : List Attribute :=
  ⟨tableAttr, Bytes.ofUInt32 route.table⟩ ::
    (if 0 < route.length then [⟨destinationAttr, route.destination.toBytes⟩] else []) ++
    [⟨metricAttr, Bytes.ofUInt32 route.effectiveMetric⟩]

def hopAttrs (route : Route) : List Attribute :=
  (if route.interface = 0 then [] else [⟨interfaceAttr, Bytes.ofUInt32 route.interface⟩]) ++
    route.gateway.toList.map (fun gateway => ⟨gatewayAttr, gateway.toBytes⟩) ++
    route.source.toList.map fun source => ⟨sourceAttr, source.toBytes⟩

def requestAttrs (route : Route) (verb : Verb) : List Attribute :=
  route.identityAttrs ++ if verb = .delete then [] else route.hopAttrs

theorem map_identityAttrs (route : Route) :
    route.identityAttrs.map Field.ofAttribute = Field.u32 tableAttr route.table ::
      (if 0 < route.length then [Field.ip destinationAttr route.destination] else []) ++
        [Field.u32 metricAttr route.effectiveMetric] := by
  rw [identityAttrs]
  split <;> rfl

theorem map_hopAttrs (route : Route) :
    route.hopAttrs.map Field.ofAttribute =
      (if route.interface = 0 then [] else [Field.u32 interfaceAttr route.interface]) ++
        route.gateway.toList.map (Field.ip gatewayAttr) ++
          route.source.toList.map (Field.ip sourceAttr) := by
  rw [hopAttrs, List.map_append, List.map_append, List.map_map, List.map_map]
  split <;> rfl

theorem isV6_gateway_of_requestFields {route : Route} {verb : Verb} {fields : List Field}
    (h : route.requestFields verb = .ok fields) {gateway : Ip}
    (hgateway : route.gateway = some gateway) : gateway.isV6 = route.isV6 := by
  rw [requestFields, hgateway] at h
  simp only at h
  split at h
  · exact absurd h nofun
  · rename_i hfamily
    simpa using hfamily

theorem requestFields_of_isV6_gateway {route : Route}
    (h : ∀ gateway, route.gateway = some gateway → gateway.isV6 = route.isV6) (verb : Verb) :
    route.requestFields verb = .ok (.raw (route.requestHead verb).toBytes ::
      (route.requestAttrs verb).map Field.ofAttribute) := by
  have hguard : route.requestFields verb =
      if verb = .delete then
        .ok (.raw (route.requestHead verb).toBytes :: route.identityAttrs.map Field.ofAttribute)
      else .ok (.raw (route.requestHead verb).toBytes ::
        (route.identityAttrs.map Field.ofAttribute ++ route.hopAttrs.map Field.ofAttribute)) := by
    rw [requestFields, map_identityAttrs, map_hopAttrs]
    cases hgateway : route.gateway with
    | none => simp [pure, Except.pure]
    | some gateway => simp [h gateway hgateway, pure, Except.pure]
  rw [hguard, requestAttrs]
  split
  · rw [List.append_nil]
  · rw [List.map_append]

theorem requestFields_eq_ok_iff {route : Route} {verb : Verb} {fields : List Field} :
    route.requestFields verb = .ok fields ↔
      (∀ gateway, route.gateway = some gateway → gateway.isV6 = route.isV6) ∧
        fields = .raw (route.requestHead verb).toBytes ::
          (route.requestAttrs verb).map Field.ofAttribute := by
  constructor
  · intro h
    have hgateway : ∀ gateway, route.gateway = some gateway → gateway.isV6 = route.isV6 :=
      fun _ => isV6_gateway_of_requestFields h
    exact ⟨hgateway, Except.ok.inj (h.symm.trans (requestFields_of_isV6_gateway hgateway verb))⟩
  · rintro ⟨hgateway, rfl⟩
    exact requestFields_of_isV6_gateway hgateway verb

def started (head : RouteHead) : Route where
  table := head.table.toUInt32
  tos := head.tos
  destination := .unspecified head.family
  length := head.length
  metric := 0
  interface := 0
  gateway := none
  source := none
  protocol := head.protocol
  scope := head.scope
  kind := head.kind
  flags := head.flags

theorem ofPayload?_eq_some_iff {head : RouteHead} {fields : List Field} {route : Route} :
    ofPayload? (Field.encodeAll (.raw head.toBytes :: fields)) = some route ↔
      ∃ attrs read, Attribute.readAll? (Field.encodeAll fields) = some attrs ∧
        attrs.foldlM (readAttribute head.family) (started head) = some read ∧
        route = { read with destination := read.destination.mask read.length } := by
  have hsplit : Bytes.split? RouteHead.size (Field.encodeAll (.raw head.toBytes :: fields)) =
      some (head.toBytes, Field.encodeAll fields) :=
    Field.split?_encodeAll head.toBytes ⟨3, rfl⟩ fields
  rw [ofPayload?, hsplit]
  show ((Attribute.readAll? (Field.encodeAll fields)).bind fun attrs =>
    (attrs.foldlM (readAttribute (RouteHead.read head.toBytes).family) _).bind fun read => _) =
      some route ↔ _
  rw [read_toBytes]
  constructor
  · intro h
    obtain ⟨attrs, hattrs, h⟩ := Option.bind_eq_some_iff.mp h
    obtain ⟨read, hread, h⟩ := Option.bind_eq_some_iff.mp h
    exact ⟨attrs, read, hattrs, hread, (Option.some.inj h).symm⟩
  · rintro ⟨attrs, read, hattrs, hread, rfl⟩
    rw [hattrs, Option.bind_some]
    exact Option.bind_eq_some_iff.mpr ⟨read, hread, rfl⟩

theorem foldlM_identityAttrs (route start : Route) :
    route.identityAttrs.foldlM (readAttribute route.destination.family) start =
      some { start with
        table := route.table
        destination := if 0 < route.length then route.destination else start.destination
        metric := route.effectiveMetric } := by
  have htable (seen : Route) : seen.readAttribute route.destination.family
      ⟨tableAttr, Bytes.ofUInt32 route.table⟩ = some { seen with table := route.table } := by
    rw [readAttribute, if_pos rfl, Value.u32_ofUInt32]
    rfl
  have hdestination (seen : Route) : seen.readAttribute route.destination.family
      ⟨destinationAttr, route.destination.toBytes⟩ =
        some { seen with destination := route.destination } := by
    have htype : ¬destinationAttr = tableAttr := by decide
    rw [readAttribute, if_neg htype, if_pos rfl, Value.ip_toBytes]
    rfl
  have hmetric (seen : Route) : seen.readAttribute route.destination.family
      ⟨metricAttr, Bytes.ofUInt32 route.effectiveMetric⟩ =
        some { seen with metric := route.effectiveMetric } := by
    have htable : ¬metricAttr = tableAttr := by decide
    have hdestination : ¬metricAttr = destinationAttr := by decide
    rw [readAttribute, if_neg htable, if_neg hdestination, if_pos rfl, Value.u32_ofUInt32]
    rfl
  rw [identityAttrs, List.cons_append, List.foldlM_cons, htable]
  show List.foldlM _ _ _ = _
  split
  · rw [List.singleton_append, List.foldlM_cons, hdestination]
    show List.foldlM _ _ _ = _
    rw [List.foldlM_cons, hmetric]
    rfl
  · rw [List.nil_append, List.foldlM_cons, hmetric]
    rfl

/-- What of a route is read from the fixed part and from the attributes that tell it from others. -/
def identity (route : Route) : UInt32 × UInt8 × Ip × UInt8 × UInt32 × UInt8 × UInt32 :=
  (route.table, route.tos, route.destination, route.length, route.metric, route.kind, route.flags)

def wayAttrs (route : Route) : List Attribute :=
  route.gateway.toList.map (fun gateway => ⟨gatewayAttr, gateway.toBytes⟩) ++
    route.source.toList.map fun source => ⟨sourceAttr, source.toBytes⟩

theorem kind_of_mem_wayAttrs {route : Route} {attr : Attribute} (h : attr ∈ route.wayAttrs) :
    attr.kind ∈ [gatewayAttr, sourceAttr] := by
  rcases List.mem_append.mp h with h | h
  · obtain ⟨gateway, -, rfl⟩ := List.mem_map.mp h
    simp
  · obtain ⟨source, -, rfl⟩ := List.mem_map.mp h
    simp

/-- What is read in a message of a family where an address was written, if there is one. -/
def readHop? (family : UInt8) : Option Ip → Option (Option Ip)
  | none => some none
  | some ip => (Value.ip family ip.toBytes).toOption.map some

theorem readHop?_self {family : UInt8} {hop read : Option Ip}
    (hread : readHop? family hop = some read)
    (hwanted : hop.all (fun ip => read == some ip) = true) : read = hop := by
  cases hop with
  | none => exact (Option.some.inj hread).symm
  | some ip => simpa using hwanted

theorem foldlM_interface (family : UInt8) {start : Route} (hstart : start.interface = 0)
    (interface : UInt32) :
    (if interface = 0 then []
      else [(⟨interfaceAttr, Bytes.ofUInt32 interface⟩ : Attribute)]).foldlM
        (readAttribute family) start = some { start with interface } := by
  split
  · rename_i hzero
    rw [hzero, ← hstart]
    rfl
  · have hothers : ¬interfaceAttr = tableAttr ∧ ¬interfaceAttr = destinationAttr ∧
        ¬interfaceAttr = metricAttr := by
      decide
    rw [List.foldlM_cons, readAttribute, if_neg hothers.1, if_neg hothers.2.1, if_neg hothers.2.2,
      if_pos rfl, Value.u32_ofUInt32]
    rfl

theorem foldlM_hop {family : UInt8} {kind : UInt16} (put : Route → Option Ip → Route)
    (hread : ∀ start payload, readAttribute family start ⟨kind, payload⟩ =
      (Value.ip family payload).toOption.map fun ip => put start (some ip))
    (start : Route) (hstart : put start none = start) (hop : Option Ip) :
    (hop.toList.map fun ip => (⟨kind, ip.toBytes⟩ : Attribute)).foldlM
        (readAttribute family) start = (readHop? family hop).map (put start) := by
  cases hop with
  | none => exact congrArg some hstart.symm
  | some ip =>
      rw [Option.toList_some, List.map_singleton, List.foldlM_cons, hread, readHop?]
      cases (Value.ip family ip.toBytes).toOption <;> rfl

theorem readAttribute_gateway (family : UInt8) (start : Route) (payload : Bytes) :
    readAttribute family start ⟨gatewayAttr, payload⟩ =
      (Value.ip family payload).toOption.map fun ip => { start with gateway := some ip } := by
  have hothers : ¬gatewayAttr = tableAttr ∧ ¬gatewayAttr = destinationAttr ∧
      ¬gatewayAttr = metricAttr ∧ ¬gatewayAttr = interfaceAttr := by
    decide
  rw [readAttribute, if_neg hothers.1, if_neg hothers.2.1, if_neg hothers.2.2.1,
    if_neg hothers.2.2.2, if_pos rfl]

theorem readAttribute_source (family : UInt8) (start : Route) (payload : Bytes) :
    readAttribute family start ⟨sourceAttr, payload⟩ =
      (Value.ip family payload).toOption.map fun ip => { start with source := some ip } := by
  have hothers : ¬sourceAttr = tableAttr ∧ ¬sourceAttr = destinationAttr ∧
      ¬sourceAttr = metricAttr ∧ ¬sourceAttr = interfaceAttr ∧ ¬sourceAttr = gatewayAttr := by
    decide
  rw [readAttribute, if_neg hothers.1, if_neg hothers.2.1, if_neg hothers.2.2.1,
    if_neg hothers.2.2.2.1, if_neg hothers.2.2.2.2, if_pos rfl]

theorem foldlM_hopAttrs (route : Route) (family : UInt8) {start : Route}
    (hinterface : start.interface = 0) (hgateway : start.gateway = none)
    (hsource : start.source = none) :
    route.hopAttrs.foldlM (readAttribute family) start =
      (readHop? family route.gateway).bind fun gateway =>
        (readHop? family route.source).map fun source =>
          { start with interface := route.interface, gateway, source } := by
  have hfirst := foldlM_hop (fun start gateway => { start with gateway })
    (readAttribute_gateway family) { start with interface := route.interface }
    (by rw [← hgateway]) route.gateway
  rw [hopAttrs, List.foldlM_append, List.foldlM_append, foldlM_interface family hinterface]
  refine (congrArg (Option.bind · _) hfirst).trans ?_
  rw [Option.bind_map]
  congr 1
  funext gateway
  exact foldlM_hop (fun start source => { start with source }) (readAttribute_source family)
    { start with interface := route.interface, gateway } (by rw [← hsource]) route.source

theorem unmarked_requestAttrs (route : Route) (verb : Verb) :
    ∀ attr ∈ route.requestAttrs verb, Attribute.unmarked attr.kind = attr.kind := by
  have hidentity : ∀ attr ∈ route.identityAttrs,
      attr.kind ∈ [tableAttr, destinationAttr, metricAttr] := by
    rw [identityAttrs]
    split <;> simp
  have hhops : ∀ attr ∈ route.hopAttrs,
      attr.kind ∈ [interfaceAttr, gatewayAttr, sourceAttr] := by
    intro attr hattr
    rw [hopAttrs, List.append_assoc, ← wayAttrs] at hattr
    rcases List.mem_append.mp hattr with hattr | hattr
    · split at hattr
      · exact absurd hattr (by simp)
      · rw [List.mem_singleton.mp hattr]
        exact List.mem_cons_self
    · exact List.mem_cons_of_mem _ (kind_of_mem_wayAttrs hattr)
  have hkinds : ∀ kind ∈ [tableAttr, destinationAttr, metricAttr, interfaceAttr, gatewayAttr,
      sourceAttr], Attribute.unmarked kind = kind := by
    simp only [List.mem_cons, List.not_mem_nil, or_false, forall_eq_or_imp, forall_eq]
    decide
  intro attr hattr
  rw [requestAttrs] at hattr
  rcases List.mem_append.mp hattr with hattr | hattr
  · exact hkinds attr.kind (List.mem_append_left _ (hidentity attr hattr))
  · split at hattr
    · exact absurd hattr (by simp)
    · exact hkinds attr.kind
        (List.mem_append_right [tableAttr, destinationAttr, metricAttr] (hhops attr hattr))

theorem mask_told (route : Route) : (if 0 < route.length then route.destination
    else Ip.unspecified route.destination.family).mask route.length =
      route.destination.mask route.length := by
  split
  · rfl
  · rename_i hlength
    have hzero : route.length = 0 := by
      rw [← UInt8.toNat_inj]
      rw [UInt8.lt_iff_toNat_lt] at hlength
      exact Nat.eq_zero_of_not_pos hlength
    rw [hzero]
    exact (Ip.mask_zero _).symm

theorem ofPayload?_eq {route : Route} {verb : Verb} (hverb : verb ≠ .delete) {fields : List Field}
    (hfields : route.requestFields verb = .ok fields)
    (hsize : Field.oversizedAmong? fields = none) :
    ofPayload? (Field.encodeAll fields) =
      (readHop? route.destination.family route.gateway).bind fun gateway =>
        (readHop? route.destination.family route.source).map fun source =>
          { route with
            destination := route.destination.mask route.length
            metric := route.effectiveMetric
            gateway, source
            scope := route.requestScope verb
            flags := 0 } := by
  obtain ⟨-, rfl⟩ := requestFields_eq_ok_iff.mp hfields
  have hattrs := Attribute.readAll?_ofAttribute (route.unmarked_requestAttrs verb) hsize
  have hprotocol : (route.requestHead verb).protocol = route.protocol := if_neg hverb
  have hfold : (route.requestAttrs verb).foldlM (readAttribute route.destination.family)
      (started (route.requestHead verb)) =
        (readHop? route.destination.family route.gateway).bind fun gateway =>
          (readHop? route.destination.family route.source).map fun source =>
            { route with
              destination := if 0 < route.length then route.destination
                else Ip.unspecified route.destination.family
              metric := route.effectiveMetric
              gateway, source
              scope := route.requestScope verb
              flags := 0 } := by
    rw [requestAttrs, if_neg hverb, List.foldlM_append, foldlM_identityAttrs]
    refine (foldlM_hopAttrs route _ rfl rfl rfl).trans ?_
    rw [started, hprotocol]
    rfl
  -- Where a hop cannot be read both sides fail, so they are compared by the images they come to.
  refine Option.ext fun image => ?_
  rw [ofPayload?_eq_some_iff]
  constructor
  · rintro ⟨attrs, read, hall, hread, rfl⟩
    rw [← Option.some.inj (hattrs.symm.trans hall)] at hread
    obtain ⟨gateway, hgateway, hread⟩ := Option.bind_eq_some_iff.mp (hfold.symm.trans hread)
    obtain ⟨source, hsource, rfl⟩ := Option.map_eq_some_iff.mp hread
    rw [hgateway, Option.bind_some, hsource, Option.map_some]
    simp only [mask_told]
  · intro himage
    obtain ⟨gateway, hgateway, himage⟩ := Option.bind_eq_some_iff.mp himage
    obtain ⟨source, hsource, rfl⟩ := Option.map_eq_some_iff.mp himage
    rw [hgateway, Option.bind_some, hsource, Option.map_some] at hfold
    refine ⟨_, _, hattrs, hfold, ?_⟩
    simp only [mask_told]

theorem identity_of_ofPayload? {route image : Route} {verb : Verb} {fields : List Field}
    (hfields : route.requestFields verb = .ok fields)
    (hsize : Field.oversizedAmong? fields = none)
    (h : ofPayload? (Field.encodeAll fields) = some image) :
    image.identity = (route.table, route.tos, route.destination.mask route.length, route.length,
        route.effectiveMetric, route.kind, 0) ∧
      (verb ≠ .delete → image.interface = route.interface) := by
  by_cases hverb : verb = .delete
  · obtain ⟨-, rfl⟩ := requestFields_eq_ok_iff.mp hfields
    obtain ⟨attrs, read, hattrs, hread, rfl⟩ := ofPayload?_eq_some_iff.mp h
    rw [Attribute.readAll?_ofAttribute (route.unmarked_requestAttrs verb) hsize] at hattrs
    have hfamily : (route.requestHead verb).family = route.destination.family := rfl
    rw [← Option.some.inj hattrs, requestAttrs, if_pos hverb, List.append_nil, hfamily,
      foldlM_identityAttrs] at hread
    rw [← Option.some.inj hread]
    refine ⟨?_, fun hne => absurd hverb hne⟩
    simp only [identity, started, requestHead, mask_told]
  · rw [ofPayload?_eq hverb hfields hsize] at h
    obtain ⟨gateway, -, h⟩ := Option.bind_eq_some_iff.mp h
    obtain ⟨source, -, rfl⟩ := Option.map_eq_some_iff.mp h
    exact ⟨rfl, fun _ => rfl⟩

theorem exists_ofPayload?_delete {route : Route} {fields : List Field}
    (hfields : route.requestFields .delete = .ok fields)
    (hsize : Field.oversizedAmong? fields = none) :
    ∃ image, ofPayload? (Field.encodeAll fields) = some image := by
  obtain ⟨-, rfl⟩ := requestFields_eq_ok_iff.mp hfields
  have hread := Attribute.readAll?_ofAttribute (route.unmarked_requestAttrs .delete) hsize
  have hattrs : route.requestAttrs .delete = route.identityAttrs := by
    rw [requestAttrs, if_pos rfl, List.append_nil]
  have htold := foldlM_identityAttrs route (started (route.requestHead .delete))
  rw [← hattrs] at htold
  exact ⟨_, ofPayload?_eq_some_iff.mpr ⟨_, _, hread, htold, rfl⟩⟩

theorem atMost_requestFields {route : Route} {verb : Verb} {fields : List Field}
    (h : route.requestFields verb = .ok fields) : Field.AtMost 16 fields := by
  obtain ⟨-, rfl⟩ := requestFields_eq_ok_iff.mp h
  have hidentity : route.identityAttrs.length ≤ 3 := by
    rw [identityAttrs]
    split <;> simp
  have hhops : route.hopAttrs.length ≤ 3 := by
    rw [hopAttrs, List.length_append, List.length_append, List.length_map, List.length_map]
    show _ ≤ 1 + 1 + 1
    refine Nat.add_le_add (Nat.add_le_add ?_ ?_) ?_
    · split <;> simp
    · cases route.gateway <;> simp
    · cases route.source <;> simp
  have hattrs : (route.requestAttrs verb).length ≤ 6 := by
    rw [requestAttrs, List.length_append]
    show _ ≤ 3 + 3
    refine Nat.add_le_add hidentity ?_
    split
    · exact Nat.zero_le _
    · exact hhops
  exact (Field.atMost_cons_raw (route.requestHead verb).toBytes
    (show _ = RouteHead.size from rfl) (by decide)
    (Field.atMost_ofAttribute hattrs)).mono (by decide)

end Route

end NetState
