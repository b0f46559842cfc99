import NetState.Address.Wire
import NetState.Proofs.Wire

namespace NetState

namespace Address

theorem read_toBytes (head : AddressHead) : AddressHead.read head.toBytes = head := by
  have hinterface : head.toBytes.u32At 4 = head.interface :=
    Bytes.toUInt32_ofUInt32 head.interface
  rw [AddressHead.read, hinterface]
  rfl

/-- The attributes that tell an address: in version 4 it is written twice. -/
def identityAttrs (ip : Ip) : List Attribute :=
  (if ip.isV6 then [] else [⟨localAttr, ip.toBytes⟩]) ++ [⟨ipAttr, ip.toBytes⟩]

def otherAttrs : List UInt16 :=
  [labelAttr, flagsAttr, lifetimeAttr]

def requestHead (address : Address) : AddressHead :=
  ⟨address.ip.family, address.length, address.flags.toUInt8, address.scope.getD 0,
    address.interface⟩

/-- The attributes that tell what can change while it stays the same address. -/
def detailAttrs (address : Address) : List Attribute :=
  address.label.toList.map (fun label => ⟨labelAttr, Text.Utf8.encode label ++ [0]⟩) ++
    (if 0xFF < address.flags then [⟨flagsAttr, Bytes.ofUInt32 address.flags⟩] else []) ++
    (if address.validFor = forever ∧ address.preferredFor = forever then []
      else [⟨lifetimeAttr, address.lifetimeBytes⟩])

theorem requestFields_delete (address : Address) :
    address.requestFields .delete = .ok (.raw address.requestHead.toBytes ::
      (identityAttrs address.ip).map Field.ofAttribute) := by
  rw [requestFields, identityAttrs]
  cases address.ip.isV6 <;> rfl

theorem requestFields_eq_ok_iff {address : Address} {verb : Verb} (hverb : verb ≠ .delete)
    {fields : List Field} : address.requestFields verb = .ok fields ↔
      (address.ip.isV6 = true → address.label = none) ∧
        fields = .raw address.requestHead.toBytes ::
          (identityAttrs address.ip ++ address.detailAttrs).map Field.ofAttribute := by
  have hidentity : .raw address.requestHead.toBytes ::
      (if address.ip.isV6 then [] else [Field.ip localAttr address.ip]) ++
        [Field.ip ipAttr address.ip] =
      .raw address.requestHead.toBytes :: (identityAttrs address.ip).map Field.ofAttribute := by
    rw [identityAttrs]
    split <;> rfl
  have hdetails : address.label.toList.map (Field.string labelAttr) ++
      (if 0xFF < address.flags then [Field.u32 flagsAttr address.flags] else []) ++
        (if address.validFor = forever ∧ address.preferredFor = forever then []
          else [.leaf lifetimeAttr address.lifetimeBytes]) =
      address.detailAttrs.map Field.ofAttribute := by
    simp only [detailAttrs, List.map_append, List.map_map]
    congr 1
    · congr 1
      split <;> rfl
    · split <;> rfl
  have hwritten : address.requestFields verb =
      if address.label.isSome && address.ip.isV6 then .error (.invalidArgument .labelNotV4)
      else .ok (.raw address.requestHead.toBytes ::
        (identityAttrs address.ip ++ address.detailAttrs).map Field.ofAttribute) := by
    rw [requestFields]
    simp only
    rw [if_neg hverb]
    split
    · rfl
    · rw [List.map_append, ← hdetails, ← List.cons_append, ← hidentity]
      simp only [List.append_assoc]
      rfl
  rw [hwritten]
  have hlabel : (address.label.isSome && address.ip.isV6) = true ↔
      ¬(address.ip.isV6 = true → address.label = none) := by
    rw [Bool.and_eq_true, Option.isSome_iff_ne_none, Classical.not_imp, and_comm]
  split
  next h => exact ⟨nofun, fun hfields => absurd hfields.1 (hlabel.mp h)⟩
  next h =>
    rw [Except.ok.injEq]
    exact ⟨fun hfields => ⟨Classical.not_not.mp fun hnot => h (hlabel.mpr hnot), hfields.symm⟩,
      fun hfields => hfields.2.symm⟩

theorem kind_of_mem_detailAttrs {address : Address} {attr : Attribute}
    (h : attr ∈ address.detailAttrs) : attr.kind ∈ otherAttrs := by
  simp only [detailAttrs, List.mem_append] at h
  rcases h with (h | h) | h
  · obtain ⟨label, -, rfl⟩ := List.mem_map.mp h
    simp [otherAttrs]
  · split at h
    · rw [List.mem_singleton.mp h]
      simp [otherAttrs]
    · exact absurd h (by simp)
  · split at h
    · exact absurd h (by simp)
    · rw [List.mem_singleton.mp h]
      simp [otherAttrs]

theorem length_detailAttrs (address : Address) : address.detailAttrs.length ≤ 3 := by
  rw [detailAttrs, List.length_append, List.length_append, List.length_map]
  show _ ≤ 1 + 1 + 1
  refine Nat.add_le_add (Nat.add_le_add ?_ ?_) ?_
  · cases address.label <;> simp
  · split <;> simp
  · split <;> simp

theorem requestFields_eq_ok {address : Address} {verb : Verb} {fields : List Field}
    (h : address.requestFields verb = .ok fields) :
    ∃ more : List Attribute, more.length ≤ 3 ∧
      (∀ attr ∈ more, attr.kind ∈ otherAttrs) ∧
      fields = .raw address.requestHead.toBytes ::
        (identityAttrs address.ip ++ more).map Field.ofAttribute := by
  by_cases hverb : verb = .delete
  · rw [hverb, requestFields_delete] at h
    refine ⟨[], Nat.zero_le _, fun _ hattr => absurd hattr (by simp), ?_⟩
    rw [List.append_nil]
    exact (Except.ok.inj h).symm
  · exact ⟨_, length_detailAttrs address, fun _ => kind_of_mem_detailAttrs,
      ((requestFields_eq_ok_iff hverb).mp h).2⟩

def started (head : AddressHead) : Partial :=
  ⟨none, none, none, head.flags.toUInt32, forever, forever⟩

theorem ofPayload?_eq_some_iff {head : AddressHead} {fields : List Field} {address : Address} :
    ofPayload? (Field.encodeAll (.raw head.toBytes :: fields)) = some address ↔
      ∃ attrs seen ip, Attribute.readAll? (Field.encodeAll fields) = some attrs ∧
        attrs.foldlM (readAttribute head.family) (started head) = some seen ∧
        seen.own.or seen.other = some ip ∧
        address = ⟨head.interface, ip, head.length, seen.label, seen.flags, some head.scope,
          seen.validFor, seen.preferredFor⟩ := by
  have hsplit : Bytes.split? AddressHead.size (Field.encodeAll (.raw head.toBytes :: fields)) =
      some (head.toBytes, Field.encodeAll fields) :=
    Field.split?_encodeAll head.toBytes ⟨2, rfl⟩ fields
  rw [ofPayload?, hsplit]
  show ((Attribute.readAll? (Field.encodeAll fields)).bind fun attrs =>
    (attrs.foldlM (readAttribute (AddressHead.read head.toBytes).family) _).bind fun seen =>
      (seen.own.or seen.other).bind fun ip => _) = some address ↔ _
  rw [read_toBytes]
  constructor
  · intro h
    obtain ⟨attrs, hattrs, h⟩ := Option.bind_eq_some_iff.mp h
    obtain ⟨seen, hseen, h⟩ := Option.bind_eq_some_iff.mp h
    obtain ⟨ip, hip, h⟩ := Option.bind_eq_some_iff.mp h
    exact ⟨attrs, seen, ip, hattrs, hseen, hip, (Option.some.inj h).symm⟩
  · rintro ⟨attrs, seen, ip, hattrs, hseen, hip, rfl⟩
    rw [hattrs, Option.bind_some]
    refine Option.bind_eq_some_iff.mpr ⟨seen, hseen, ?_⟩
    refine Option.bind_eq_some_iff.mpr ⟨ip, hip, rfl⟩

theorem exists_foldlM_identityAttrs (ip : Ip) (start : Partial) :
    ∃ own other, (identityAttrs ip).foldlM (readAttribute ip.family) start =
        some { start with own, other } ∧
      (start.own = none → own.or other = some ip) := by
  have hread := Value.ip_toBytes ip
  have hother (seen : Partial) : readAttribute ip.family seen ⟨ipAttr, ip.toBytes⟩ =
      some { seen with other := some ip } := by
    have hne : ¬ipAttr = localAttr := by decide
    rw [readAttribute, if_neg hne, if_pos rfl, hread]
    rfl
  have hown (seen : Partial) : readAttribute ip.family seen ⟨localAttr, ip.toBytes⟩ =
      some { seen with own := some ip } := by
    rw [readAttribute, if_pos rfl, hread]
    rfl
  rw [identityAttrs]
  split
  · refine ⟨start.own, some ip, ?_, ?_⟩
    · rw [List.nil_append, List.foldlM_cons, hother]
      rfl
    · intro hnone
      rw [hnone, Option.none_or]
  · refine ⟨some ip, some ip, ?_, fun _ => rfl⟩
    rw [List.singleton_append, List.foldlM_cons, hown]
    show List.foldlM _ _ _ = _
    rw [List.foldlM_cons, hother]
    rfl

theorem ip_readAttribute {family : UInt8} {seen after : Partial} {attr : Attribute}
    (hkind : attr.kind ∈ otherAttrs) (h : readAttribute family seen attr = some after) :
    after.own.or after.other = seen.own.or seen.other := by
  have hlocal : attr.kind ≠ localAttr := by
    intro heq
    rw [heq] at hkind
    exact absurd hkind (by decide)
  have hip : attr.kind ≠ ipAttr := by
    intro heq
    rw [heq] at hkind
    exact absurd hkind (by decide)
  rw [readAttribute, if_neg hlocal, if_neg hip] at h
  split at h
  · obtain ⟨label, -, rfl⟩ := Option.map_eq_some_iff.mp h
    rfl
  split at h
  · obtain ⟨flags, -, rfl⟩ := Option.map_eq_some_iff.mp h
    rfl
  split at h
  · obtain ⟨octets, -, rfl⟩ := Option.map_eq_some_iff.mp h
    rfl
  · rw [Option.some.inj h]

theorem unmarked_identityAttrs {ip : Ip} {more : List Attribute}
    (hmore : ∀ attr ∈ more, attr.kind ∈ otherAttrs) :
    ∀ attr ∈ identityAttrs ip ++ more, Attribute.unmarked attr.kind = attr.kind := by
  have hidentity : ∀ attr ∈ identityAttrs ip, attr.kind ∈ [localAttr, ipAttr] := by
    rw [identityAttrs]
    split <;> simp
  have hkinds : ∀ kind ∈ [localAttr, ipAttr] ++ otherAttrs, Attribute.unmarked kind = kind := by
    simp only [otherAttrs, List.cons_append, List.nil_append, List.mem_cons, List.not_mem_nil,
      or_false, forall_eq_or_imp, forall_eq]
    decide
  intro attr hattr
  refine hkinds attr.kind ?_
  rw [List.mem_append] at hattr ⊢
  rcases hattr with hattr | hattr
  · exact Or.inl (hidentity attr hattr)
  · exact Or.inr (hmore attr hattr)

theorem identity_of_ofPayload? {address image : Address} {verb : Verb} {fields : List Field}
    (hfields : address.requestFields verb = .ok fields)
    (hsize : Field.oversizedAmong? fields = none)
    (h : ofPayload? (Field.encodeAll fields) = some image) :
    image.interface = address.interface ∧ image.ip = address.ip ∧
      image.length = address.length := by
  obtain ⟨more, -, hmore, rfl⟩ := requestFields_eq_ok hfields
  obtain ⟨attrs, seen, ip, hattrs, hseen, hip, rfl⟩ := ofPayload?_eq_some_iff.mp h
  rw [Attribute.readAll?_ofAttribute (unmarked_identityAttrs hmore) hsize] at hattrs
  rw [← Option.some.inj hattrs, List.foldlM_append] at hseen
  obtain ⟨told, htold, hlater⟩ := Option.bind_eq_some_iff.mp hseen
  obtain ⟨own, other, hfound, htells⟩ := exists_foldlM_identityAttrs address.ip
    (started address.requestHead)
  have hsame := Option.some.inj (hfound.symm.trans htold)
  have hkept := Attribute.foldlM_keeps
    (fun attr hattr => ip_readAttribute (hmore attr hattr)) hlater
  rw [← hsame, htells rfl, hip] at hkept
  exact ⟨rfl, Option.some.inj hkept, rfl⟩

theorem exists_ofPayload?_delete {address : Address} {fields : List Field}
    (hfields : address.requestFields .delete = .ok fields)
    (hsize : Field.oversizedAmong? fields = none) :
    ∃ image, ofPayload? (Field.encodeAll fields) = some image := by
  rw [requestFields_delete] at hfields
  obtain rfl := Except.ok.inj hfields
  have hunmarked := @unmarked_identityAttrs address.ip [] (by simp)
  rw [List.append_nil] at hunmarked
  have hread := Attribute.readAll?_ofAttribute hunmarked hsize
  obtain ⟨own, other, hseen, htells⟩ := exists_foldlM_identityAttrs address.ip
    (started address.requestHead)
  exact ⟨_, ofPayload?_eq_some_iff.mpr ⟨_, _, _, hread, hseen, htells rfl, rfl⟩⟩

theorem atMost_requestFields {address : Address} {verb : Verb} {fields : List Field}
    (h : address.requestFields verb = .ok fields) : Field.AtMost 16 fields := by
  obtain ⟨more, hmore, -, rfl⟩ := requestFields_eq_ok h
  have hidentity : (identityAttrs address.ip).length ≤ 2 := by
    rw [identityAttrs]
    split <;> simp
  have hattrs : (identityAttrs address.ip ++ more).length ≤ 5 := by
    rw [List.length_append]
    exact Nat.add_le_add hidentity hmore
  exact (Field.atMost_cons_raw address.requestHead.toBytes
    (show _ = AddressHead.size from rfl) (by decide)
    (Field.atMost_ofAttribute hattrs)).mono (by decide)

end Address

end NetState
