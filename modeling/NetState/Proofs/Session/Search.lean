import NetState.Proofs.Session.Apply

namespace NetState

namespace Inventory

/-- Names tell links apart, and all filters have a priority and a handle. -/
structure Unambiguous (inventory : Inventory) : Prop where
  names : ∀ {slot place : Slot} {l m : Link}, inventory.lookup slot = some (.link l) →
    inventory.lookup place = some (.link m) → l.name = m.name → l = m
  keyed : ∀ {slot : Slot} {f : Filter}, inventory.lookup slot = some (.filter f) →
    f.priority ≠ 0 ∧ f.handle ≠ .unspecified

variable {inventory : Inventory} {wanted : Object}

/-- Whether a snapshot in some slot is as wanted. -/
def Satisfies (inventory : Inventory) (wanted : Object) : Prop :=
  ∃ slot object, inventory.lookup slot = some object ∧ object.satisfies wanted = true

theorem Consistent.exists_linkNamed? (h : inventory.Consistent) {slot : Slot} {l : Link}
    (hl : inventory.lookup slot = some (.link l)) :
    ∃ found, inventory.linkNamed? l.name = some found ∧ found.name = l.name := by
  have hmem : Object.link l ∈ inventory.ofKind .link :=
    mem_ofKind_iff.mpr ⟨slot, hl, congrArg Slot.kind (h.placed hl).symm⟩
  cases hfind : inventory.linkNamed? l.name with
  | none =>
      rw [linkNamed?, List.findSome?_eq_none_iff] at hfind
      exact absurd (hfind _ hmem) (by simp)
  | some found =>
      obtain ⟨object, -, hobject⟩ := List.exists_of_findSome?_eq_some hfind
      cases object with
      | link m =>
          simp only [Option.ite_none_right_eq_some, Option.some.injEq] at hobject
          exact ⟨found, rfl, hobject.2 ▸ hobject.1⟩
      | _ => exact absurd hobject (by simp)

theorem Consistent.find?_link (h : inventory.Consistent) (hunambiguous : inventory.Unambiguous)
    {slot : Slot} {l wanted : Link} (hl : inventory.lookup slot = some (.link l))
    (hsatisfies : (Object.link l).satisfies (.link wanted) = true) :
    inventory.find? (.link wanted) = some (.link l) := by
  simp only [Object.satisfies, Link.satisfies, Bool.and_eq_true, Bool.or_eq_true,
    beq_iff_eq] at hsatisfies
  obtain ⟨hindex, ⟨⟨hname, -⟩, -⟩, -⟩ := hsatisfies
  rw [find?]
  split
  · obtain ⟨found, hfound, hsame⟩ := h.exists_linkNamed? hl
    rw [← hname, hfound, Option.map_some,
      hunambiguous.names (h.lookup_of_linkNamed? hfound) hl hsame]
  · rename_i hset
    have hslot : (Object.link l).slot = (Object.link wanted).slot := by
      simp only [Object.slot, Object.kind, Object.key, hindex.resolve_left hset]
    rw [← hslot, h.placed hl]
    exact hl

theorem slot_of_isKeyed {f wanted : Filter} (hpriority : f.priority ≠ 0)
    (hhandle : f.handle ≠ .unspecified) (hkeyed : wanted.isKeyed = true)
    (hsatisfies : f.satisfies wanted = true) :
    (Object.filter f).slot = (Object.filter wanted).slot := by
  simp only [Filter.isKeyed, Handle.isUnspecified, Bool.and_eq_true, bne_iff_ne,
    Bool.not_eq_true', beq_eq_false_iff_ne] at hkeyed
  simp only [Filter.satisfies, Filter.sameSlot, Handle.isUnspecified, Bool.and_eq_true,
    Bool.or_eq_true, beq_iff_eq, hpriority, hhandle, hkeyed.1, hkeyed.2, false_or] at hsatisfies
  obtain ⟨⟨⟨⟨⟨⟨hinterface, hparent⟩, hprotocol⟩, hsame⟩, hnumber⟩, -⟩, -⟩ := hsatisfies
  simp only [Object.slot, Object.kind, Object.key, hinterface, hparent, hprotocol, hsame, hnumber]

theorem Consistent.find?_filter (h : inventory.Consistent) (hunambiguous : inventory.Unambiguous)
    {slot : Slot} {f wanted : Filter} (hf : inventory.lookup slot = some (.filter f))
    (hvalid : wanted.validate = .ok ()) (hsatisfies : f.satisfies wanted = true) :
    ∃ found, inventory.find? (.filter wanted) = some (.filter found) ∧
      found.satisfies wanted = true := by
  have hlookup : inventory.lookup (Object.filter f).slot = some (.filter f) := by
    rw [h.placed hf]
    exact hf
  obtain ⟨hpriority, hhandle⟩ := hunambiguous.keyed hf
  simp only [find?]
  split
  · rename_i hkeyed
    rw [← slot_of_isKeyed hpriority hhandle hkeyed hsatisfies, hlookup]
    exact ⟨f, rfl, hsatisfies⟩
  · have hinterface : wanted.interface ≠ 0 := by
      intro hzero
      simp [Filter.validate, hzero] at hvalid
    obtain ⟨found, hfound, hdoes⟩ := h.findFilter?_of_satisfies hlookup hinterface hsatisfies
    rw [hfound]
    exact ⟨found, rfl, hdoes⟩

/-- Each way to look for an object finds one that is as wanted, if there is any. -/
theorem Consistent.find?_of_satisfies (h : inventory.Consistent)
    (hunambiguous : inventory.Unambiguous) (hvalid : wanted.validate = .ok ())
    (hknown : inventory.Satisfies wanted) :
    ∃ found, inventory.find? wanted = some found ∧ found.satisfies wanted = true := by
  obtain ⟨slot, object, hobject, hsatisfies⟩ := hknown
  cases wanted with
  | link wanted =>
      cases object with
      | link l => exact ⟨_, h.find?_link hunambiguous hobject hsatisfies, hsatisfies⟩
      | _ => exact absurd hsatisfies (by simp [Object.satisfies])
  | filter wanted =>
      cases object with
      | filter f =>
          obtain ⟨found, hfound, hdoes⟩ := h.find?_filter hunambiguous hobject hvalid hsatisfies
          exact ⟨_, hfound, hdoes⟩
      | _ => exact absurd hsatisfies (by simp [Object.satisfies])
  | _ =>
      have hslot := Object.slot_of_satisfies hsatisfies (by simp) (by simp)
      rw [← h.placed hobject, hslot] at hobject
      exact ⟨object, hobject, hsatisfies⟩

/-- What is found for a wanted object satisfies it if anything does, and so a wish is answered with
what is there, and without a request, just when some snapshot is as wanted. -/
theorem Consistent.find?_complete (h : inventory.Consistent)
    (hunambiguous : inventory.Unambiguous) (hvalid : wanted.validate = .ok ()) :
    (inventory.Satisfies wanted ↔
      ∃ found, inventory.find? wanted = some found ∧ found.satisfies wanted = true) ∧
    ∀ support,
      (inventory.Satisfies wanted ↔
        ∃ found, Plan.toAdd inventory support wanted = .ok (.done (.unchanged found))) ∧
      ∀ outcome, Plan.toAdd inventory support wanted = .ok (.done outcome) →
        ∃ found, outcome = .unchanged found ∧ inventory.lookup found.slot = some found ∧
          found.satisfies wanted = true := by
  have hfind : inventory.Satisfies wanted ↔
      ∃ found, inventory.find? wanted = some found ∧ found.satisfies wanted = true := by
    constructor
    · exact h.find?_of_satisfies hunambiguous hvalid
    · rintro ⟨found, hfound, hsatisfies⟩
      exact ⟨found.slot, found, (h.lookup_of_find? hfound).1, hsatisfies⟩
  refine ⟨hfind, fun support => ⟨?_, ?_⟩⟩
  · rw [hfind]
    constructor
    · rintro ⟨found, hfound, hsatisfies⟩
      exact ⟨found, Plan.toAdd_of_shown hfound hsatisfies⟩
    · rintro ⟨found, hplan⟩
      obtain ⟨known, -, hknown, hsatisfies⟩ := Plan.shown_of_toAdd hplan
      exact ⟨known, hknown, hsatisfies⟩
  · intro outcome hplan
    obtain ⟨found, rfl, hfound, hsatisfies⟩ := Plan.shown_of_toAdd hplan
    exact ⟨found, rfl, (h.lookup_of_find? hfound).1, hsatisfies⟩

theorem find?_complete_unnumbered :
    let filter (priority : UInt16) (handle : UInt32) : Filter :=
      ⟨1, Filter.matchAllKind, ⟨handle⟩, .ofParts 1 0, priority, Filter.anyProtocol, none⟩
    let known := empty.run [.upsert (.link { Link.new "eth0" .unknown with index := 1 }),
      .upsert (.discipline (.new 1 "htb" (.ofParts 1 0) .root)), .upsert (.filter (filter 10 1))]
    let wanted := Object.filter (filter 0 0)
    known.Consistent ∧ known.Unambiguous ∧ wanted.validate = .ok () ∧
      ∃ found, known.find? wanted = some found ∧ found.satisfies wanted = true := by
  intro filter known wanted
  have hknown : known.Consistent := consistent_empty.run _
  have hobjects {slot : Slot} {object : Object} (hobject : known.lookup slot = some object) :
      object ∈ [Object.link { Link.new "eth0" .unknown with index := 1 },
        .discipline (.new 1 "htb" (.ofParts 1 0) .root), .filter (filter 10 1)] :=
    List.mem_map_of_mem (f := Prod.snd) (Table.get?_eq_some_iff.mp hobject)
  have hunambiguous : known.Unambiguous := by
    constructor
    · intro slot place l m hl hm _
      have hfirst := hobjects hl
      have hsecond := hobjects hm
      simp only [List.mem_cons, Object.link.injEq, List.not_mem_nil, reduceCtorEq,
        or_false] at hfirst hsecond
      rw [hfirst, hsecond]
    · intro slot f hf
      have hfilter := hobjects hf
      simp only [List.mem_cons, Object.filter.injEq, List.not_mem_nil, reduceCtorEq, or_false,
        false_or] at hfilter
      rw [hfilter]
      exact ⟨by decide, by decide⟩
  have hshown : known.Satisfies wanted :=
    ⟨(Object.filter (filter 10 1)).slot, .filter (filter 10 1), rfl, by decide⟩
  exact ⟨hknown, hunambiguous, rfl, (hknown.find?_complete hunambiguous rfl).1.mp hshown⟩

end Inventory

end NetState
