import NetState.Proofs.Peer.Reach

namespace NetState.Peer

/-- An effect that is a refusal has left the peer as it was. -/
def Spares (peer : Peer) (effect : Effect) : Prop :=
  effect.refusal.isSome → effect.peer = peer

theorem spares_refuse (peer : Peer) (errno : Int) : peer.Spares (refuse peer errno) :=
  fun _ => rfl

theorem spares_accept (peer after : Peer) : peer.Spares (accept after) :=
  nofun

/-- A wanted discipline is to take the place of an old one at the root of a link, which is gone
before anything else is looked at. -/
structure Ousts (peer : Peer) (flags : UInt16) (wanted old : Discipline) : Prop where
  link : peer.links.contains wanted.interface = true
  known : disciplineKinds.contains wanted.kind = true
  outgoing : isIngressKind wanted.kind = false
  root : wanted.parent.isRoot = true
  found : peer.disciplines.find? (sameDisciplinePlace · wanted) = some old
  /-- The kernel's choice makes room for anything, another discipline for one that is to replace it
  and is not just another form of it. -/
  yields : old.isDefault = true ∨
    hasFlag flags Flag.exclusive = false ∧ hasFlag flags Flag.replace = true ∧
      ¬(old.kind = wanted.kind ∧ (wanted.handle.isUnspecified ∨ wanted.handle = old.handle))

theorem Eligible.ousts {peer : Peer} {wanted old : Discipline} (h : peer.Eligible wanted)
    (flags : UInt16) (hingress : isIngressKind wanted.kind = false)
    (hold : peer.disciplines.find? (sameDisciplinePlace · wanted) = some old)
    (hyields : old.isDefault = true ∨ Yields flags old wanted) : peer.Ousts flags wanted old where
  link := h.link
  known := h.known
  outgoing := hingress
  root := h.root hingress
  found := hold
  yields := hyields.imp_right fun h => ⟨h.exclusive, h.replace, h.other⟩

def HandleTaken (peer : Peer) (wanted : Discipline) : Prop :=
  wanted.handle.isUnspecified = false ∧
    ∃ d ∈ peer.disciplines.eraseP (sameDisciplinePlace · wanted),
      d.interface = wanted.interface ∧ d.handle = wanted.handle

/-- The peer without the discipline at the place of a wanted one. The kernel's choice goes without a
word, any other with the filters below it. -/
def ousted (peer : Peer) (origin : Origin) (wanted old : Discipline) : Peer :=
  let rest : Peer :=
    { peer with disciplines := peer.disciplines.eraseP (sameDisciplinePlace · wanted) }
  if old.isDefault then rest
  else (rest.dropFiltersBelow old).tellGone origin (.discipline old)

theorem disciplines_ousted (peer : Peer) (origin : Origin) (wanted old : Discipline) :
    (peer.ousted origin wanted old).disciplines =
      peer.disciplines.eraseP (sameDisciplinePlace · wanted) := by
  rw [ousted]
  split
  · rfl
  · rw [tellGone_eq]
    rfl

theorem Ousts.ousted_ne {peer : Peer} {flags : UInt16} {wanted old : Discipline}
    (h : peer.Ousts flags wanted old) (origin : Origin) : peer.ousted origin wanted old ≠ peer := by
  intro heq
  have hlength := congrArg (List.length ∘ Peer.disciplines) heq
  have hmem := List.mem_of_find?_eq_some h.found
  have hshorter := List.length_eraseP_of_mem hmem (List.find?_some h.found)
  have hpositive := List.length_pos_of_mem hmem
  simp only [Function.comp_apply, disciplines_ousted] at hlength
  omega

theorem Ousts.addDiscipline_eq {peer : Peer} {flags : UInt16} {wanted old : Discipline}
    (h : peer.Ousts flags wanted old) (origin : Origin) :
    peer.addDiscipline origin flags wanted =
      (peer.ousted origin wanted old).placeDiscipline origin wanted := by
  have hparent : (wanted.parent == Handle.ingress) = false := by
    have hroot : wanted.parent = Handle.root := by simpa [Handle.isRoot] using h.root
    rw [hroot]
    decide
  rw [addDiscipline, ousted]
  simp only [h.link, h.known, h.outgoing, h.root, h.found, hparent, Bool.not_true,
    Bool.false_eq_true, Bool.and_false, bne_self_eq_false, if_false]
  rcases h.yields with hdefault | ⟨hexclusive, hreplace, hother⟩
  · rw [if_pos hdefault, if_pos hdefault]
  · split
    · rfl
    · simp only [regraftDiscipline, hexclusive, hreplace, Bool.not_true, Bool.false_eq_true,
        if_false, if_neg hother]

theorem placeDiscipline_taken {peer : Peer} {wanted d : Discipline} (origin : Origin)
    (hingress : isIngressKind wanted.kind = false)
    (hspecified : wanted.handle.isUnspecified = false)
    (hd : d ∈ peer.disciplines) (hinterface : d.interface = wanted.interface)
    (hhandle : d.handle = wanted.handle) :
    peer.placeDiscipline origin wanted = refuse peer Errno.exist := by
  have htaken : (peer.disciplines.any fun d =>
      d.interface == wanted.interface && d.handle == wanted.handle) = true :=
    List.any_eq_true.mpr ⟨d, hd, by simp [hinterface, hhandle]⟩
  rw [placeDiscipline, hingress, hspecified, htaken]
  rfl

/-- A change is the wish for a discipline that ousts another one, only to find that its handle is
taken. -/
structure OustsInVain (peer : Peer) (flags : UInt16) (goal : Goal) (object : Object)
    (wanted old : Discipline) : Prop where
  goal : goal = .present
  object : object = .discipline wanted
  ousts : peer.Ousts flags wanted old
  taken : peer.HandleTaken wanted

/-- Only a discipline that was ousted in vain makes a refused change leave anything behind. -/
theorem Upshot.spares_or_ousts {peer : Peer} {origin : Origin} {flags : UInt16} {goal : Goal}
    {object : Object} {effect : Effect} (h : Upshot peer origin flags goal object effect) :
    peer.Spares effect ∨ ∃ wanted old, peer.OustsInVain flags goal object wanted old := by
  cases h with
  | refused herrno => exact Or.inl (spares_refuse peer _)
  | @disciplineCrowded wanted after gone heligible hroom hingress hhandle htaken =>
      cases hroom with
      | free hfree =>
          rw [tellAll_nil]
          exact Or.inl (spares_refuse peer _)
      | uprooted hold hdefault =>
          have housts := heligible.ousts flags hingress hold (Or.inl hdefault)
          exact Or.inr ⟨wanted, _, rfl, rfl, housts, hhandle, htaken⟩
      | told hold hdefault hyields =>
          have housts := heligible.ousts flags hingress hold (Or.inr hyields)
          exact Or.inr ⟨wanted, _, rfl, rfl, housts, hhandle, htaken⟩
  | linkChanged | linkCreated | linkDeleted | addressStored | addressDeleted | routeStored
  | routeDeleted | disciplineChanged | disciplinePlaced | disciplineDeleted | disciplineReset
  | filterChanged | filterAdded | filtersDeleted => exact Or.inl (spares_accept peer _)

theorem OustsInVain.apply_eq {peer : Peer} {flags : UInt16} {goal : Goal} {object : Object}
    {wanted old : Discipline} (h : peer.OustsInVain flags goal object wanted old)
    (origin : Origin) :
    peer.apply origin flags goal object =
      refuse (peer.ousted origin wanted old) Errno.exist := by
  obtain ⟨rfl, rfl, housts, hspecified, d, hd, hinterface, hhandle⟩ := h
  rw [apply, housts.addDiscipline_eq]
  refine placeDiscipline_taken origin housts.outgoing hspecified ?_ hinterface hhandle
  rw [disciplines_ousted]
  exact hd

/-- A refused change leaves the peer as it was, with all that it keeps and all that it has said,
except that a discipline which was ousted in vain is gone. -/
theorem refused_apply {peer : Peer} {origin : Origin} {flags : UInt16} {goal : Goal}
    {object : Object} {errno : Int}
    (hrefused : (peer.apply origin flags goal object).refusal = some errno) :
    ((peer.apply origin flags goal object).peer = peer ↔
      ¬∃ wanted old, peer.OustsInVain flags goal object wanted old) ∧
    ∀ wanted old, peer.OustsInVain flags goal object wanted old →
      errno = Errno.exist ∧
        (peer.apply origin flags goal object).peer = peer.ousted origin wanted old := by
  refine ⟨⟨?_, ?_⟩, ?_⟩
  · rintro hkept ⟨wanted, old, hvain⟩
    rw [hvain.apply_eq] at hkept
    exact hvain.ousts.ousted_ne origin hkept
  · intro hnone
    rcases (upshot_apply peer origin flags goal object).spares_or_ousts with hspares | hvain
    · exact hspares (by rw [hrefused]; rfl)
    · exact absurd hvain hnone
  · intro wanted old hvain
    rw [hvain.apply_eq] at hrefused ⊢
    exact ⟨(Option.some.inj hrefused).symm, rfl⟩

/-- A peer with a discipline and a filter below it at the root of its link, and one on the ingress
side. -/
def crowded : Peer :=
  initial
    |>.intervene (.discipline (.new 1 "ingress" Handle.ingressDiscipline Handle.ingress)) .present
      true |>.1
    |>.intervene (.discipline (.new 1 "fq_codel" ⟨0x10000⟩ Handle.root)) .present true |>.1
    |>.intervene (.filter ⟨1, "matchall", ⟨0⟩, ⟨0x10000⟩, 0, Filter.anyProtocol, none⟩)
      .present true
    |>.1

/-- A discipline for the root with the handle of the one on the ingress side. -/
def intruder : Discipline :=
  .new 1 "pfifo" Handle.ingressDiscipline Handle.root

theorem reachable_crowded : crowded.Reachable := by
  rw [crowded]
  refine Reachable.intervene (Reachable.intervene (Reachable.intervene Reachable.initial
    _ _ _ ?_) _ _ _ ?_) _ _ _ ?_
  all_goals decide +kernel

theorem refused_apply_intruder :
    ((crowded.apply (.outside false) Flag.replace .present (.discipline intruder)).refusal =
        some Errno.exist ∧
      (crowded.apply (.outside false) Flag.replace .present (.discipline intruder)).peer =
        crowded.ousted (.outside false) intruder (.new 1 "fq_codel" ⟨0x10000⟩ Handle.root)) ∧
    ((crowded.apply (.outside false) Flag.create .present
          (.address { loopbackAddress with interface := 9 })).refusal = some Errno.noDevice ∧
      (crowded.apply (.outside false) Flag.create .present
          (.address { loopbackAddress with interface := 9 })).peer = crowded) := by
  have hintruder : (crowded.apply (.outside false) Flag.replace .present
      (.discipline intruder)).refusal = some Errno.exist := by decide +kernel
  have hstray : (crowded.apply (.outside false) Flag.create .present
      (.address { loopbackAddress with interface := 9 })).refusal = some Errno.noDevice := by
    decide +kernel
  refine ⟨⟨hintruder, ((refused_apply hintruder).2 intruder _ ⟨rfl, rfl, ⟨?_, ?_, ?_, ?_, ?_, ?_⟩,
    ?_, ?_⟩).2⟩, hstray, (refused_apply hstray).1.mpr ?_⟩
  case refine_9 =>
    rintro ⟨wanted, old, hvain⟩
    cases hvain.object
  all_goals decide +kernel

/-- A refused change of a peer that can be reached takes a discipline and a filter from it, and
tells so. -/
theorem exists_refused_unlike :
    ∃ (peer : Peer) (origin : Origin) (flags : UInt16) (goal : Goal) (object : Object)
      (errno : Int),
      peer.Reachable ∧ (peer.apply origin flags goal object).refusal = some errno ∧
        (peer.apply origin flags goal object).peer.disciplines ≠ peer.disciplines ∧
        (peer.apply origin flags goal object).peer.filters ≠ peer.filters ∧
        (peer.apply origin flags goal object).peer.outbox ≠ peer.outbox :=
  ⟨crowded, .outside false, Flag.replace, .present, .discipline intruder, Errno.exist,
    reachable_crowded, by decide +kernel, by decide +kernel, by decide +kernel, by decide +kernel⟩

end NetState.Peer
