import NetState.Peer.Answer
import NetState.Proofs.Peer.Keyed

namespace NetState.Peer

/-- A piece of news: a change, and the object that it is about. -/
structure News where
  change : Change
  object : Object

def News.type (news : News) : UInt16 :=
  match news.change with
  | .new => news.object.kind.newType
  | .del => news.object.kind.delType

def News.datagrams (origin : Origin) (muted : Bool) (news : News) : List Bytes :=
  if origin.silent || muted then []
  else match news.object.toMessage news.type 0 with
    | .ok draft => [(draft.addressed origin.seq origin.pid).toBytes]
    | .error _ => []

/-- The peer that has told all news of what it did. -/
def tellAll (peer : Peer) (origin : Origin) (news : List News) : Peer :=
  { peer with outbox := peer.outbox ++ news.flatMap (News.datagrams origin peer.muted) }

theorem tell_eq (peer : Peer) (origin : Origin) (news : News) :
    peer.tell origin news.type news.object = peer.tellAll origin [news] := by
  rw [tell, tellAll, List.flatMap_singleton, News.datagrams]
  split
  · rw [List.append_nil]
  · cases news.object.toMessage news.type 0 with
    | ok draft => rfl
    | error fault => rw [List.append_nil]

theorem tellNew_eq (peer : Peer) (origin : Origin) (object : Object) :
    peer.tellNew origin object = peer.tellAll origin [⟨.new, object⟩] :=
  tell_eq peer origin ⟨.new, object⟩

theorem tellGone_eq (peer : Peer) (origin : Origin) (object : Object) :
    peer.tellGone origin object = peer.tellAll origin [⟨.del, object⟩] :=
  tell_eq peer origin ⟨.del, object⟩

theorem tellAll_nil (peer : Peer) (origin : Origin) : peer.tellAll origin [] = peer := by
  rw [tellAll, List.flatMap_nil, List.append_nil]

theorem tellAll_append (peer : Peer) (origin : Origin) (news more : List News) :
    peer.tellAll origin (news ++ more) = (peer.tellAll origin news).tellAll origin more := by
  rw [tellAll, List.flatMap_append, ← List.append_assoc]
  rfl

theorem tellAll_cons (peer : Peer) (origin : Origin) (first second : News) :
    peer.tellAll origin [first, second] =
      (peer.tellAll origin [first]).tellAll origin [second] :=
  tellAll_append peer origin [first] [second]

theorem foldl_tellGone {α : Type} (peer : Peer) (origin : Origin) (object : α → Object)
    (values : List α) :
    values.foldl (fun peer value => peer.tellGone origin (object value)) peer =
      peer.tellAll origin (values.map fun value => ⟨.del, object value⟩) := by
  induction values generalizing peer with
  | nil => exact (tellAll_nil peer origin).symm
  | cons first rest ih =>
      rw [List.foldl_cons, ih, tellGone_eq, ← tellAll_append]
      rfl

def refusals : List Int :=
  [Errno.exist, Errno.invalid, Errno.noDevice, Errno.notSupported, Errno.noEntry, Errno.noProcess,
    Errno.familyNotSupported, Errno.addressNotAvailable, Errno.networkUnreachable]

def filtersWithout (peer : Peer) (d : Discipline) : List Filter :=
  peer.filters.filter fun f => !(f.interface == d.interface && f.parent.major == d.handle.major)

/-- The peer without anything that is on a link. -/
def bare (peer : Peer) (index : UInt32) : Peer :=
  { peer with
    addresses := peer.addresses.filter (·.interface != index)
    routes := peer.routes.filter (·.interface != index)
    disciplines := peer.disciplines.filter (·.interface != index)
    filters := peer.filters.filter (·.interface != index) }

/-- A link that is changed to be as wanted: up or down, its size if one is wanted, and its name if
one is wanted. -/
def changedLink (link wanted : Link) : Link :=
  { link with
    flags := link.flags &&& ~~~carrierFlags true ||| carrierFlags wanted.isUp
    state := stateOf wanted.isUp
    mtu := wanted.mtu.or link.mtu
    name := if wanted.name = "" then link.name else wanted.name }

/-- Whether a discipline can be where it is wanted. -/
structure Eligible (peer : Peer) (wanted : Discipline) : Prop where
  link : peer.links.contains wanted.interface = true
  known : disciplineKinds.contains wanted.kind = true
  root : isIngressKind wanted.kind = false → wanted.parent.isRoot = true

/-- Another discipline makes room for a wanted one if that is to replace it and is not just another
form of it. -/
structure Yields (flags : UInt16) (old wanted : Discipline) : Prop where
  exclusive : hasFlag flags Flag.exclusive = false
  replace : hasFlag flags Flag.replace = true
  other : ¬(old.kind = wanted.kind ∧
    (wanted.handle.isUnspecified ∨ wanted.handle = old.handle))

/-- How there is room for a wanted discipline: its place is free, or a default discipline goes
without a word, or another one goes with the filters below it and is told to be gone. -/
inductive Room (peer : Peer) (flags : UInt16) (wanted : Discipline) : Peer → List News → Prop where
  | free (hfree : peer.disciplines.find? (sameDisciplinePlace · wanted) = none) :
      Room peer flags wanted peer []
  | uprooted {old : Discipline}
      (hold : peer.disciplines.find? (sameDisciplinePlace · wanted) = some old)
      (hdefault : old.isDefault = true) :
      Room peer flags wanted
        { peer with disciplines := peer.disciplines.eraseP (sameDisciplinePlace · wanted) } []
  | told {old : Discipline}
      (hold : peer.disciplines.find? (sameDisciplinePlace · wanted) = some old)
      (hdefault : old.isDefault = false) (hyields : Yields flags old wanted) :
      Room peer flags wanted
        { peer with
          disciplines := peer.disciplines.eraseP (sameDisciplinePlace · wanted)
          filters := peer.filtersWithout old }
        [⟨.del, .discipline old⟩]

/-- The handle that a discipline is put with, and the major number that is tried next. -/
inductive Handled (peer : Peer) (wanted : Discipline) : Handle → UInt16 → Prop where
  | fixed (hingress : isIngressKind wanted.kind = true) :
      Handled peer wanted Handle.ingressDiscipline peer.nextMajor
  | allocated (hingress : isIngressKind wanted.kind = false)
      (hhandle : wanted.handle.isUnspecified = true) :
      Handled peer wanted (peer.allocateHandle wanted.interface).1
        (peer.allocateHandle wanted.interface).2.nextMajor
  | given (hingress : isIngressKind wanted.kind = false)
      (hhandle : wanted.handle.isUnspecified = false)
      (hfree : ∀ d ∈ peer.disciplines, d.interface = wanted.interface →
        d.handle ≠ wanted.handle) :
      Handled peer wanted wanted.handle peer.nextMajor

/-- The filters that a wanted one is the same as: those at its place, and of its handle if it has
one. -/
def fitsFilter (peer : Peer) (wanted f : Filter) : Bool :=
  f.interface == wanted.interface && f.parent == wanted.parent &&
    f.priority == peer.choosePriority wanted &&
      (wanted.handle.isUnspecified || f.handle == wanted.handle)

/-- What can come of a change. -/
inductive Upshot (peer : Peer) (origin : Origin) (flags : UInt16) :
    Goal → Object → Effect → Prop where
  | refused {goal : Goal} {object : Object} {errno : Int} (herrno : errno ∈ refusals) :
      Upshot peer origin flags goal object (refuse peer errno)
  | linkChanged {link wanted : Link} (hlink : peer.resolveLink wanted = some link)
      (hflags : flags &&& (Flag.create ||| Flag.exclusive) ≠ Flag.create ||| Flag.exclusive)
      (hname : wanted.name ≠ "" → ∀ other ∈ peer.linkNamed? wanted.name,
        other.index = link.index) :
      Upshot peer origin flags .present (.link wanted)
        (accept (({ peer with
          links := peer.links.insert link.index (changedLink link wanted) } : Peer).tellAll origin
            [⟨.new, .link (changedLink link wanted)⟩]))
  | linkCreated {wanted : Link} (hlink : peer.resolveLink wanted = none)
      (hindex : wanted.index = 0) (hcreate : hasFlag flags Flag.create = true)
      (hname : wanted.name ≠ "") (hkind : wanted.kind.isCreatable = true)
      (hlower : ∀ lower ∈ wanted.lower, peer.links.contains lower = true) :
      Upshot peer origin flags .present (.link wanted)
        (accept (({ peer with
          nextIndex := peer.nextIndex + 1
          links := peer.links.insert peer.nextIndex (peer.newLinkOf wanted)
          disciplines := peer.disciplines ++ [defaultDiscipline peer.nextIndex] } : Peer).tellAll
            origin [⟨.new, .link (peer.newLinkOf wanted)⟩,
              ⟨.new, .discipline (defaultDiscipline peer.nextIndex)⟩]))
  | linkDeleted {link wanted : Link} (hlink : peer.resolveLink wanted = some link)
      (hkind : link.kind ≠ .loopback) :
      Upshot peer origin flags .absent (.link wanted)
        (accept (({ peer.bare link.index with
          links := peer.links.erase link.index } : Peer).tellAll origin
            ((peer.addresses.filter (·.interface == link.index)).map (⟨.del, .address ·⟩) ++
              [⟨.del, .link link⟩])))
  | addressStored {wanted : Address} {link : Link} {addresses : List Address}
      (hlink : peer.links.get? wanted.interface = some link)
      (hstored : IsStored (sameAddress · (storedAddress wanted link)) (storedAddress wanted link)
        peer.addresses addresses) :
      Upshot peer origin flags .present (.address wanted)
        (accept (({ peer with addresses } : Peer).tellAll origin
          [⟨.new, .address (storedAddress wanted link)⟩]))
  | addressDeleted {old wanted : Address}
      (hold : peer.addresses.find? (sameAddress · wanted) = some old) :
      Upshot peer origin flags .absent (.address wanted)
        (accept (({ peer with
          addresses := peer.addresses.eraseP (sameAddress · wanted) } : Peer).tellAll origin
            [⟨.del, .address old⟩]))
  | routeStored {stored wanted : Route} {interface : UInt32} {routes : List Route}
      (hinterface : peer.routeInterface wanted = .ok interface)
      (heq : stored = { wanted with interface, metric := wanted.effectiveMetric })
      (hstored : IsStored (sameRoute · stored) stored peer.routes routes) :
      Upshot peer origin flags .present (.route wanted)
        (accept (({ peer with routes } : Peer).tellAll origin [⟨.new, .route stored⟩]))
  | routeDeleted {old wanted : Route} (hold : peer.routes.find? (sameRoute · wanted) = some old) :
      Upshot peer origin flags .absent (.route wanted)
        (accept (({ peer with
          routes := peer.routes.eraseP (sameRoute · wanted) } : Peer).tellAll origin
            [⟨.del, .route old⟩]))
  /-- One of the same kind keeps its handle. -/
  | disciplineChanged {old wanted : Discipline} (heligible : peer.Eligible wanted)
      (hold : peer.disciplines.find? (sameDisciplinePlace · wanted) = some old)
      (hdefault : old.isDefault = false) (hkind : old.kind = wanted.kind)
      (hhandle : wanted.handle.isUnspecified ∨ wanted.handle = old.handle) :
      Upshot peer origin flags .present (.discipline wanted)
        (accept (({ peer with
          disciplines := replaceFirst (sameDisciplinePlace · wanted)
            { wanted with handle := old.handle } peer.disciplines } : Peer).tellAll origin
              [⟨.new, .discipline { wanted with handle := old.handle }⟩]))
  | disciplinePlaced {wanted : Discipline} {after : Peer} {gone : List News} {handle : Handle}
      {nextMajor : UInt16} (heligible : peer.Eligible wanted)
      (hroom : Room peer flags wanted after gone)
      (hhandled : Handled after wanted handle nextMajor) :
      Upshot peer origin flags .present (.discipline wanted)
        (accept (({ after with
          nextMajor
          disciplines := after.disciplines ++ [{ wanted with handle }] } : Peer).tellAll origin
            (gone ++ [⟨.new, .discipline { wanted with handle }⟩])))
  /-- That a handle is taken is seen only when there is room. -/
  | disciplineCrowded {wanted : Discipline} {after : Peer} {gone : List News}
      (heligible : peer.Eligible wanted) (hroom : Room peer flags wanted after gone)
      (hingress : isIngressKind wanted.kind = false)
      (hhandle : wanted.handle.isUnspecified = false)
      (htaken : ∃ d ∈ after.disciplines, d.interface = wanted.interface ∧
        d.handle = wanted.handle) :
      Upshot peer origin flags .present (.discipline wanted)
        (refuse (after.tellAll origin gone) Errno.exist)
  | disciplineDeleted {old wanted : Discipline}
      (hold : peer.disciplines.find? (isNamedBy · wanted) = some old)
      (hdefault : old.isDefault = false) (hroot : old.parent.isRoot = false) :
      Upshot peer origin flags .absent (.discipline wanted)
        (accept (({ peer with
          disciplines := peer.disciplines.eraseP (isNamedBy · wanted)
          filters := peer.filtersWithout old } : Peer).tellAll origin
            [⟨.del, .discipline old⟩]))
  | disciplineReset {old wanted : Discipline}
      (hold : peer.disciplines.find? (isNamedBy · wanted) = some old)
      (hdefault : old.isDefault = false) (hroot : old.parent.isRoot = true) :
      Upshot peer origin flags .absent (.discipline wanted)
        (accept (({ peer with
          disciplines := peer.disciplines.eraseP (isNamedBy · wanted) ++
            [defaultDiscipline old.interface]
          filters := peer.filtersWithout old } : Peer).tellAll origin
            [⟨.del, .discipline old⟩, ⟨.new, .discipline (defaultDiscipline old.interface)⟩]))
  | filterChanged {old stored wanted : Filter}
      (hlink : peer.links.contains wanted.interface = true)
      (hparent : peer.hasFilterParent wanted.interface wanted.parent = true)
      (hold : peer.filters.find? (peer.fitsFilter wanted) = some old)
      (heq : stored = { wanted with
        priority := peer.choosePriority wanted
        handle := old.handle }) :
      Upshot peer origin flags .present (.filter wanted)
        (accept (({ peer with
          filters := replaceFirst (peer.fitsFilter wanted) stored peer.filters } : Peer).tellAll
            origin [⟨.new, .filter stored⟩]))
  | filterAdded {stored wanted : Filter} (hlink : peer.links.contains wanted.interface = true)
      (hparent : peer.hasFilterParent wanted.interface wanted.parent = true)
      (hfree : peer.filters.find? (peer.fitsFilter wanted) = none)
      (heq : stored = { wanted with
        priority := peer.choosePriority wanted
        handle := peer.chooseHandle wanted }) :
      Upshot peer origin flags .present (.filter wanted)
        (accept (({ peer with filters := peer.filters ++ [stored] } : Peer).tellAll origin
          [⟨.new, .filter stored⟩]))
  | filtersDeleted {wanted : Filter} :
      Upshot peer origin flags .absent (.filter wanted)
        (accept (({ peer with
          filters := peer.filters.filter fun f => !isMeantBy f wanted } : Peer).tellAll origin
            ((peer.filters.filter (isMeantBy · wanted)).map (⟨.del, .filter ·⟩))))

variable {α : Type} {list : List α} {fits : α → Bool}

theorem any_of_find? {old : α} (h : list.find? fits = some old) : list.any fits = true :=
  List.any_eq_true.mpr ⟨old, List.mem_of_find?_eq_some h, List.find?_some h⟩

theorem not_any_of_find? (h : list.find? fits = none) : ¬list.any fits = true :=
  Bool.eq_false_iff.mp (List.any_eq_false.mpr (List.find?_eq_none.mp h))

variable (peer : Peer) (origin : Origin) (flags : UInt16)

theorem upshot_addLink (wanted : Link) :
    Upshot peer origin flags .present (.link wanted) (peer.addLink origin flags wanted) := by
  rw [addLink]
  cases hlink : peer.resolveLink wanted with
  | some link =>
      simp only [changeLink, tellNew_eq]
      split
      · exact .refused (by decide)
      · rename_i hfree
        obtain ⟨hflags, htaken⟩ := not_or.mp hfree
        refine .linkChanged hlink hflags fun hname other hother => ?_
        simpa [hname, Option.mem_def.mp hother] using htaken
  | none =>
      simp only [createLink, tellNew_eq]
      split
      · exact .refused (by decide)
      rename_i hcreate
      split
      · exact .refused (by decide)
      rename_i hname
      split
      · exact .refused (by decide)
      rename_i hkind
      split
      · exact .refused (by decide)
      rename_i hlower
      simp only [ne_eq, Bool.not_eq_true', not_or, not_not, Bool.not_eq_false] at hcreate hkind
      have hupshot : Upshot peer origin flags .present (.link wanted) _ :=
        .linkCreated hlink hcreate.1 hcreate.2 hname hkind
          fun lower hmem => by simpa [Option.mem_def.mp hmem] using hlower
      rw [tellAll_cons] at hupshot
      exact hupshot

theorem upshot_deleteLink (wanted : Link) :
    Upshot peer origin flags .absent (.link wanted) (peer.deleteLink origin wanted) := by
  rw [deleteLink]
  cases hlink : peer.resolveLink wanted with
  | none => exact .refused (by decide)
  | some link =>
      simp only
      split
      · exact .refused (by decide)
      · rename_i hkind
        have hupshot : Upshot peer origin flags .absent (.link wanted) _ :=
          .linkDeleted hlink hkind
        rw [tellAll_append] at hupshot
        rw [foldl_tellGone, tellGone_eq]
        exact hupshot

theorem upshot_addAddress (wanted : Address) :
    Upshot peer origin flags .present (.address wanted) (peer.addAddress origin flags wanted) := by
  rw [addAddress]
  cases hlink : peer.links.get? wanted.interface with
  | none => exact .refused (by decide)
  | some link =>
      simp only [tellNew_eq]
      split
      · exact .refused (by decide)
      cases hfound : peer.addresses.find? (sameAddress · (storedAddress wanted link)) with
      | some old =>
          rw [if_pos (any_of_find? hfound)]
          split
          · exact .refused (by decide)
          · exact .addressStored hlink (.replaced hfound)
      | none =>
          rw [if_neg (not_any_of_find? hfound)]
          split
          · exact .addressStored hlink (.added hfound)
          · exact .refused (by decide)

theorem upshot_deleteAddress (wanted : Address) :
    Upshot peer origin flags .absent (.address wanted) (peer.deleteAddress origin wanted) := by
  rw [deleteAddress]
  split
  · exact .refused (by decide)
  · rename_i old hold
    simp only [tellGone_eq]
    exact .addressDeleted hold

theorem refusal_of_routeInterface {peer : Peer} {wanted : Route} {errno : Int}
    (h : peer.routeInterface wanted = .error errno) : errno ∈ refusals := by
  rw [routeInterface] at h
  split at h
  · split at h
    · rw [← Except.error.inj h]
      decide
    · split at h
      · exact absurd h (by simp)
      · rw [← Except.error.inj h]
        decide
  · split at h
    · exact absurd h (by simp)
    · rw [← Except.error.inj h]
      decide

theorem upshot_addRoute (wanted : Route) :
    Upshot peer origin flags .present (.route wanted) (peer.addRoute origin flags wanted) := by
  rw [addRoute]
  split
  · exact .refused (by decide)
  cases hinterface : peer.routeInterface wanted with
  | error errno => exact .refused (refusal_of_routeInterface hinterface)
  | ok interface =>
      simp only [tellNew_eq]
      cases hfound : peer.routes.find?
          (sameRoute · { wanted with interface, metric := wanted.effectiveMetric }) with
      | some old =>
          rw [if_pos (any_of_find? hfound)]
          split
          · exact .refused (by decide)
          · exact .routeStored hinterface rfl (.replaced hfound)
      | none =>
          rw [if_neg (not_any_of_find? hfound)]
          split
          · exact .routeStored hinterface rfl (.added hfound)
          · exact .refused (by decide)

theorem upshot_deleteRoute (wanted : Route) :
    Upshot peer origin flags .absent (.route wanted) (peer.deleteRoute origin wanted) := by
  rw [deleteRoute]
  split
  · exact .refused (by decide)
  · rename_i old hold
    simp only [tellGone_eq]
    exact .routeDeleted hold

variable {peer} {flags} in
theorem upshot_placeDiscipline {wanted : Discipline} {after : Peer} {gone : List News}
    (heligible : peer.Eligible wanted) (hroom : Room peer flags wanted after gone) :
    Upshot peer origin flags .present (.discipline wanted)
      ((after.tellAll origin gone).placeDiscipline origin wanted) := by
  have hput {handle : Handle} {nextMajor : UInt16}
      (hhandled : Handled after wanted handle nextMajor) :
      Upshot peer origin flags .present (.discipline wanted) _ :=
    .disciplinePlaced heligible hroom hhandled
  simp only [tellAll_append] at hput
  rw [placeDiscipline]
  simp only [tellNew_eq]
  split
  · rename_i hingress
    exact hput (.fixed hingress)
  rename_i hingress
  rw [Bool.not_eq_true] at hingress
  split
  · rename_i hhandle
    exact hput (.allocated hingress hhandle)
  rename_i hhandle
  rw [Bool.not_eq_true] at hhandle
  split
  · rename_i htaken
    simp only [List.any_eq_true, Bool.and_eq_true, beq_iff_eq] at htaken
    exact .disciplineCrowded heligible hroom hingress hhandle htaken
  · rename_i hfree
    simp only [List.any_eq_true, Bool.and_eq_true, beq_iff_eq] at hfree
    exact hput (.given hingress hhandle fun d hd hinterface heq =>
      hfree ⟨d, hd, hinterface, heq⟩)

variable {peer} {flags} in
theorem upshot_placeDiscipline_silently {wanted : Discipline} {after : Peer}
    (heligible : peer.Eligible wanted) (hroom : Room peer flags wanted after []) :
    Upshot peer origin flags .present (.discipline wanted)
      (after.placeDiscipline origin wanted) := by
  have hupshot := upshot_placeDiscipline origin heligible hroom
  rw [tellAll_nil] at hupshot
  exact hupshot

theorem upshot_addDiscipline (wanted : Discipline) :
    Upshot peer origin flags .present (.discipline wanted)
      (peer.addDiscipline origin flags wanted) := by
  rw [addDiscipline]
  simp only
  split
  · exact .refused (by decide)
  rename_i hlink
  split
  · exact .refused (by decide)
  rename_i hknown
  split
  · exact .refused (by decide)
  split
  · exact .refused (by decide)
  rename_i hroot
  have heligible : peer.Eligible wanted :=
    ⟨by simpa using hlink, by simpa using hknown, by simpa using hroot⟩
  split
  · rename_i old hold
    split
    · rename_i hdefault
      exact upshot_placeDiscipline_silently origin heligible (.uprooted hold hdefault)
    rename_i hdefault
    rw [Bool.not_eq_true] at hdefault
    rw [regraftDiscipline]
    simp only [tellNew_eq, tellGone_eq]
    split
    · exact .refused (by decide)
    rename_i hexclusive
    split
    · rename_i hsame
      exact .disciplineChanged heligible hold hdefault hsame.1 hsame.2
    rename_i hother
    split
    · exact .refused (by decide)
    rename_i hreplace
    exact upshot_placeDiscipline origin heligible
      (.told hold hdefault ⟨by simpa using hexclusive, by simpa using hreplace, hother⟩)
  · rename_i hfree
    split
    · exact upshot_placeDiscipline_silently origin heligible (.free hfree)
    · exact .refused (by decide)

theorem upshot_deleteDiscipline (wanted : Discipline) :
    Upshot peer origin flags .absent (.discipline wanted)
      (peer.deleteDiscipline origin wanted) := by
  rw [deleteDiscipline]
  split
  · exact .refused (by decide)
  rename_i old hold
  split
  · exact .refused (by decide)
  rename_i hdefault
  rw [Bool.not_eq_true] at hdefault
  simp only [tellNew_eq, tellGone_eq]
  split
  · rename_i hroot
    have hupshot : Upshot peer origin flags .absent (.discipline wanted) _ :=
      .disciplineReset hold hdefault hroot
    rw [tellAll_cons] at hupshot
    exact hupshot
  · rename_i hroot
    exact .disciplineDeleted hold hdefault (Bool.eq_false_iff.mpr hroot)

theorem upshot_addFilter (wanted : Filter) :
    Upshot peer origin flags .present (.filter wanted) (peer.addFilter origin flags wanted) := by
  rw [addFilter]
  split
  · exact .refused (by decide)
  rename_i hlink
  split
  · exact .refused (by decide)
  rename_i hparent
  split
  · exact .refused (by decide)
  rw [Bool.not_eq_true', Bool.not_eq_false] at hlink hparent
  simp only [tellNew_eq]
  split
  · rename_i old hold
    split
    · exact .refused (by decide)
    · exact .filterChanged hlink hparent hold rfl
  · rename_i hfree
    split
    · exact .filterAdded hlink hparent hfree rfl
    · exact .refused (by decide)

theorem upshot_deleteFilter (wanted : Filter) :
    Upshot peer origin flags .absent (.filter wanted) (peer.deleteFilter origin wanted) := by
  rw [deleteFilter]
  split
  · exact .refused (by decide)
  simp only
  split
  · exact .refused (by decide)
  · rw [foldl_tellGone]
    exact .filtersDeleted

theorem upshot_apply (goal : Goal) (object : Object) :
    Upshot peer origin flags goal object (peer.apply origin flags goal object) := by
  cases goal with
  | present =>
      cases object with
      | link l => exact upshot_addLink peer origin flags l
      | address a => exact upshot_addAddress peer origin flags a
      | route r => exact upshot_addRoute peer origin flags r
      | discipline d => exact upshot_addDiscipline peer origin flags d
      | filter f => exact upshot_addFilter peer origin flags f
  | absent =>
      cases object with
      | link l => exact upshot_deleteLink peer origin flags l
      | address a => exact upshot_deleteAddress peer origin flags a
      | route r => exact upshot_deleteRoute peer origin flags r
      | discipline d => exact upshot_deleteDiscipline peer origin flags d
      | filter f => exact upshot_deleteFilter peer origin flags f

end NetState.Peer
