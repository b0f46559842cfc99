import NetState.Proofs.Peer.Sound
import NetState.Proofs.Peer.Upshot

namespace NetState.Peer

theorem Sound.tellAll {peer : Peer} (h : peer.Sound) (origin : Origin) (news : List News) :
    (peer.tellAll origin news).Sound :=
  h.of_holdings rfl

/-- The deeds: the news of each, and the peer after it, which has told nothing yet. -/
inductive Deed (peer : Peer) : List News → Peer → Prop where
  | stay : Deed peer [] peer
  | putLink {old l : Link} (hold : peer.links.get? l.index = some old)
      (hname : ∀ {index other}, peer.links.get? index = some other → other.name = l.name →
        index = l.index) :
      Deed peer [⟨.new, .link l⟩] { peer with links := peer.links.insert l.index l }
  | newLink {l : Link} (hindex : l.index = peer.nextIndex)
      (hnext : peer.nextIndex < peer.nextIndex + 1)
      (hname : ∀ {index other}, peer.links.get? index = some other → other.name ≠ l.name) :
      Deed peer [⟨.new, .link l⟩, ⟨.new, .discipline (defaultDiscipline l.index)⟩]
        { peer with
          nextIndex := peer.nextIndex + 1
          links := peer.links.insert l.index l
          disciplines := peer.disciplines ++ [defaultDiscipline l.index] }
  | dropLink {l : Link} (hl : peer.links.get? l.index = some l) :
      Deed peer
        ((peer.addresses.filter (·.interface == l.index)).map (fun a => ⟨.del, .address a⟩) ++
          [⟨.del, .link l⟩])
        { peer.bare l.index with links := peer.links.erase l.index }
  | putAddress {a : Address} {addresses : List Address} (hlink : peer.HasLink a.interface)
      (hput : IsPut addressKey a peer.addresses addresses) :
      Deed peer [⟨.new, .address a⟩] { peer with addresses }
  | dropAddress {a : Address} {addresses : List Address}
      (htaken : IsTaken addressKey a peer.addresses addresses) :
      Deed peer [⟨.del, .address a⟩] { peer with addresses }
  | putRoute {r : Route} {routes : List Route} (hlink : peer.HasLink r.interface)
      (hput : IsPut routeKey r peer.routes routes) :
      Deed peer [⟨.new, .route r⟩] { peer with routes }
  | dropRoute {r : Route} {routes : List Route}
      (htaken : IsTaken routeKey r peer.routes routes) :
      Deed peer [⟨.del, .route r⟩] { peer with routes }
  /-- What is replaced without a word is a default discipline, or has the same handle. -/
  | putDiscipline {d : Discipline} {disciplines : List Discipline} {nextMajor : UInt16}
      (hlink : peer.HasLink d.interface)
      (hsame : ∀ old ∈ peer.disciplines, disciplineKey old = disciplineKey d →
        old.isDefault = true ∨ old.handle = d.handle)
      (hregular : IsRegular d) (hput : IsPut disciplineKey d peer.disciplines disciplines) :
      Deed peer [⟨.new, .discipline d⟩] { peer with nextMajor, disciplines }
  | dropDiscipline {d : Discipline} {disciplines : List Discipline}
      (hdefault : d.isDefault = false)
      (htaken : IsTaken disciplineKey d peer.disciplines disciplines) :
      Deed peer [⟨.del, .discipline d⟩]
        { peer with disciplines, filters := peer.filtersWithout d }
  /-- A discipline that makes room for another one is told to be gone. -/
  | graftDiscipline {old d : Discipline} {disciplines : List Discipline} {nextMajor : UInt16}
      (hold : old ∈ peer.disciplines) (hdefault : old.isDefault = false)
      (hkey : disciplineKey d = disciplineKey old) (hregular : IsRegular d)
      (hput : IsPut disciplineKey d peer.disciplines disciplines) :
      Deed peer [⟨.del, .discipline old⟩, ⟨.new, .discipline d⟩]
        { peer with nextMajor, disciplines, filters := peer.filtersWithout old }
  | putFilter {f : Filter} {filters : List Filter} (hlink : peer.HasLink f.interface)
      (hparent : peer.hasFilterParent f.interface f.parent = true)
      (hput : IsPut filterKey f peer.filters filters) :
      Deed peer [⟨.new, .filter f⟩] { peer with filters }
  | dropFilters (gone : Filter → Bool) :
      Deed peer ((peer.filters.filter gone).map fun f => ⟨.del, .filter f⟩)
        { peer with filters := peer.filters.filter fun f => !gone f }

/-- What can come of a change: a deed that is told, whether the change is then refused or not, or
that a default discipline is gone which was to make room for one that is refused. -/
inductive Course (peer : Peer) (origin : Origin) : Effect → Prop where
  | done {news : List News} {after : Peer} (hdeed : Deed peer news after) (refusal : Option Int) :
      Course peer origin ⟨after.tellAll origin news, refusal⟩
  | uprooted {d : Discipline} {disciplines : List Discipline} (hdefault : d.isDefault = true)
      (htaken : IsTaken disciplineKey d peer.disciplines disciplines) (errno : Int) :
      Course peer origin (refuse { peer with disciplines } errno)

namespace Course

variable {peer : Peer} (origin : Origin)

theorem refuse (peer : Peer) (origin : Origin) (errno : Int) :
    Course peer origin (refuse peer errno) := by
  have hcourse : Course peer origin ⟨peer.tellAll origin [], some errno⟩ :=
    Course.done Deed.stay (some errno)
  rw [tellAll_nil] at hcourse
  exact hcourse

theorem accept {news : List News} {after : Peer} (hdeed : Deed peer news after) :
    Course peer origin (accept (after.tellAll origin news)) :=
  Course.done hdeed none

end Course

theorem index_of_name_changedLink {peer : Peer} (h : peer.Sound) {link wanted : Link}
    (hlink : peer.links.get? link.index = some link)
    (hfree : wanted.name ≠ "" → ∀ other ∈ peer.linkNamed? wanted.name, other.index = link.index)
    {index : UInt32} {other : Link} (hother : peer.links.get? index = some other)
    (hname : other.name = (changedLink link wanted).name) : index = link.index := by
  simp only [changedLink] at hname
  split at hname
  · exact h.named hother hlink hname
  · rename_i hwanted
    cases hfound : peer.linkNamed? wanted.name with
    | none => exact absurd hname (linkNamed?_eq_none hfound hother)
    | some found =>
        obtain ⟨hplace, hnamed⟩ := linkNamed?_eq_some h hfound
        rw [← hfree hwanted found hfound]
        exact h.named hother hplace (hname.trans hnamed.symm)

theorem deed_createLink {peer : Peer} {wanted : Link} (hlink : peer.resolveLink wanted = none)
    (hindex : wanted.index = 0) (hnext : peer.nextIndex ≤ peer.nextIndex + 1) :
    Deed peer [⟨.new, .link (peer.newLinkOf wanted)⟩,
        ⟨.new, .discipline (defaultDiscipline peer.nextIndex)⟩]
      { peer with
        nextIndex := peer.nextIndex + 1
        links := peer.links.insert peer.nextIndex (peer.newLinkOf wanted)
        disciplines := peer.disciplines ++ [defaultDiscipline peer.nextIndex] } := by
  rw [resolveLink, if_pos hindex] at hlink
  have hlast : peer.nextIndex < peer.nextIndex + 1 :=
    UInt32.lt_of_le_of_ne hnext fun heq => by simp at heq
  exact Deed.newLink (l := peer.newLinkOf wanted) rfl hlast
    fun hother => linkNamed?_eq_none hlink hother

theorem sameAddress_iff {a b : Address} : sameAddress a b = true ↔ addressKey a = addressKey b := by
  simp only [sameAddress, addressKey, Bool.and_eq_true, beq_iff_eq, Prod.mk.injEq, and_assoc]

theorem sameRoute_iff {a b : Route} : sameRoute a b = true ↔ routeKey a = routeKey b := by
  rw [sameRoute, beq_iff_eq]
  exact Iff.rfl

theorem hasLink_of_routeInterface {peer : Peer} (h : peer.Sound) {wanted : Route}
    {interface : UInt32} (hinterface : peer.routeInterface wanted = .ok interface) :
    peer.HasLink interface := by
  rw [routeInterface] at hinterface
  split at hinterface
  · split at hinterface
    · exact absurd hinterface (by simp)
    · split at hinterface
      · rename_i address haddress
        rw [← Except.ok.inj hinterface]
        exact h.addresses_based address (List.mem_of_find?_eq_some haddress)
      · exact absurd hinterface (by simp)
  · split at hinterface
    · rename_i hcontains
      rw [← Except.ok.inj hinterface]
      exact contains_links_iff.mp hcontains
    · exact absurd hinterface (by simp)

theorem sameDisciplinePlace_iff {a b : Discipline} :
    sameDisciplinePlace a b = true ↔ disciplineKey a = disciplineKey b := by
  simp only [sameDisciplinePlace, disciplineKey, Bool.and_eq_true, beq_iff_eq, Prod.mk.injEq]

theorem disciplineKey_of_find? {disciplines : List Discipline} {old wanted : Discipline}
    (hold : disciplines.find? (sameDisciplinePlace · wanted) = some old) :
    disciplineKey wanted = disciplineKey old :=
  (sameDisciplinePlace_iff.mp (List.find?_some (p := (sameDisciplinePlace · wanted)) hold)).symm

theorem eq_of_disciplineKey {peer : Peer} (h : peer.Sound) {old other : Discipline}
    (hold : old ∈ peer.disciplines) (hother : other ∈ peer.disciplines)
    (hkey : disciplineKey other = disciplineKey old) : other = old :=
  List.inj_on_of_nodup_map h.disciplines_distinct hother hold hkey

theorem Eligible.isRegular {peer after : Peer} {wanted : Discipline} {handle : Handle}
    {nextMajor : UInt16} (h : peer.Eligible wanted)
    (hhandled : Handled after wanted handle nextMajor) : IsRegular { wanted with handle } where
  known := h.known
  placed hkind := by
    cases hhandled with
    | fixed hingress => rfl
    | allocated hingress hhandle => exact absurd (hingress.symm.trans hkind) (by decide)
    | given hingress hhandle hfree => exact absurd (hingress.symm.trans hkind) (by decide)

theorem deed_changeDiscipline {peer : Peer} (h : peer.Sound) {old wanted : Discipline}
    (heligible : peer.Eligible wanted)
    (hold : peer.disciplines.find? (sameDisciplinePlace · wanted) = some old)
    (hkind : old.kind = wanted.kind) :
    Deed peer [⟨.new, .discipline { wanted with handle := old.handle }⟩]
      { peer with
        disciplines := replaceFirst (sameDisciplinePlace · wanted)
          { wanted with handle := old.handle } peer.disciplines } := by
  have hmem := List.mem_of_find?_eq_some hold
  have hkey := disciplineKey_of_find? hold
  refine Deed.putDiscipline (contains_links_iff.mp heligible.link) ?_ ⟨heligible.known, ?_⟩
    (isPut_replaceFirst h.disciplines_distinct hold hkey)
  · intro other hother hplace
    rw [eq_of_disciplineKey h hmem hother (hplace.trans hkey)]
    exact Or.inr rfl
  · intro hingress
    refine (h.disciplines_regular old hmem).placed ?_
    rw [hkind]
    exact hingress

theorem deed_placeDiscipline {peer after : Peer} (h : peer.Sound) {flags : UInt16}
    {wanted : Discipline} {gone : List News} {handle : Handle} {nextMajor : UInt16}
    (heligible : peer.Eligible wanted) (hroom : Room peer flags wanted after gone)
    (hhandled : Handled after wanted handle nextMajor) :
    Deed peer (gone ++ [⟨.new, .discipline { wanted with handle }⟩])
      { after with
        nextMajor
        disciplines := after.disciplines ++ [{ wanted with handle }] } := by
  have hlink := contains_links_iff.mp heligible.link
  have hregular := heligible.isRegular hhandled
  cases hroom with
  | free hfree =>
      have hother : ∀ element ∈ peer.disciplines,
          disciplineKey element ≠ disciplineKey wanted := by
        intro element hmem heq
        exact List.find?_eq_none.mp hfree element hmem (sameDisciplinePlace_iff.mpr heq)
      refine Deed.putDiscipline (d := { wanted with handle }) hlink ?_ hregular
        (isPut_append h.disciplines_distinct hother)
      intro other hmem hsame
      exact absurd hsame (hother other hmem)
  | @uprooted old hold hdefault =>
      have hmem := List.mem_of_find?_eq_some hold
      have hkey := disciplineKey_of_find? hold
      refine Deed.putDiscipline hlink ?_ hregular
        ((isTaken_eraseP h.disciplines_distinct hold).isPut_append hkey)
      intro other hother hsame
      rw [eq_of_disciplineKey h hmem hother (hsame.trans hkey)]
      exact Or.inl hdefault
  | told hold hdefault hyields =>
      have hkey := disciplineKey_of_find? hold
      exact Deed.graftDiscipline (List.mem_of_find?_eq_some hold) hdefault hkey hregular
        ((isTaken_eraseP h.disciplines_distinct hold).isPut_append hkey)

theorem Room.course {peer after : Peer} (h : peer.Sound) {flags : UInt16} {wanted : Discipline}
    {gone : List News} (hroom : Room peer flags wanted after gone) (origin : Origin)
    (errno : Int) : Course peer origin (Peer.refuse (after.tellAll origin gone) errno) := by
  cases hroom with
  | free hfree => exact Course.done Deed.stay (some errno)
  | uprooted hold hdefault =>
      rw [tellAll_nil]
      exact Course.uprooted hdefault (isTaken_eraseP h.disciplines_distinct hold) errno
  | told hold hdefault hyields =>
      exact Course.done
        (Deed.dropDiscipline hdefault (isTaken_eraseP h.disciplines_distinct hold)) (some errno)

theorem disciplineKey_default {old : Discipline} (hroot : old.parent.isRoot = true) :
    disciplineKey (defaultDiscipline old.interface) = disciplineKey old := by
  have hparent : old.parent = Handle.root := by simpa [Handle.isRoot] using hroot
  rw [disciplineKey, disciplineKey, hparent]
  rfl

theorem filterKey_of_fits {peer : Peer} {old wanted : Filter}
    (h : peer.fitsFilter wanted old = true) :
    filterKey { wanted with priority := peer.choosePriority wanted, handle := old.handle } =
      filterKey old := by
  simp only [fitsFilter, Bool.and_eq_true, beq_iff_eq] at h
  obtain ⟨⟨⟨hinterface, hparent⟩, hpriority⟩, -⟩ := h
  rw [filterKey, filterKey, hinterface, hparent, hpriority]

theorem filterKey_ne_of_free {peer : Peer} {wanted : Filter}
    (hfree : peer.filters.find? (peer.fitsFilter wanted) = none) :
    ∀ f ∈ peer.filters, filterKey f ≠ filterKey { wanted with
      priority := peer.choosePriority wanted
      handle := peer.chooseHandle wanted } := by
  intro f hmem heq
  refine List.find?_eq_none.mp hfree f hmem ?_
  simp only [filterKey, Prod.mk.injEq] at heq
  obtain ⟨hinterface, hplace, hpriority, hhandle⟩ := heq
  rw [fitsFilter, hinterface, hplace, hpriority, hhandle, chooseHandle]
  simp only [beq_self_eq_true, Bool.true_and]
  cases hset : wanted.handle.isUnspecified with
  | true => rfl
  | false => simp

/-- Each upshot is a course, as long as the numbers for links do not run out. -/
theorem Upshot.course {peer : Peer} {origin : Origin} {flags : UInt16} {goal : Goal}
    {object : Object} {effect : Effect} (hupshot : Upshot peer origin flags goal object effect)
    (h : peer.Sound) (hnext : peer.nextIndex ≤ effect.peer.nextIndex) :
    Course peer origin effect := by
  cases hupshot with
  | refused herrno => exact Course.refuse peer origin _
  | linkChanged hlink hflags hname =>
      have hplace := resolveLink_eq_some h hlink
      exact Course.accept origin (Deed.putLink (l := changedLink _ _) hplace
        fun hother heq => index_of_name_changedLink h hplace hname hother heq)
  | linkCreated hlink hindex hcreate hname hkind hlower =>
      exact Course.accept origin (deed_createLink hlink hindex hnext)
  | linkDeleted hlink hkind =>
      exact Course.accept origin (Deed.dropLink (resolveLink_eq_some h hlink))
  | addressStored hlink hstored =>
      exact Course.accept origin (Deed.putAddress (a := storedAddress _ _) ⟨_, hlink⟩
        (hstored.isPut h.addresses_distinct sameAddress_iff))
  | addressDeleted hold =>
      exact Course.accept origin (Deed.dropAddress (isTaken_eraseP h.addresses_distinct hold))
  | routeStored hinterface heq hstored =>
      subst heq
      exact Course.accept origin (Deed.putRoute (hasLink_of_routeInterface h hinterface)
        (hstored.isPut h.routes_distinct sameRoute_iff))
  | routeDeleted hold =>
      exact Course.accept origin (Deed.dropRoute (isTaken_eraseP h.routes_distinct hold))
  | disciplineChanged heligible hold hdefault hkind hhandle =>
      exact Course.accept origin (deed_changeDiscipline h heligible hold hkind)
  | disciplinePlaced heligible hroom hhandled =>
      exact Course.accept origin (deed_placeDiscipline h heligible hroom hhandled)
  | disciplineCrowded heligible hroom hingress hhandle htaken =>
      exact hroom.course h origin Errno.exist
  | disciplineDeleted hold hdefault hroot =>
      exact Course.accept origin (Deed.dropDiscipline hdefault
        (isTaken_eraseP h.disciplines_distinct hold))
  | disciplineReset hold hdefault hroot =>
      have hkey := disciplineKey_default hroot
      exact Course.accept origin (Deed.graftDiscipline (List.mem_of_find?_eq_some hold) hdefault
        hkey (isRegular_default _) ((isTaken_eraseP h.disciplines_distinct hold).isPut_append hkey))
  | filterChanged hlink hparent hold heq =>
      subst heq
      exact Course.accept origin (Deed.putFilter (contains_links_iff.mp hlink) hparent
        (isPut_replaceFirst h.filters_distinct hold (filterKey_of_fits (List.find?_some hold))))
  | filterAdded hlink hparent hfree heq =>
      subst heq
      exact Course.accept origin (Deed.putFilter (contains_links_iff.mp hlink) hparent
        (isPut_append h.filters_distinct (filterKey_ne_of_free hfree)))
  | filtersDeleted => exact Course.accept origin (Deed.dropFilters _)

/-- Whatever is asked for, the peer takes one of the courses, as long as it does not run out of
numbers for links. -/
theorem course_apply {peer : Peer} (h : peer.Sound) (origin : Origin) (flags : UInt16) (goal : Goal)
    (object : Object)
    (hnext : peer.nextIndex ≤ (peer.apply origin flags goal object).peer.nextIndex) :
    Course peer origin (peer.apply origin flags goal object) :=
  (upshot_apply peer origin flags goal object).course h hnext

end NetState.Peer
