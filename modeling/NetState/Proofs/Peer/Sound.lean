import Mathlib.Data.List.Nodup
import NetState.Peer.Answer
import NetState.Proofs.Table

namespace NetState.Peer

def addressKey (address : Address) : UInt32 × Ip × UInt8 :=
  (address.interface, address.ip, address.length)

def routeKey (route : Route) : Key :=
  (Object.route route).key

/-- A link has one discipline at each attach point. -/
def disciplineKey (discipline : Discipline) : UInt32 × Handle :=
  (discipline.interface, discipline.parent)

/-- What tells a filter from others, whatever its protocol is. -/
def filterKey (filter : Filter) : UInt32 × Handle × UInt16 × Handle :=
  (filter.interface, filter.parent, filter.priority, filter.handle)

def HasLink (peer : Peer) (index : UInt32) : Prop :=
  ∃ l, peer.links.get? index = some l

/-- Whether a discipline is of a kind that there is, and has the handle that is fixed for some. -/
structure IsRegular (discipline : Discipline) : Prop where
  known : disciplineKinds.contains discipline.kind = true
  placed : isIngressKind discipline.kind = true → discipline.handle = Handle.ingressDiscipline

theorem isRegular_default (index : UInt32) : IsRegular (defaultDiscipline index) where
  known := show disciplineKinds.contains "noqueue" = true by decide
  placed h := absurd (show isIngressKind "noqueue" = true from h) (by decide)

/-- The state of a peer is one that changes can lead to. -/
structure Sound (peer : Peer) : Prop where
  /-- Every link is kept under its number. -/
  placed : ∀ {index l}, peer.links.get? index = some l → l.index = index
  started : peer.nextIndex ≠ 0
  /-- Numbers are not zero and have been given out. -/
  numbered : ∀ {index l}, peer.links.get? index = some l → index ≠ 0 ∧ index < peer.nextIndex
  named : ∀ {index other l m}, peer.links.get? index = some l → peer.links.get? other = some m →
    l.name = m.name → index = other
  addresses_based : ∀ a ∈ peer.addresses, peer.HasLink a.interface
  routes_based : ∀ r ∈ peer.routes, peer.HasLink r.interface
  disciplines_based : ∀ d ∈ peer.disciplines, peer.HasLink d.interface
  filters_based : ∀ f ∈ peer.filters, peer.HasLink f.interface
  addresses_distinct : (peer.addresses.map addressKey).Nodup
  routes_distinct : (peer.routes.map routeKey).Nodup
  disciplines_distinct : (peer.disciplines.map disciplineKey).Nodup
  filters_distinct : (peer.filters.map filterKey).Nodup
  disciplines_regular : ∀ d ∈ peer.disciplines, IsRegular d
  /-- Every filter has a discipline that it can hang below. -/
  filters_hung : ∀ f ∈ peer.filters, peer.hasFilterParent f.interface f.parent = true

theorem hasFilterParent_iff {peer : Peer} {interface : UInt32} {parent : Handle} :
    peer.hasFilterParent interface parent = true ↔ ∃ d ∈ peer.disciplines,
      d.interface = interface ∧ d.isDefault = false ∧ d.handle.major = parent.major := by
  simp only [hasFilterParent, List.any_eq_true, Bool.and_eq_true, beq_iff_eq, Bool.not_eq_true',
    and_assoc]

theorem contains_links_iff {peer : Peer} {index : UInt32} :
    peer.links.contains index = true ↔ peer.HasLink index :=
  Table.contains_iff

theorem linkNamed?_eq_some {peer : Peer} (h : peer.Sound) {name : String} {l : Link}
    (hl : peer.linkNamed? name = some l) : peer.links.get? l.index = some l ∧ l.name = name := by
  obtain ⟨index, hindex⟩ := Table.mem_values_iff.mp (List.mem_of_find?_eq_some hl)
  refine ⟨?_, by simpa using List.find?_some hl⟩
  rw [h.placed hindex]
  exact hindex

theorem linkNamed?_eq_none {peer : Peer} {name : String} (hl : peer.linkNamed? name = none)
    {index : UInt32} {l : Link} (hindex : peer.links.get? index = some l) : l.name ≠ name := by
  rw [linkNamed?, List.find?_eq_none] at hl
  have := hl l (Table.mem_values_iff.mpr ⟨index, hindex⟩)
  simpa using this

theorem resolveLink_eq_some {peer : Peer} (h : peer.Sound) {wanted l : Link}
    (hl : peer.resolveLink wanted = some l) : peer.links.get? l.index = some l := by
  rw [resolveLink] at hl
  split at hl
  · exact (linkNamed?_eq_some h hl).1
  · rw [h.placed hl]
    exact hl

/-- All that soundness is about. -/
def holdings (peer : Peer) : Table UInt32 Link × List Address × List Route × List Discipline ×
    List Filter × UInt32 :=
  (peer.links, peer.addresses, peer.routes, peer.disciplines, peer.filters, peer.nextIndex)

theorem eq_of_holdings {peer other : Peer} (h : other.holdings = peer.holdings) :
    other =
      { other with
        links := peer.links
        addresses := peer.addresses
        routes := peer.routes
        disciplines := peer.disciplines
        filters := peer.filters
        nextIndex := peer.nextIndex } := by
  simp only [holdings, Prod.mk.injEq] at h
  obtain ⟨hlinks, haddresses, hroutes, hdisciplines, hfilters, hnext⟩ := h
  rw [← hlinks, ← haddresses, ← hroutes, ← hdisciplines, ← hfilters, ← hnext]

theorem Sound.of_holdings {peer other : Peer} (h : peer.Sound)
    (hsame : other.holdings = peer.holdings) : other.Sound := by
  rw [eq_of_holdings hsame]
  exact ⟨h.placed, h.started, h.numbered, h.named, h.addresses_based, h.routes_based,
    h.disciplines_based, h.filters_based, h.addresses_distinct, h.routes_distinct,
    h.disciplines_distinct, h.filters_distinct, h.disciplines_regular, h.filters_hung⟩

theorem receive?_eq_some {peer after : Peer} {received : Except Fault Bytes}
    (h : peer.receive? = some (received, after)) :
    (0 < peer.overruns ∧ received = .error (.io Errno.noBuffers) ∧
        after = { peer with overruns := peer.overruns - 1 }) ∨
      ∃ datagram rest, peer.overruns = 0 ∧ peer.outbox = datagram :: rest ∧
        received = .ok datagram ∧ after = { peer with outbox := rest } := by
  rw [receive?] at h
  split at h
  · rename_i hoverruns
    obtain ⟨rfl, rfl⟩ := Prod.mk.inj (Option.some.inj h)
    exact Or.inl ⟨hoverruns, rfl, rfl⟩
  · rename_i hoverruns
    split at h
    · exact absurd h (by simp)
    · rename_i datagram rest houtbox
      obtain ⟨rfl, rfl⟩ := Prod.mk.inj (Option.some.inj h)
      exact Or.inr ⟨datagram, rest, Nat.eq_zero_of_not_pos hoverruns, houtbox, rfl, rfl⟩

theorem holdings_receive? {peer after : Peer} {received : Except Fault Bytes}
    (h : peer.receive? = some (received, after)) : after.holdings = peer.holdings := by
  rcases receive?_eq_some h with ⟨-, -, rfl⟩ | ⟨_, _, -, -, -, rfl⟩ <;> rfl

theorem hasLink_insert {peer : Peer} {l : Link} {links : Table UInt32 Link}
    (hlinks : links = peer.links.insert l.index l) {index : UInt32} (h : peer.HasLink index) :
    ∃ other, links.get? index = some other := by
  obtain ⟨other, hother⟩ := h
  rw [hlinks]
  by_cases heq : l.index = index
  · exact ⟨l, by rw [Table.get?_insert, if_pos heq]⟩
  · exact ⟨other, by rw [Table.get?_insert, if_neg heq, hother]⟩

theorem Sound.putLink {peer : Peer} (h : peer.Sound) {l : Link} {nextIndex : UInt32}
    (hnext : peer.nextIndex ≤ nextIndex) (hzero : l.index ≠ 0) (hindex : l.index < nextIndex)
    (hname : ∀ {index other}, peer.links.get? index = some other → other.name = l.name →
      index = l.index) :
    ({ peer with nextIndex, links := peer.links.insert l.index l } : Peer).Sound := by
  have hlinks {index : UInt32} (hlink : peer.HasLink index) := hasLink_insert (l := l) rfl hlink
  refine ⟨?_, ?_, ?_, ?_, fun a ha => hlinks (h.addresses_based a ha),
    fun r hr => hlinks (h.routes_based r hr), fun d hd => hlinks (h.disciplines_based d hd),
    fun f hf => hlinks (h.filters_based f hf), h.addresses_distinct, h.routes_distinct,
    h.disciplines_distinct, h.filters_distinct, h.disciplines_regular, h.filters_hung⟩
  · intro index other hother
    rw [Table.get?_insert] at hother
    split at hother
    · rename_i heq
      rw [← Option.some.inj hother, heq]
    · exact h.placed hother
  · intro hlast
    rw [show nextIndex = 0 from hlast] at hindex
    exact absurd hindex UInt32.not_lt_zero
  · intro index other hother
    rw [Table.get?_insert] at hother
    split at hother
    · rename_i heq
      rw [← heq]
      exact ⟨hzero, hindex⟩
    · obtain ⟨hne, hlt⟩ := h.numbered hother
      exact ⟨hne, UInt32.lt_of_lt_of_le hlt hnext⟩
  · intro index other one two hone htwo hsame
    rw [Table.get?_insert] at hone htwo
    split at hone
    · rename_i heq
      split at htwo
      · rename_i heq'
        exact heq.symm.trans heq'
      · rw [← Option.some.inj hone] at hsame
        exact heq.symm.trans (hname htwo hsame.symm).symm
    · split at htwo
      · rename_i heq
        rw [← Option.some.inj htwo] at hsame
        exact (hname hone hsame).trans heq
      · exact h.named hone htwo hsame

theorem Sound.setLink {peer : Peer} (h : peer.Sound) {old l : Link}
    (hold : peer.links.get? l.index = some old)
    (hname : ∀ {index other}, peer.links.get? index = some other → other.name = l.name →
      index = l.index) :
    ({ peer with links := peer.links.insert l.index l } : Peer).Sound := by
  obtain ⟨hzero, hindex⟩ := h.numbered hold
  exact h.putLink (UInt32.le_refl _) hzero hindex hname

theorem Sound.newLink {peer : Peer} (h : peer.Sound) {l : Link} (hindex : l.index = peer.nextIndex)
    (hnext : peer.nextIndex < peer.nextIndex + 1)
    (hname : ∀ {index other}, peer.links.get? index = some other → other.name ≠ l.name) :
    ({ peer with
      nextIndex := peer.nextIndex + 1, links := peer.links.insert l.index l } : Peer).Sound
    := by
  refine h.putLink (UInt32.le_of_lt hnext) ?_ ?_ ?_
  · rw [hindex]
    exact h.started
  · rw [hindex]
    exact hnext
  · intro index other hother hsame
    exact absurd hsame (hname hother)

theorem Sound.eraseLink {peer : Peer} (h : peer.Sound) {index : UInt32}
    (haddresses : ∀ a ∈ peer.addresses, a.interface ≠ index)
    (hroutes : ∀ r ∈ peer.routes, r.interface ≠ index)
    (hdisciplines : ∀ d ∈ peer.disciplines, d.interface ≠ index)
    (hfilters : ∀ f ∈ peer.filters, f.interface ≠ index) :
    ({ peer with links := peer.links.erase index } : Peer).Sound := by
  have hget {other : UInt32} {l : Link} (hl : (peer.links.erase index).get? other = some l) :
      peer.links.get? other = some l := by
    rw [Table.get?_erase] at hl
    split at hl
    · exact absurd hl (by simp)
    · exact hl
  have hlinks {other : UInt32} (hlink : peer.HasLink other) (hne : other ≠ index) :
      ({ peer with links := peer.links.erase index } : Peer).HasLink other := by
    obtain ⟨l, hl⟩ := hlink
    exact ⟨l, by rw [Table.get?_erase, if_neg hne.symm, hl]⟩
  exact ⟨fun hl => h.placed (hget hl), h.started, fun hl => h.numbered (hget hl),
    fun hone htwo => h.named (hget hone) (hget htwo),
    fun a ha => hlinks (h.addresses_based a ha) (haddresses a ha),
    fun r hr => hlinks (h.routes_based r hr) (hroutes r hr),
    fun d hd => hlinks (h.disciplines_based d hd) (hdisciplines d hd),
    fun f hf => hlinks (h.filters_based f hf) (hfilters f hf), h.addresses_distinct,
    h.routes_distinct, h.disciplines_distinct, h.filters_distinct, h.disciplines_regular,
    h.filters_hung⟩

theorem Sound.setAddresses {peer : Peer} (h : peer.Sound) (addresses : List Address)
    (hbased : ∀ a ∈ addresses, peer.HasLink a.interface)
    (hdistinct : (addresses.map addressKey).Nodup) : ({ peer with addresses } : Peer).Sound :=
  ⟨h.placed, h.started, h.numbered, h.named, hbased, h.routes_based, h.disciplines_based,
    h.filters_based, hdistinct, h.routes_distinct, h.disciplines_distinct, h.filters_distinct,
    h.disciplines_regular, h.filters_hung⟩

theorem Sound.setRoutes {peer : Peer} (h : peer.Sound) (routes : List Route)
    (hbased : ∀ r ∈ routes, peer.HasLink r.interface)
    (hdistinct : (routes.map routeKey).Nodup) : ({ peer with routes } : Peer).Sound :=
  ⟨h.placed, h.started, h.numbered, h.named, h.addresses_based, hbased, h.disciplines_based,
    h.filters_based, h.addresses_distinct, hdistinct, h.disciplines_distinct, h.filters_distinct,
    h.disciplines_regular, h.filters_hung⟩

theorem Sound.setTraffic {peer : Peer} (h : peer.Sound) {disciplines : List Discipline}
    {filters : List Filter} (hdisciplines : ∀ d ∈ disciplines, peer.HasLink d.interface)
    (hfilters : ∀ f ∈ filters, peer.HasLink f.interface)
    (hdistinct : (disciplines.map disciplineKey).Nodup) (hkeys : (filters.map filterKey).Nodup)
    (hregular : ∀ d ∈ disciplines, IsRegular d)
    (hhung : ∀ f ∈ filters, ∃ d ∈ disciplines,
      d.interface = f.interface ∧ d.isDefault = false ∧ d.handle.major = f.parent.major) :
    ({ peer with disciplines, filters } : Peer).Sound :=
  ⟨h.placed, h.started, h.numbered, h.named, h.addresses_based, h.routes_based, hdisciplines,
    hfilters, h.addresses_distinct, h.routes_distinct, hdistinct, hkeys, hregular,
    fun f hf => hasFilterParent_iff.mpr (hhung f hf)⟩

theorem sound_initial : initial.Sound where
  placed {index l} h := by
    have hentry := Table.get?_eq_some_iff.mp h
    rw [show initial.links.entries = [(1, loopback)] from rfl, List.mem_singleton] at hentry
    obtain ⟨rfl, rfl⟩ := Prod.mk.injEq .. ▸ hentry
    rfl
  started := by decide
  numbered {index l} h := by
    have hentry := Table.get?_eq_some_iff.mp h
    rw [show initial.links.entries = [(1, loopback)] from rfl, List.mem_singleton] at hentry
    obtain ⟨rfl, rfl⟩ := Prod.mk.injEq .. ▸ hentry
    exact ⟨by decide, by decide⟩
  named {index other l m} hl hm _ := by
    have hone := Table.get?_eq_some_iff.mp hl
    have htwo := Table.get?_eq_some_iff.mp hm
    rw [show initial.links.entries = [(1, loopback)] from rfl, List.mem_singleton] at hone htwo
    exact (congrArg Prod.fst hone).trans (congrArg Prod.fst htwo).symm
  addresses_based a ha := ⟨loopback, by rw [List.mem_singleton.mp ha]; rfl⟩
  routes_based r hr := absurd hr (by simp [initial])
  disciplines_based d hd := ⟨loopback, by rw [List.mem_singleton.mp hd]; rfl⟩
  filters_based f hf := absurd hf (by simp [initial])
  addresses_distinct := List.nodup_singleton _
  routes_distinct := List.nodup_nil
  disciplines_distinct := List.nodup_singleton _
  filters_distinct := List.nodup_nil
  disciplines_regular d hd := List.mem_singleton.mp hd ▸ isRegular_default 1
  filters_hung f hf := absurd hf (by simp [initial])

end NetState.Peer
