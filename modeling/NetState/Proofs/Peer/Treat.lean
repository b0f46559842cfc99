import NetState.Proofs.Peer.Deed

namespace NetState.Peer

theorem code_ne_zero {errno : Int} (h : errno ∈ refusals) : Int32.ofInt (-errno) ≠ 0 := by
  revert errno
  decide

/-- What waits to be received, and how the peer is set to answer. -/
def stance (peer : Peer) : List Bytes × List (UInt16 × Int32) × Nat × Bool × Bool :=
  (peer.outbox, peer.failures, peer.overruns, peer.muted, peer.repliesDropped)

def Linkless (news : List News) : Prop :=
  ∀ told ∈ news, told.object.kind ≠ .link

theorem linkless_nil : Linkless [] :=
  fun _ hmem => absurd hmem List.not_mem_nil

theorem linkless_singleton {news : News} (h : news.object.kind ≠ .link) : Linkless [news] :=
  fun _ hmem => (List.mem_singleton.mp hmem) ▸ h

/-- How a request ends: refused, with all links as they were and perhaps news of something else, or
carried out with some news. -/
inductive Treats (peer : Peer) (origin : Origin) (tells : Peer → List News → Prop) :
    Effect → Prop where
  | refused {after : Peer} {news : List News} {errno : Int} (hstance : after.stance = peer.stance)
      (hlinks : after.links = peer.links) (hnews : Linkless news)
      (herrno : errno ∈ refusals) :
      Treats peer origin tells ⟨after.tellAll origin news, some errno⟩
  | granted {after : Peer} {news : List News} (hstance : after.stance = peer.stance)
      (htells : tells after news) : Treats peer origin tells ⟨after.tellAll origin news, none⟩

/-- Whether an object is told to be there as it should be stored, and nothing else that could make a
difference to it: nothing after it unless it is a link, and then nothing before it and no other
link. -/
inductive Presents (stores : Object → Prop) : List News → Prop where
  | last {before : List News} {stored : Object} (hbefore : Linkless before)
      (hkind : stored.kind ≠ .link) (hstores : stores stored) :
      Presents stores (before ++ [⟨.new, stored⟩])
  | first {stored : Object} {behind : List News} (hkind : stored.kind = .link)
      (hbehind : ∀ told ∈ behind, told.change = .new ∧ told.object.kind ≠ .link)
      (hstores : stores stored) : Presents stores (⟨.new, stored⟩ :: behind)

theorem presents_single {stores : Object → Prop} {stored : Object} (hstores : stores stored) :
    Presents stores [⟨.new, stored⟩] := by
  by_cases hkind : stored.kind = .link
  · exact Presents.first hkind (fun _ hmem => absurd hmem List.not_mem_nil) hstores
  · exact @Presents.last stores [] stored linkless_nil hkind hstores

def SparesLinks (peer after : Peer) (news : List News) : Prop :=
  after.links = peer.links ∧ Linkless news

namespace Treats

variable {peer after : Peer} {origin : Origin} {tells : Peer → List News → Prop}
  {stores : Object → Prop} {errno : Int} {object : Object}

theorem refuse (hstance : after.stance = peer.stance) (hlinks : after.links = peer.links)
    (herrno : errno ∈ refusals) : Treats peer origin tells (Peer.refuse after errno) := by
  have h : Treats peer origin tells ⟨after.tellAll origin [], some errno⟩ :=
    refused hstance hlinks linkless_nil herrno
  rw [tellAll_nil] at h
  exact h

theorem mono {effect : Effect} (h : Treats peer origin tells effect)
    {other : Peer → List News → Prop}
    (himplies : ∀ after news, tells after news → other after news) :
    Treats peer origin other effect := by
  cases h with
  | refused hstance hlinks hnews herrno => exact refused hstance hlinks hnews herrno
  | granted hstance htells => exact granted hstance (himplies _ _ htells)

end Treats

variable (peer : Peer) (origin : Origin) (flags : UInt16)

theorem kind_address_ne_link (a : Address) : (Object.address a).kind ≠ .link := by
  rw [Object.kind]
  split <;> decide

theorem kind_route_ne_link (r : Route) : (Object.route r).kind ≠ .link := by
  rw [Object.kind]
  split <;> decide

theorem kind_discipline_ne_link (d : Discipline) : (Object.discipline d).kind ≠ .link :=
  show Kind.discipline ≠ .link by decide

theorem kind_filter_ne_link (f : Filter) : (Object.filter f).kind ≠ .link :=
  show Kind.filter ≠ .link by decide

section

variable {peer after : Peer} {flags : UInt16} {wanted : Discipline} {gone : List News}

theorem Room.stance (h : Room peer flags wanted after gone) : after.stance = peer.stance := by
  cases h <;> rfl

theorem Room.links (h : Room peer flags wanted after gone) : after.links = peer.links := by
  cases h <;> rfl

theorem Room.linkless (h : Room peer flags wanted after gone) : Linkless gone := by
  cases h with
  | free hfree => exact linkless_nil
  | uprooted hold hdefault => exact linkless_nil
  | told hold hdefault hyields => exact linkless_singleton (kind_discipline_ne_link _)

end

theorem interface_of_routeInterface {wanted : Route} {interface : UInt32}
    (h : peer.routeInterface wanted = .ok interface) (hset : wanted.interface ≠ 0) :
    interface = wanted.interface := by
  rw [routeInterface, if_neg hset] at h
  split at h
  · exact (Except.ok.inj h).symm
  · exact absurd h (by simp)

/-- Whether a discipline can be stored for a wanted one: the handle is as wanted, unless it is left
to the kernel or fixed for the kind. -/
def Places (wanted : Discipline) (stored : Object) : Prop :=
  ∃ handle, (wanted.handle.isUnspecified = true ∨ handle = wanted.handle ∨
      isIngressKind wanted.kind = true ∧ handle = Handle.ingressDiscipline) ∧
    stored = .discipline { wanted with handle }

theorem Handled.places {peer : Peer} {wanted : Discipline} {handle : Handle} {nextMajor : UInt16}
    (h : Handled peer wanted handle nextMajor) :
    Places wanted (.discipline { wanted with handle }) := by
  refine ⟨handle, ?_, rfl⟩
  cases h with
  | fixed hingress => exact Or.inr (Or.inr ⟨hingress, rfl⟩)
  | allocated hingress hhandle => exact Or.inl hhandle
  | given hingress hhandle hfree => exact Or.inr (Or.inl rfl)

/-- Whether a link can be stored for a wanted one: it is created under a name that is free, or it is
there and changed. -/
def SetsLink (wanted : Link) (stored : Object) : Prop :=
  (wanted.index = 0 ∧ wanted.name ≠ "" ∧ wanted.kind.isCreatable = true ∧
      stored = .link (peer.newLinkOf wanted)) ∨
    ∃ link, peer.resolveLink wanted = some link ∧
      flags &&& (Flag.create ||| Flag.exclusive) ≠ Flag.create ||| Flag.exclusive ∧
      stored = .link { link with
        flags := link.flags &&& ~~~carrierFlags true ||| carrierFlags wanted.isUp
        state := stateOf wanted.isUp
        mtu := wanted.mtu.or link.mtu
        name := if wanted.name = "" then link.name else wanted.name }

/-- Whether an object can be stored for a wanted one. -/
def Stores : Object → Object → Prop
  | .link l => peer.SetsLink flags l
  | .address a => fun stored => ∃ link, peer.links.get? a.interface = some link ∧
      stored = .address (storedAddress a link)
  | .route r => fun stored => ∃ interface, (r.interface ≠ 0 → interface = r.interface) ∧
      stored = .route { r with interface, metric := r.effectiveMetric }
  | .discipline d => Places d
  | .filter f => fun stored => ∃ priority handle, (f.priority ≠ 0 → priority = f.priority) ∧
      (f.handle.isUnspecified = true ∨ handle = f.handle) ∧
      stored = .filter { f with priority, handle }

theorem choosePriority_of_set {wanted : Filter} (hset : wanted.priority ≠ 0) :
    peer.choosePriority wanted = wanted.priority :=
  if_pos hset

theorem chooseHandle_of_set (wanted : Filter) :
    wanted.handle.isUnspecified = true ∨ peer.chooseHandle wanted = wanted.handle := by
  rw [chooseHandle]
  cases wanted.handle.isUnspecified with
  | true => exact Or.inl rfl
  | false => exact Or.inr rfl

theorem Upshot.presents {peer : Peer} {origin : Origin} {flags : UInt16} {wanted : Object}
    {effect : Effect} (h : Upshot peer origin flags .present wanted effect) :
    Treats peer origin (fun _ => Presents (peer.Stores flags wanted)) effect := by
  cases h with
  | refused herrno => exact Treats.refuse rfl rfl herrno
  | linkChanged hlink hflags hname =>
      exact Treats.granted rfl (presents_single (Or.inr ⟨_, hlink, hflags, rfl⟩))
  | linkCreated hlink hindex hcreate hname hkind hlower =>
      refine Treats.granted rfl (.first rfl ?_ (Or.inl ⟨hindex, hname, hkind, rfl⟩))
      intro told htold
      rw [List.mem_singleton.mp htold]
      exact ⟨rfl, kind_discipline_ne_link _⟩
  | addressStored hlink hstored =>
      exact Treats.granted rfl (presents_single ⟨_, hlink, rfl⟩)
  | routeStored hinterface heq hstored =>
      subst heq
      exact Treats.granted rfl
        (presents_single ⟨_, interface_of_routeInterface peer hinterface, rfl⟩)
  | disciplineChanged heligible hold hdefault hkind hhandle =>
      exact Treats.granted rfl
        (presents_single ⟨_, hhandle.imp_right fun h => Or.inl h.symm, rfl⟩)
  | disciplinePlaced heligible hroom hhandled =>
      exact Treats.granted hroom.stance
        (.last hroom.linkless (kind_discipline_ne_link _) hhandled.places)
  | disciplineCrowded heligible hroom hingress hhandle htaken =>
      exact Treats.refused hroom.stance hroom.links hroom.linkless (by decide)
  | filterChanged hlink hparent hold heq =>
      subst heq
      have hfits := List.find?_some hold
      simp only [fitsFilter, Bool.and_eq_true, Bool.or_eq_true, beq_iff_eq] at hfits
      exact Treats.granted rfl
        (presents_single ⟨_, _, choosePriority_of_set peer, hfits.2, rfl⟩)
  | filterAdded hlink hparent hfree heq =>
      subst heq
      exact Treats.granted rfl
        (presents_single ⟨_, _, choosePriority_of_set peer, chooseHandle_of_set peer _, rfl⟩)

theorem treats_present (wanted : Object) :
    Treats peer origin (fun _ => Presents (peer.Stores flags wanted))
      (peer.apply origin flags .present wanted) :=
  (upshot_apply peer origin flags .present wanted).presents

theorem Upshot.sparesLinks {peer : Peer} {origin : Origin} {flags : UInt16} {gone : Object}
    {effect : Effect} (h : Upshot peer origin flags .absent gone effect)
    (hkind : gone.kind ≠ .link) : Treats peer origin peer.SparesLinks effect := by
  cases h with
  | refused herrno => exact Treats.refuse rfl rfl herrno
  | linkDeleted hlink hloopback => exact absurd rfl hkind
  | addressDeleted hold =>
      exact Treats.granted rfl ⟨rfl, linkless_singleton (kind_address_ne_link _)⟩
  | routeDeleted hold =>
      exact Treats.granted rfl ⟨rfl, linkless_singleton (kind_route_ne_link _)⟩
  | disciplineDeleted hold hdefault hroot =>
      exact Treats.granted rfl ⟨rfl, linkless_singleton (kind_discipline_ne_link _)⟩
  | disciplineReset hold hdefault hroot =>
      refine Treats.granted rfl ⟨rfl, fun told htold => ?_⟩
      rcases List.mem_pair.mp htold with rfl | rfl <;> exact kind_discipline_ne_link _
  | filtersDeleted =>
      refine Treats.granted rfl ⟨rfl, fun told htold => ?_⟩
      obtain ⟨f, -, rfl⟩ := List.mem_map.mp htold
      exact kind_filter_ne_link f

theorem treats_absent {gone : Object} (hkind : gone.kind ≠ .link) :
    Treats peer origin peer.SparesLinks (peer.apply origin flags .absent gone) :=
  (upshot_apply peer origin flags .absent gone).sparesLinks hkind

end NetState.Peer
