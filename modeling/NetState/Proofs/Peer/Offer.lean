import NetState.Proofs.Mirror

namespace NetState.Peer

/-- Whether a request asks for a listing of certain objects, which every peer that has the same
gives. -/
structure Offers (peer : Peer) (kind : Kind) (draft : Draft) (objects : List Object) : Prop where
  measured : draft.IsMeasured
  asks : asksForListing draft.header = true
  calm : ∀ {other : Peer}, other.failures = [] →
    other.crashes ⟨draft.header, draft.body⟩ = false
  listed : ∀ {other : Peer}, other.holdings = peer.holdings → other.ipv6 = true →
    other.listed ⟨draft.header, draft.body⟩ = .ok objects
  ofKind : ∀ object ∈ objects, object.kind = kind

theorem crashes_addressed (peer : Peer) (draft : Draft) (seq pid : UInt32) :
    peer.crashes ⟨(draft.addressed seq pid).header, (draft.addressed seq pid).body⟩ =
      peer.crashes ⟨draft.header, draft.body⟩ := by
  simp only [crashes, asksForListing]
  rfl

theorem answer_of_listed {peer : Peer} {request : Message} {objects : List Object}
    (hfailures : peer.failures = []) (hcalm : peer.crashes request = false)
    (hasks : asksForListing request.header = true)
    (hlisted : (peer.noted request).listed request = .ok objects) :
    peer.answer request =
      { peer.noted request with
        interruptions := peer.interruptions - 1
        outbox := peer.outbox ++ listingDatagrams peer.chunk request.header objects
          (0 < peer.interruptions) } := by
  rw [answer_of_calm hcalm, respond_eq, hfailures]
  simp only [takeFailure, hasks, if_true, answerListing, hlisted]
  rfl

theorem answer_of_unlisted {peer : Peer} {request : Message} {errno : Int}
    (hfailures : peer.failures = []) (hcalm : peer.crashes request = false)
    (hasks : asksForListing request.header = true)
    (hlisted : (peer.noted request).listed request = .error errno) :
    peer.answer request =
      (peer.noted request).report request.header (Int32.ofInt (-errno)) := by
  rw [answer_of_calm hcalm, respond_eq, hfailures]
  simp only [takeFailure, hasks, if_true, answerListing, hlisted]

variable {peer other : Peer}

theorem objects_of_holdings (h : other.holdings = peer.holdings) (kind : Kind) :
    other.objects kind = peer.objects kind := by
  rw [eq_of_holdings h]
  cases kind <;> rfl

theorem hasFilterParent_of_holdings (h : other.holdings = peer.holdings) (interface : UInt32)
    (parent : Handle) :
    other.hasFilterParent interface parent = peer.hasFilterParent interface parent := by
  rw [eq_of_holdings h]
  rfl

theorem filters_of_holdings (h : other.holdings = peer.holdings) : other.filters = peer.filters :=
  congrArg (fun held => held.2.2.2.2.1) h

theorem body_listing (kind : Kind) : kind.listing.body = kind.listingHead := by
  refine Field.encodeAll_raw ?_
  cases kind <;> decide

theorem listed_listing {kind : Kind} (hkind : kind ≠ .filter) (hipv6 : peer.ipv6 = true) :
    peer.listed ⟨kind.listing.header, kind.listing.body⟩ = .ok (peer.objects kind) := by
  rw [body_listing]
  cases kind with
  | filter => exact absurd rfl hkind
  | address6 =>
      show (if peer.ipv6 then Except.ok (peer.objects .address6) else _) = _
      rw [hipv6]
      rfl
  | route6 =>
      show (if peer.ipv6 then Except.ok (peer.objects .route6) else _) = _
      rw [hipv6]
      rfl
  | _ => rfl

theorem listed_listing_or {kind : Kind} (hkind : kind ≠ .filter) :
    peer.listed ⟨kind.listing.header, kind.listing.body⟩ = .ok (peer.objects kind) ∨
      ∃ errno, peer.listed ⟨kind.listing.header, kind.listing.body⟩ = .error errno := by
  cases hipv6 : peer.ipv6 with
  | true => exact Or.inl (listed_listing hkind hipv6)
  | false =>
      rw [body_listing]
      cases kind with
      | filter => exact absurd rfl hkind
      | address6 =>
          refine Or.inr ⟨Errno.familyNotSupported, ?_⟩
          show (if peer.ipv6 then Except.ok (peer.objects .address6) else _) = _
          rw [hipv6]
          rfl
      | route6 =>
          refine Or.inr ⟨Errno.familyNotSupported, ?_⟩
          show (if peer.ipv6 then Except.ok (peer.objects .route6) else _) = _
          rw [hipv6]
          rfl
      | _ => exact Or.inl rfl

theorem crashes_listing (hfailures : peer.failures = []) {kind : Kind} (hkind : kind ≠ .filter) :
    peer.crashes ⟨kind.listing.header, kind.listing.body⟩ = false := by
  refine crashes_eq_false hfailures ?_ ?_
  · cases kind <;> rfl
  · intro hfilter
    refine absurd ?_ hkind
    revert hfilter
    cases kind <;> decide

theorem offers_listing (h : peer.Sound) {kind : Kind} (hkind : kind ≠ .filter) :
    peer.Offers kind kind.listing (peer.objects kind) where
  measured := by
    rw [Draft.IsMeasured, body_listing]
    cases kind <;> decide
  asks := by cases kind <;> decide
  calm hfailures := crashes_listing hfailures hkind
  listed hsame hipv6 := by
    rw [listed_listing hkind hipv6, objects_of_holdings hsame]
  ofKind object hobject := ((mem_objects_iff h).mp hobject).2

/-- The filters at an attach point, or those below a discipline if that is what is told. -/
def filtersAt (peer : Peer) (interface : UInt32) (parent : Handle) : List Filter :=
  peer.filters.filter fun f =>
    f.interface == interface &&
      if parent.minor = 0 then f.parent.major == parent.major else f.parent == parent

theorem body_filterListing (interface : UInt32) (parent : Handle) :
    (Kind.filterListing interface parent).body =
      Field.encodeAll [.raw (TrafficHead.toBytes ⟨0, interface, .unspecified, parent, 0⟩)] :=
  rfl

theorem ofPayload?_filterListing (interface : UInt32) (parent : Handle) :
    Filter.ofPayload? (Kind.filterListing interface parent).body =
      some ⟨interface, "", .unspecified, parent, 0, Filter.swapped 0, none⟩ := by
  have hhead := TrafficHead.ofPayload?_encodeAll ⟨0, interface, .unspecified, parent, 0⟩ []
  rw [show Attribute.readAll? (Field.encodeAll []) = some [] from Attribute.readAll?_nil,
    Option.bind_some, List.foldlM_nil] at hhead
  have haction : Filter.readAction "" none = some none := by decide
  rw [body_filterListing, Filter.ofPayload?, hhead]
  simp only [Option.pure_def, Option.map_some, Option.bind_eq_bind, Option.bind_some, haction]
  rfl

theorem crashes_filterListing (hfailures : peer.failures = []) (interface : UInt32)
    (parent : Handle) :
    peer.crashes ⟨(Kind.filterListing interface parent).header,
      (Kind.filterListing interface parent).body⟩ = false := by
  refine crashes_eq_false hfailures rfl fun _ => ?_
  exact Option.isSome_of_eq_some (ofPayload?_filterListing interface parent)

theorem listed_filterListing {interface : UInt32} {parent : Handle}
    (hparent : peer.hasFilterParent interface parent = true) :
    peer.listed ⟨(Kind.filterListing interface parent).header,
        (Kind.filterListing interface parent).body⟩ =
      .ok ((peer.filtersAt interface parent).map .filter) := by
  show peer.listFilters (Kind.filterListing interface parent).body = _
  rw [listFilters, ofPayload?_filterListing]
  simp only [hparent, Bool.not_true, Bool.false_eq_true, if_false]
  rfl

theorem offers_filterListing {interface : UInt32} {parent : Handle}
    (hparent : peer.hasFilterParent interface parent = true) :
    peer.Offers .filter (Kind.filterListing interface parent)
      ((peer.filtersAt interface parent).map .filter) where
  measured := by
    rw [Draft.IsMeasured, body_filterListing, Field.encodeAll_raw ⟨5, rfl⟩]
    exact show 36 < 4294967296 by decide
  asks := show (Flag.request ||| Flag.dump) &&& Flag.dump == Flag.dump by decide
  calm hfailures := crashes_filterListing hfailures interface parent
  listed hsame hipv6 := by
    have hother := (hasFilterParent_of_holdings hsame interface parent).trans hparent
    rw [listed_filterListing hother, filtersAt, filtersAt, filters_of_holdings hsame]
  ofKind object hobject := by
    obtain ⟨f, hf, rfl⟩ := List.mem_map.mp hobject
    rfl

end NetState.Peer
