import NetState.Proofs.Object.Canonical
import NetState.Proofs.Peer.Offer

namespace NetState

namespace Filter

/-- A filter that names for the kernel's side just the filters that another one does. -/
structure Echoes (read wanted : Filter) : Prop where
  interface : read.interface = wanted.interface
  parent : read.parent = wanted.parent
  priority : read.priority = wanted.priority
  handle : wanted.priority ≠ 0 → read.handle = wanted.handle

theorem Echoes.isMeantBy {read wanted : Filter} (h : read.Echoes wanted) (f : Filter) :
    Peer.isMeantBy f read = Peer.isMeantBy f wanted := by
  rw [Peer.isMeantBy, Peer.isMeantBy, h.interface, h.parent, h.priority]
  by_cases hpriority : wanted.priority = 0
  · simp [hpriority]
  · rw [h.handle hpriority]

theorem exists_decode_delete {f : Filter} {fields : List Field}
    (h : f.requestFields .delete = .ok fields) (hsize : Field.oversizedAmong? fields = none) :
    ∃ read : Filter, Object.decode MessageType.delFilter (Field.encodeAll fields) =
      .ok (some (.del, .filter read)) ∧ read.Echoes f := by
  have hchange : Object.changeOf? MessageType.delFilter = some .del :=
    Object.changeOf?_delType .filter
  by_cases hpriority : f.priority = 0
  · rw [requestFields, if_pos ⟨rfl, hpriority⟩] at h
    obtain rfl := Except.ok.inj h
    have hread := Peer.ofPayload?_filterListing f.interface f.parent
    rw [Peer.body_filterListing] at hread
    refine ⟨_, Object.decode_eq_ok_some_iff.mpr
      ⟨hchange, Object.demand_eq_ok_some_iff.mpr ⟨_, hread, rfl⟩⟩, ?_⟩
    exact ⟨rfl, rfl, hpriority.symm, fun hne => absurd hpriority hne⟩
  · obtain ⟨gone, hgone, hslot⟩ := Object.exists_gone_filter hpriority h hsize
    obtain ⟨read, -, rfl⟩ := Object.demand_eq_ok_some_iff.mp
      (show Object.demand _ .filter (ofPayload? (Field.encodeAll fields)) = .ok (some gone)
        from hgone)
    obtain ⟨hkey, -⟩ := Peer.slot_filter_iff.mp hslot
    simp only [Peer.filterKey, Prod.mk.injEq] at hkey
    obtain ⟨hinterface, hparent, hsame, hhandle⟩ := hkey
    exact ⟨read, Object.decode_eq_ok_some_iff.mpr ⟨hchange, hgone⟩,
      hinterface, hparent, hsame, fun _ => hhandle⟩

end Filter

/-- A message that asks for no change, or to delete the filters that one of the given ones names. -/
def Message.AsksAtMost (target : Option Filter) (message : Message) : Prop :=
  Object.decode message.header.kind message.payload = .ok none ∨
    ∃ wanted ∈ target, ∃ read : Filter,
      Object.decode message.header.kind message.payload = .ok (some (.del, .filter read)) ∧
        read.Echoes wanted

/-- A message that is carried out by deleting every filter at a place. -/
def Message.Flushes (message : Message) : Prop :=
  ∃ read : Filter, Object.decode message.header.kind message.payload =
    .ok (some (.del, .filter read)) ∧ read.priority = 0

instance (message : Message) : Decidable message.Flushes :=
  decidable_of_iff ((match Object.decode message.header.kind message.payload with
    | .ok (some (.del, .filter read)) => some read.priority
    | _ => none) = some 0) (by
      rw [Message.Flushes]
      split
      · rename_i hread
        simp [hread]
      · rename_i hother
        simp only [reduceCtorEq, false_iff]
        rintro ⟨read, hread, -⟩
        exact hother read hread)

theorem Message.AsksAtMost.exists_of_flushes {target : Option Filter} {message : Message}
    (h : message.AsksAtMost target) (hflushes : message.Flushes) :
    ∃ wanted ∈ target, wanted.priority = 0 := by
  obtain ⟨all, hall, hzero⟩ := hflushes
  rcases h with hnone | ⟨wanted, hwanted, read, hread, hechoes⟩
  · rw [hnone] at hall
    exact absurd hall (by simp)
  · rw [hread] at hall
    simp only [Except.ok.injEq, Option.some.injEq, Prod.mk.injEq, Object.filter.injEq,
      true_and] at hall
    exact ⟨wanted, hwanted, by rw [← hechoes.priority, hall, hzero]⟩

theorem Object.delTypes_of_changeOf? {type : UInt16} (h : changeOf? type = some .del) :
    delTypes.contains type = true := by
  rw [changeOf?] at h
  split at h
  · exact absurd h (by simp)
  · split at h
    · assumption
    · exact absurd h (by simp)

namespace Peer

/-- The peer without the filters that a request to delete means. -/
def purged (peer : Peer) (wanted : Filter) : Peer :=
  { peer with filters := peer.filters.filter fun f => !isMeantBy f wanted }

/-- A peer that holds what another one does, but perhaps for the filters that a request to delete
one of the given ones means. -/
def Sheds (target : Option Filter) (peer after : Peer) : Prop :=
  after.holdings = peer.holdings ∨
    ∃ wanted ∈ target, after.holdings = (peer.purged wanted).holdings

variable {target : Option Filter} {peer middle after other : Peer}

theorem holdings_purged (h : other.holdings = peer.holdings) (wanted : Filter) :
    (other.purged wanted).holdings = (peer.purged wanted).holdings := by
  rw [eq_of_holdings h]
  rfl

theorem purged_purged (peer : Peer) (wanted : Filter) :
    (peer.purged wanted).purged wanted = peer.purged wanted := by
  rw [purged, purged]
  simp only [List.filter_filter, Bool.and_self]

theorem purged_of_echoes {read wanted : Filter} (h : read.Echoes wanted) (peer : Peer) :
    peer.purged read = peer.purged wanted := by
  simp only [purged, h.isMeantBy]

theorem Upshot.sheds {peer : Peer} {origin : Origin} {flags : UInt16} {wanted : Filter}
    {effect : Effect} (h : Upshot peer origin flags .absent (.filter wanted) effect) :
    effect.peer.holdings = peer.holdings ∨
      effect.peer.holdings = (peer.purged wanted).holdings := by
  cases h with
  | refused herrno => exact Or.inl rfl
  | filtersDeleted => exact Or.inr rfl

namespace Sheds

theorem of_holdings (h : peer.Sheds target middle) (hsame : after.holdings = middle.holdings) :
    peer.Sheds target after :=
  h.imp hsame.trans fun ⟨wanted, hwanted, hpurged⟩ => ⟨wanted, hwanted, hsame.trans hpurged⟩

/-- The filters that a request means go once, however often it is made. -/
theorem purge (h : peer.Sheds target middle) {wanted : Filter} (hwanted : wanted ∈ target)
    (hpurged : after.holdings = (middle.purged wanted).holdings) : peer.Sheds target after := by
  refine Or.inr ⟨wanted, hwanted, hpurged.trans ?_⟩
  rcases h with hsame | ⟨other, hother, hmiddle⟩
  · exact holdings_purged hsame wanted
  · obtain rfl : other = wanted := Option.mem_unique hother hwanted
    rw [holdings_purged hmiddle other, purged_purged]

theorem answerChange (h : peer.Sheds target middle) {message : Message}
    (hasks : message.AsksAtMost target) :
    peer.Sheds target (middle.answerChange message.header
      (Object.decode message.header.kind message.payload)) := by
  have hheld := holdings_answerChange middle message.header
    (Object.decode message.header.kind message.payload)
  rcases hasks with hnone | ⟨wanted, hwanted, read, hread, hechoes⟩
  · rw [hnone] at hheld ⊢
    exact h.of_holdings hheld
  · have hgoal := Object.delTypes_of_changeOf? (Object.decode_eq_ok_some_iff.mp hread).1
    rw [hread, carryOut, hgoal] at hheld
    rw [hread]
    have hupshot := upshot_deleteFilter middle ⟨message.header.seq, message.header.pid, false⟩
      message.header.flags read
    rcases hupshot.sheds with hsame | hpurged
    · exact h.of_holdings (hheld.trans hsame)
    · rw [purged_of_echoes hechoes] at hpurged
      exact h.purge hwanted (hheld.trans hpurged)

/-- Whatever a message does that asks for no more than that, nothing else is gone. -/
theorem answer (h : peer.Sheds target middle) {message : Message}
    (hasks : message.AsksAtMost target) : peer.Sheds target (middle.answer message) := by
  have hnoted : peer.Sheds target (middle.noted message) := h.of_holdings rfl
  rcases middle.answer_cases message with hanswer | hanswer
  · rw [hanswer]
    exact h.of_holdings rfl
  rw [hanswer, respond_eq]
  split
  · exact hnoted.of_holdings (holdings_report _ _ _)
  · split
    · exact hnoted.of_holdings (holdings_answerListing _ message)
    · exact hnoted.answerChange hasks

theorem filters (h : peer.Sheds target after) :
    after.filters = peer.filters ∨
      ∃ wanted ∈ target, after.filters = peer.filters.filter fun f => !isMeantBy f wanted :=
  h.imp filters_of_holdings fun ⟨wanted, hwanted, hpurged⟩ =>
    ⟨wanted, hwanted, filters_of_holdings hpurged⟩

end Sheds

theorem Sound.filters_purged (h : peer.Sound) {f wanted : Filter} (hf : f ∈ peer.filters)
    (hkeyed : f.isKeyed = true) (hsame : filterKey f = filterKey wanted) :
    (peer.purged wanted).filters = peer.filters.erase f := by
  have hdistinct : peer.filters.Nodup := h.filters_distinct.of_map
  simp only [filterKey, Prod.mk.injEq] at hsame
  obtain ⟨hinterface, hparent, hpriority, hhandle⟩ := hsame
  simp only [Filter.isKeyed, Bool.and_eq_true, bne_iff_ne, Bool.not_eq_true', hpriority, hhandle]
    at hkeyed
  rw [hdistinct.erase_eq_filter]
  refine List.filter_congr fun other hother => ?_
  have hiff : isMeantBy other wanted = true ↔ other = f := by
    simp only [isMeantBy, Bool.and_eq_true, Bool.or_eq_true, beq_iff_eq, hkeyed.1, hkeyed.2,
      false_or, Bool.false_eq_true]
    constructor
    · rintro ⟨⟨hsameInterface, hsameParent⟩, hsamePriority, hsameHandle⟩
      refine List.inj_on_of_nodup_map h.filters_distinct hother hf ?_
      rw [filterKey, filterKey, hsameInterface, hsameParent, hsamePriority, hsameHandle,
        hinterface, hparent, hpriority, hhandle]
    · rintro rfl
      exact ⟨⟨hinterface, hparent⟩, hpriority, hhandle⟩
  rw [Bool.eq_iff_iff, Bool.not_eq_true', bne_iff_ne, ← Bool.not_eq_true, hiff]

end Peer

namespace Filter

/-- At most one filter is gone from a list, and that one can be the same as a wanted one. -/
def SparesOthers (wanted : Filter) (before after : List Filter) : Prop :=
  after = before ∨ ∃ f ∈ before, f.sameSlot wanted = true ∧ after = before.erase f

instance (wanted : Filter) (before after : List Filter) :
    Decidable (wanted.SparesOthers before after) :=
  inferInstanceAs (Decidable (after = before ∨ _))

end Filter

/-- The peer tells a filter from others just as it can be told from them: those that can be the same
have a priority and a handle, and those that a request for it would mean have its protocol. -/
structure Peer.Discerns (peer : Peer) (wanted : Filter) : Prop where
  keyed : ∀ f ∈ peer.filters, f.sameSlot wanted = true → f.isKeyed = true
  protocol : wanted.priority ≠ 0 → ∀ f ∈ peer.filters, Peer.isMeantBy f wanted = true →
    f.protocol = wanted.protocol

end NetState
