import NetState.Proofs.Peer.Shed
import NetState.Proofs.Session.Gate

namespace NetState

open Peer

namespace Filter

theorem sameSlot_congr {f g : Filter} (h : (Object.filter f).slot = (Object.filter g).slot)
    (wanted : Filter) : f.sameSlot wanted = g.sameSlot wanted := by
  obtain ⟨hkey, hprotocol⟩ := slot_filter_iff.mp h
  simp only [filterKey, Prod.mk.injEq] at hkey
  obtain ⟨hinterface, hparent, hpriority, hhandle⟩ := hkey
  rw [sameSlot, sameSlot, hinterface, hparent, hprotocol, hpriority, hhandle]

theorem sameSlot_of_slot {f wanted : Filter}
    (h : (Object.filter f).slot = (Object.filter wanted).slot) : f.sameSlot wanted = true := by
  rw [sameSlot_congr h]
  simp [sameSlot]

end Filter

namespace Inventory.Consistent

variable {inventory : Inventory} {wanted : Filter}

theorem exists_of_find?_filter (h : inventory.Consistent) {found : Object}
    (hfound : inventory.find? (.filter wanted) = some found) :
    ∃ f, found = .filter f ∧ f.sameSlot wanted = true ∧
      inventory.lookup (Object.filter f).slot = some (.filter f) := by
  obtain ⟨hlookup, hkind⟩ := h.lookup_of_find? hfound
  have hform := Object.form_of_kind found
  rw [hkind] at hform
  obtain ⟨f, rfl⟩ := hform
  refine ⟨f, rfl, ?_, hlookup⟩
  rw [find?] at hfound
  split at hfound
  · exact Filter.sameSlot_of_slot (h.placed hfound)
  · obtain ⟨known, hknown, hobject⟩ := Option.map_eq_some_iff.mp hfound
    obtain rfl := Object.filter.inj hobject
    rw [findFilter?] at hknown
    rcases Option.or_eq_some_iff.mp hknown with hfirst | ⟨-, hfirst⟩
    · have hsatisfies := List.find?_some (p := fun f : Filter => f.satisfies wanted) hfirst
      simp only [Filter.satisfies, Bool.and_eq_true] at hsatisfies
      exact hsatisfies.1.1
    · split at hfirst
      · exact absurd hfirst (by simp)
      · exact List.find?_some (p := fun f : Filter => f.sameSlot wanted) hfirst

theorem find?_filter_isSome (h : inventory.Consistent) {f : Filter}
    (hlookup : inventory.lookup (Object.filter f).slot = some (.filter f))
    (hinterface : f.interface ≠ 0)
    (hpriority : wanted.priority ≠ 0) (hsame : f.sameSlot wanted = true)
    (hslot : wanted.isKeyed = true → (Object.filter f).slot = (Object.filter wanted).slot) :
    (inventory.find? (.filter wanted)).isSome = true := by
  have hplace : f.interface = wanted.interface := by
    simp only [Filter.sameSlot, Bool.and_eq_true, beq_iff_eq] at hsame
    exact hsame.1.1.1.1
  have hmem : f ∈ inventory.filtersOn wanted.interface :=
    hplace ▸ h.mem_filtersOn hlookup hinterface
  have hany : ((inventory.filtersOn wanted.interface).find? (·.sameSlot wanted)).isSome = true :=
    List.find?_isSome.mpr ⟨f, hmem, hsame⟩
  simp only [find?]
  split
  · rename_i hkeyed
    rw [← hslot hkeyed, hlookup]
    rfl
  · rw [Option.isSome_map, findFilter?, if_neg hpriority, Option.isSome_or, hany, Bool.or_true]

end Inventory.Consistent

/-- The filters that a request may be made for so that a wanted one is gone. -/
def Inventory.Targets (inventory : Inventory) (wanted : Filter) (target : Option Filter) : Prop :=
  ∀ f ∈ target, inventory.find? (.filter wanted) = some (.filter f) ∨
    f = wanted ∧ wanted.priority ≠ 0 ∧ inventory.find? (.filter wanted) = none

theorem Plan.exists_toDelete_filter {inventory : Inventory} (h : inventory.Consistent)
    (wanted : Filter) :
    (∃ outcome, toDelete inventory (.filter wanted) = (.filter wanted, .done outcome)) ∨
      ∃ f, toDelete inventory (.filter wanted) = (.filter f, .steps [⟨.filter f, .delete⟩]) ∧
        inventory.Targets wanted (some f) := by
  rcases toDelete_cases inventory (.filter wanted) with
    hplan | ⟨target, hplan, hfound | ⟨rfl, hfound, habsent⟩⟩
  · exact Or.inl ⟨_, hplan⟩
  · obtain ⟨f, rfl, -, -⟩ := h.exists_of_find?_filter hfound
    refine Or.inr ⟨f, hplan, fun g hg => ?_⟩
    rw [← Option.mem_some.mp hg]
    exact Or.inl hfound
  · have hpriority : wanted.priority ≠ 0 := by
      intro hzero
      rw [isSurelyAbsent, hzero] at habsent
      exact absurd habsent (by simp)
    exact Or.inr ⟨wanted, hplan,
      fun g hg => Or.inr ⟨(Option.mem_some.mp hg).symm, hpriority, hfound⟩⟩

namespace World

/-- A world whose inventory mirrors a reachable peer, with no request left to send. -/
structure Abreast (world : World) : Prop where
  settled : world.session.left = []
  reachable : world.channel.peer.Reachable
  imaged : world.channel.peer.Imaged .filter
  consistent : world.session.inventory.Consistent
  mirrors : world.session.inventory.Mirrors world.channel.peer

theorem Idle.abreast {world : World} (h : world.Idle)
    (himaged : world.channel.peer.Imaged .filter) : world.Abreast where
  settled := by rw [Session.left, h.calm.operations, List.flatMap_nil]
  reachable := h.reachable
  imaged := himaged
  consistent := h.consistent
  mirrors := h.mirrors

/-- A world in which nothing but the filters that certain requests mean has gone since another one,
and nothing but such requests and ones that change nothing has been sent or is left to send. -/
structure Removing (start : World) (target : Option Filter) (world : World) : Prop where
  left : ∀ step ∈ world.session.left, ∃ f ∈ target, step = ⟨.filter f, .delete⟩
  sheds : start.channel.peer.Sheds target world.channel.peer
  sent : ∃ more, world.channel.sent = more ++ start.channel.sent ∧
    ∀ datagram ∈ more, ∀ message ∈ Exchange.messages datagram, message.AsksAtMost target

namespace Removing

variable {start world : World} {target : Option Filter}

theorem relieve (h : start.Removing target world) {after : Session}
    (hafter : world.session.Relieves after) :
    start.Removing target { world with session := after } :=
  ⟨fun step hstep => h.left step (hafter.left hstep), h.sheds, h.sent⟩

theorem transmit (h : start.Removing target world) {draft : Draft} (awaited : Awaited)
    (hmeasured : draft.IsMeasured)
    (hasks :
      (⟨(world.stamped draft).header, (world.stamped draft).body⟩ : Message).AsksAtMost target) :
    start.Removing target (world.transmit draft awaited).1 := by
  have hsession := (sends_transmit (Prod.eta (world.transmit draft awaited)).symm).session
  have hstamped : (world.stamped draft).IsMeasured := hmeasured
  have hleft : ∀ step ∈ (world.transmit draft awaited).1.session.left,
      ∃ f ∈ target, step = ⟨.filter f, .delete⟩ := by
    rw [hsession]
    exact h.left
  rcases world.channel.send_cases (world.stamped draft).toBytes with
    ⟨hpeer, hsent⟩ | ⟨hpeer, hsent⟩
  · refine ⟨hleft, ?_, ?_⟩ <;> rw [channel_transmit]
    · rw [hpeer]
      exact h.sheds
    · rw [hsent]
      exact h.sent
  · refine ⟨hleft, ?_, ?_⟩ <;> rw [channel_transmit]
    · rw [hpeer, Peer.take_toBytes _ hstamped]
      exact h.sheds.answer hasks
    · obtain ⟨more, hmore, hmessages⟩ := h.sent
      refine ⟨(world.stamped draft).toBytes :: more, by rw [hsent, hmore]; rfl, ?_⟩
      refine List.forall_mem_cons.mpr ⟨fun message hmessage => ?_, hmessages⟩
      rw [Exchange.messages_toBytes hstamped, List.mem_singleton] at hmessage
      rw [hmessage]
      exact hasks

theorem transmitStep (h : start.Removing target world) {step : Step}
    (hstep : step ∈ world.session.left) : start.Removing target (world.transmitStep step).1 := by
  obtain ⟨f, hf, rfl⟩ := h.left step hstep
  rcases world.transmitStep_cases ⟨.filter f, .delete⟩ with
    ⟨fault, -, -, hsend⟩ | ⟨draft, -, hof, hsend⟩
  · rw [hsend]
    exact h
  · rw [hsend]
    have hmeasured : (world.stamped _).IsMeasured := isMeasured_requestOf hof
    refine h.transmit .ack hmeasured (Or.inr ⟨f, hf, ?_⟩)
    obtain ⟨fields, hfields, hsize, hdraft⟩ := requestOf_eq_ok hof
    rw [hdraft]
    exact Filter.exists_decode_delete hfields hsize

end Removing

theorem lasting_removing (start : World) (target : Option Filter) :
    Flow.Lasting (Removing start target) where
  socket hreceived h := by
    obtain ⟨hsent, hheld⟩ := Channel.of_receive? hreceived
    exact ⟨h.left, h.sheds.of_holdings hheld, hsent ▸ h.sent⟩
  clock now h := ⟨h.left, h.sheds, h.sent⟩
  ask awaited hdraft h := by
    refine h.transmit awaited hdraft.measured (Or.inl ?_)
    simp only [Object.decode, show Object.changeOf? (World.stamped _ _).header.kind = none from
      hdraft.unchanging]
  relieve hafter h := h.relieve hafter
  transmitStep hstep h := h.transmitStep hstep

namespace Abreast

variable {world after : World} {wanted : Filter}

theorem removing (h : world.Abreast) (target : Option Filter) : world.Removing target world where
  left step hstep := by
    rw [h.settled] at hstep
    exact absurd hstep List.not_mem_nil
  sheds := Or.inl rfl
  sent := ⟨[], rfl, fun _ hdatagram => absurd hdatagram List.not_mem_nil⟩

theorem submit (h : world.Abreast) (wanted : Filter) :
    ∃ target, world.session.inventory.Targets wanted target ∧
      world.Removing target (Flow.result (Flow.submit (.filter wanted) .absent) world).2 := by
  have hnone : world.session.inventory.Targets wanted none := fun f hf => absurd hf (by simp)
  rw [@Flow.result_submit world Support.all (.filter wanted) .absent (Or.inl rfl)]
  cases (Object.filter wanted).validate with
  | error fault => exact ⟨none, hnone, h.removing none⟩
  | ok _ =>
      simp only [Session.plan]
      rcases Plan.exists_toDelete_filter h.consistent wanted with
        ⟨outcome, hplan⟩ | ⟨f, hplan, htarget⟩
      · rw [hplan]
        exact ⟨none, hnone, ((h.removing none).relieve (.of_operations rfl rfl fun _ => id))⟩
      · rw [hplan]
        refine ⟨some f, htarget, (lasting_removing world (some f)).pump ?_⟩
        refine ⟨fun step hstep => ⟨f, rfl, ?_⟩, Or.inl rfl, (h.removing (some f)).sent⟩
        rw [left_started, h.settled] at hstep
        exact List.mem_singleton.mp hstep

theorem lookup_filter (h : world.Abreast) {f : Filter} (hf : f ∈ world.channel.peer.filters) :
    ∃ seen, world.session.inventory.lookup (Object.filter seen).slot = some (.filter seen) ∧
      (Object.filter seen).slot = (Object.filter f).slot := by
  have hhas : world.channel.peer.Has (.filter f) := hf
  obtain ⟨image, himage⟩ := h.imaged hhas rfl
  have hresembles := Object.resembles_of_image? himage
  have hform := Object.form_of_kind image
  rw [hresembles.kind] at hform
  obtain ⟨seen, rfl⟩ := hform
  refine ⟨seen, ?_, hresembles.slot⟩
  exact ((Inventory.mirrors_iff_shows h.reachable.sound).mp h.mirrors _ _).mpr
    ⟨_, hhas, hresembles.slot.symm, himage⟩

theorem exists_of_lookup (h : world.Abreast) {seen : Filter}
    (hlookup : world.session.inventory.lookup (Object.filter seen).slot = some (.filter seen)) :
    ∃ f ∈ world.channel.peer.filters, (Object.filter f).slot = (Object.filter seen).slot := by
  obtain ⟨object, hhas, hslot, -⟩ :=
    ((Inventory.mirrors_iff_shows h.reachable.sound).mp h.mirrors _ _).mp hlookup
  have hform := Object.form_of_kind object
  rw [show object.kind = .filter from congrArg Slot.kind hslot] at hform
  obtain ⟨f, rfl⟩ := hform
  exact ⟨f, hhas, hslot⟩

/-- A filter that a request means, and that is of the same protocol, has been found. -/
theorem find?_isSome_of_isMeantBy (h : world.Abreast) {f : Filter}
    (hf : f ∈ world.channel.peer.filters) (hpriority : wanted.priority ≠ 0)
    (hmeant : isMeantBy f wanted = true) (hprotocol : f.protocol = wanted.protocol) :
    (world.session.inventory.find? (.filter wanted)).isSome = true := by
  obtain ⟨seen, hlookup, hslot⟩ := h.lookup_filter hf
  obtain ⟨l, hl⟩ := h.reachable.sound.filters_based f hf
  have hinterface : seen.interface ≠ 0 := by
    obtain ⟨hkey, -⟩ := slot_filter_iff.mp hslot
    rw [show seen.interface = f.interface from congrArg Prod.fst hkey]
    exact (h.reachable.sound.numbered hl).1
  simp only [isMeantBy, Bool.and_eq_true, Bool.or_eq_true, beq_iff_eq, hpriority, false_or]
    at hmeant
  obtain ⟨⟨hplace, hparent⟩, hsame, hhandle⟩ := hmeant
  refine h.consistent.find?_filter_isSome hlookup hinterface hpriority ?_ fun hkeyed => ?_
  · rw [Filter.sameSlot_congr hslot]
    simp only [Filter.sameSlot, hplace, hparent, hprotocol, hsame, beq_self_eq_true, Bool.and_true,
      Bool.true_and, Bool.or_true, Bool.or_eq_true, beq_iff_eq]
    exact hhandle.elim (fun hfree => Or.inl (Or.inr hfree)) Or.inr
  · simp only [Filter.isKeyed, Bool.and_eq_true, Bool.not_eq_true'] at hkeyed
    have hhandles : f.handle = wanted.handle := by
      rcases hhandle with hfree | hhandle
      · exact absurd (hfree.symm.trans hkeyed.2) (by simp)
      · exact hhandle
    rw [hslot, slot_filter_iff, filterKey, filterKey, hplace, hparent, hsame, hhandles]
    exact ⟨rfl, hprotocol⟩

section

variable {target : Option Filter} (h : world.Abreast)
  (htarget : world.session.inventory.Targets wanted target)
  (hdiscerns : world.channel.peer.Discerns wanted)

include h htarget hdiscerns

/-- What a request is made for is a filter of the peer's with a number of its own, or the peer has
none that it means. -/
theorem target_cases {f : Filter} (hf : f ∈ target) :
    (∃ own ∈ world.channel.peer.filters, own.sameSlot wanted = true ∧ own.isKeyed = true ∧
        filterKey own = filterKey f) ∨
      f.priority ≠ 0 ∧ ∀ other ∈ world.channel.peer.filters, isMeantBy other f = false := by
  rcases htarget f hf with hfound | ⟨rfl, hpriority, hnone⟩
  · obtain ⟨_, hobject, hsame, hlookup⟩ := h.consistent.exists_of_find?_filter hfound
    obtain rfl := Object.filter.inj hobject
    obtain ⟨own, hown, hslot⟩ := h.exists_of_lookup hlookup
    rw [← Filter.sameSlot_congr hslot] at hsame
    exact Or.inl ⟨own, hown, hsame, hdiscerns.keyed own hown hsame, (slot_filter_iff.mp hslot).1⟩
  · refine Or.inr ⟨hpriority, fun other hother => Bool.eq_false_iff.mpr fun hmeant => ?_⟩
    have hsome := h.find?_isSome_of_isMeantBy hother hpriority hmeant
      (hdiscerns.protocol hpriority other hother hmeant)
    rw [hnone] at hsome
    exact absurd hsome (by simp)

theorem sparesOthers {after : Peer} (hsheds : world.channel.peer.Sheds target after) :
    wanted.SparesOthers world.channel.peer.filters after.filters := by
  rcases hsheds.filters with hsame | ⟨f, hf, hpurged⟩
  · exact Or.inl hsame
  · rcases h.target_cases htarget hdiscerns hf with ⟨own, hown, hsame, hkeyed, hkey⟩ | ⟨-, hnone⟩
    · exact Or.inr ⟨own, hown, hsame,
        hpurged.trans (h.reachable.sound.filters_purged hown hkeyed hkey)⟩
    · refine Or.inl (hpurged.trans (List.filter_eq_self.mpr fun other hother => ?_))
      rw [hnone other hother]
      rfl

theorem not_flushes {message : Message} (hasks : message.AsksAtMost target) :
    ¬ message.Flushes := by
  intro hflushes
  obtain ⟨f, hf, hzero⟩ := hasks.exists_of_flushes hflushes
  rcases h.target_cases htarget hdiscerns hf with ⟨own, -, -, hkeyed, hkey⟩ | ⟨hpriority, -⟩
  · simp only [filterKey, Prod.mk.injEq] at hkey
    simp [Filter.isKeyed, hkey.2.2.1, hzero] at hkeyed
  · exact hpriority hzero

end

/-- However a call to delete a filter ends: there is at most one filter that requests have been made
for, the snapshot of one that can be the same as the wanted one or that one itself, and nothing is
gone but what these requests mean. If the peer tells filters apart as they can be told, at most one
is gone, one that can be the same as the wanted one, and no request was sent that means all at its
place. -/
theorem delete_filter (h : world.Abreast) {ended : Except Halt Outcome}
    (hresult : Flow.result (Flow.apply (.filter wanted) .absent) world = (ended, after)) :
    ∃ target more, world.session.inventory.Targets wanted target ∧
      world.channel.peer.Sheds target after.channel.peer ∧
      after.channel.sent = more ++ world.channel.sent ∧
      (∀ datagram ∈ more, ∀ message ∈ Exchange.messages datagram, message.AsksAtMost target) ∧
      (world.channel.peer.Discerns wanted →
        wanted.SparesOthers world.channel.peer.filters after.channel.peer.filters ∧
        ∀ datagram ∈ more, ∀ message ∈ Exchange.messages datagram, ¬ message.Flushes) := by
  obtain ⟨target, htarget, hsubmit⟩ := h.submit wanted
  have hremoving : world.Removing target after := by
    rw [Flow.apply, Flow.result_bind] at hresult
    rcases hsubmitted : Flow.result (Flow.submit (.filter wanted) .absent) world with
      ⟨halt | number, middle⟩ <;> rw [hsubmitted] at hresult hsubmit
    · cases hresult
      exact hsubmit
    · have hwait := (lasting_removing world target).waitWithin number Flow.turnLimit middle hsubmit
      simp only [Flow.wait] at hresult
      rw [hresult] at hwait
      exact hwait
  obtain ⟨more, hsent, hasks⟩ := hremoving.sent
  refine ⟨target, more, htarget, hremoving.sheds, hsent, hasks, fun hdiscerns => ?_⟩
  exact ⟨h.sparesOthers htarget hdiscerns hremoving.sheds,
    fun datagram hdatagram message hmessage =>
    h.not_flushes htarget hdiscerns (hasks datagram hdatagram message hmessage)⟩

end Abreast

end World

def Filter.screen (priority : UInt16) (verdict : Int32) : Filter where
  interface := 1
  kind := matchAllKind
  handle := Handle.unspecified
  parent := Handle.ingressDiscipline
  priority := priority
  protocol := anyProtocol
  action := some (.gact verdict)

def Peer.screened (other : Filter) : Peer :=
  initial
    |>.intervene (.discipline (.ingress 1)) .present true |>.1
    |>.intervene (.filter (Filter.screen 1 Action.passVerdict)) .present true |>.1
    |>.intervene (.filter other) .present true |>.1

theorem World.idle_screened {priority : UInt16} (hpriority : priority = 0 ∨ priority = 2) :
    (World.resting (Peer.screened (Filter.screen priority Action.dropVerdict))).Idle := by
  have hreachable : (Peer.screened (Filter.screen priority Action.dropVerdict)).Reachable := by
    rw [Peer.screened]
    refine Reachable.intervene (Reachable.intervene (Reachable.intervene Reachable.initial
      _ _ _ ?_) _ _ _ ?_) _ _ _ ?_
    all_goals rcases hpriority with rfl | rfl <;> decide +kernel
  refine World.idle_resting hreachable ?_ ?_ ?_
  all_goals rcases hpriority with rfl | rfl <;> decide +kernel

theorem World.Abreast.delete_filter_screened :
    ∃ world wanted ended after, world.Abreast ∧ world.channel.peer.Discerns wanted ∧
      Flow.result (Flow.apply (.filter wanted) .absent) world = (ended, after) ∧
      wanted.SparesOthers world.channel.peer.filters after.channel.peer.filters ∧
      after.channel.peer.filters ≠ world.channel.peer.filters := by
  let wanted := Filter.screen 2 Action.dropVerdict
  let peer := Peer.screened wanted
  have himages : ∀ object ∈ peer.all, object.image?.isSome = true := by decide +kernel
  have hidle : (World.resting peer).Idle := World.idle_screened (Or.inr rfl)
  have habreast : (World.resting peer).Abreast := hidle.abreast fun hhas _ =>
    Option.isSome_iff_exists.mp (himages _ ((mem_all_iff hidle.reachable.sound).mpr hhas))
  have hdiscerns : peer.Discerns wanted := ⟨by decide +kernel, by decide +kernel⟩
  have hgone : (Flow.result (Flow.apply (.filter wanted) .absent)
      (World.resting peer)).2.channel.peer.filters ≠ peer.filters := by
    decide +kernel
  rcases hresult : Flow.result (Flow.apply (.filter wanted) .absent) (World.resting peer) with
    ⟨ended, after⟩
  rw [hresult] at hgone
  obtain ⟨target, more, -, -, -, -, hprecise⟩ := habreast.delete_filter hresult
  exact ⟨_, wanted, ended, after, habreast, hdiscerns, hresult, (hprecise hdiscerns).1, hgone⟩

/-- Deleting a valid filter takes more than that away where the kernel has given it the priority
zero, by a request that means all at its place; and takes another one away that is for packets of
another protocol, where there is none of that priority for its own. -/
theorem World.Abreast.exists_delete_unlike :
    (∃ world wanted, world.Idle ∧ (Object.filter wanted).validate = .ok () ∧
      let after := (Call.apply (.filter wanted) .absent).after world
      after.channel.peer.filters = [] ∧ 1 < world.channel.peer.filters.length ∧
        ∃ datagram ∈ after.channel.sent, ∃ message ∈ Exchange.messages datagram, message.Flushes) ∧
    ∃ world wanted, world.Idle ∧ (Object.filter wanted).validate = .ok () ∧
      let after := (Call.apply (.filter wanted) .absent).after world
      wanted.priority ≠ 0 ∧
        ¬ wanted.SparesOthers world.channel.peer.filters after.channel.peer.filters := by
  let sibling := Filter.screen 2 Action.dropVerdict
  let foreign := { Filter.screen 1 Action.passVerdict with protocol := 0x800 }
  refine ⟨⟨_, Filter.screen 0 Action.dropVerdict, World.idle_screened (Or.inl rfl), ?_⟩,
    World.resting (Peer.screened sibling), foreign, World.idle_screened (Or.inr rfl), ?_⟩
  · decide +kernel
  · decide +kernel

end NetState
