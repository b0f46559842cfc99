import NetState.Proofs.Depict
import NetState.Proofs.Session.Listing
import NetState.Proofs.Session.Reach

namespace NetState

open Peer

namespace World

variable {peer : Peer} {world : World} {kind : Kind}

theorem Heard.reconcile (h : world.Heard peer (peer.ShownBelow kind.rank)) (hsound : peer.Sound)
    {found : List Object} (hdepicts : peer.Depicts kind found) :
    ({ world with session := (world.session.reconcile kind found).2 } : World).Heard peer
      (peer.ShownBelow (kind.rank + 1)) := by
  have hfollows := world.session.follows_reconcile kind found
  have hinventory : (world.session.reconcile kind found).2.inventory =
      (world.session.inventory.reconcile kind found).2.inventory := hfollows.inventory
  have hconsistent := h.dependable.consistent
  refine ⟨⟨h.dependable.injected, h.dependable.sendFaults, h.dependable.failures,
    h.dependable.overruns, h.dependable.ipv6, h.dependable.holdings, ?_⟩, h.quiet, ?_⟩
  · show (world.session.reconcile kind found).2.inventory.Consistent
    rw [hinventory]
    exact hconsistent.perform (.reconcile kind found)
  · show peer.ShownBelow _ (world.session.reconcile kind found).2.inventory
    rw [hinventory]
    exact h.known.reconcile hsound hconsistent hdepicts

/-- Nothing needs to be known of the inventory before any kind is brought up to date. -/
theorem Ready.of_fresh (hdependable : world.Dependable peer) (hfresh : world.Fresh) :
    world.Ready peer (peer.ShownBelow 0) where
  dependable := hdependable
  fresh := hfresh
  known := shownBelow_zero peer _
  carefree := Or.inr (shownBelow_zero peer)

section

variable (hsound : peer.Sound) (himaged : peer.Imaged .discipline) (horderly : peer.Orderly)

include hsound himaged horderly

theorem ensures_listKind (h : world.Ready peer (peer.ShownBelow kind.rank))
    (hquiet : kind = .filter → world.channel.peer.outbox = []) :
    Flow.Ensures (Flow.listKind kind) world fun found after =>
      peer.Depicts kind found ∧ after.Heard peer (peer.ShownBelow kind.rank) := by
  rw [Flow.listKind]
  split
  · rename_i hkind
    subst hkind
    have hpoints : Flow.Ensures ((Flow.filterPoints world.session.inventory).mapM
        fun point =>
          Flow.listedUnless Flow.isPointGone .filter (Kind.filterListing point.1 point.2))
        world fun values after =>
          values = (Flow.filterPoints world.session.inventory).map peer.filterImagesAt ∧
            after.Heard peer (peer.ShownBelow Kind.filter.rank) := by
      refine Flow.Ensures.mapM ?_ ⟨h.dependable, hquiet rfl, h.known⟩
      rintro ⟨interface, parent⟩ hpoint middle hmiddle
      exact hmiddle.ready.listedUnless
        (offers_filterListing (hasFilterParent_of_mem_filterPoints hsound h.known hpoint))
        fun _ _ => rfl
    refine Flow.Ensures.bind (Flow.Ensures.get (Flow.Ensures.bind (hpoints.mono ?_)))
    rintro values after ⟨rfl, hafter⟩
    exact ⟨depicts_filters hsound himaged horderly h.known, hafter⟩
  · rename_i hkind
    refine (h.listedUnless (offers_listing hsound hkind) fun _ _ => rfl).mono ?_
    rintro found after ⟨rfl, hafter⟩
    exact ⟨depicts_objects hsound kind, hafter⟩

theorem ensures_syncKind (h : world.Ready peer (peer.ShownBelow kind.rank))
    (hquiet : kind = .filter → world.channel.peer.outbox = []) :
    Flow.Ensures (Flow.syncKind kind) world fun _ after =>
      after.Heard peer (peer.ShownBelow (kind.rank + 1)) := by
  rw [Flow.syncKind]
  refine Flow.Ensures.bind ((ensures_listKind hsound himaged horderly h hquiet).mono ?_)
  rintro found middle ⟨hdepicts, hmiddle⟩
  have hafter := hmiddle.reconcile hsound hdepicts
  refine Flow.Ensures.bind (Flow.Ensures.get ?_)
  rcases hreconcile : middle.session.reconcile kind found with ⟨tally, session⟩
  rw [hreconcile] at hafter
  exact Flow.Ensures.bind (Flow.Ensures.session (Flow.Ensures.pure hafter))

theorem ensures_forM_syncKind {kinds : List Kind} {count : Nat}
    (hkinds : kinds.map Kind.rank = List.range' count kinds.length)
    (h : world.Ready peer (peer.ShownBelow count))
    (hquiet : count ≠ 0 → world.channel.peer.outbox = []) :
    Flow.Ensures (kinds.forM fun kind => discard (Flow.syncKind kind)) world fun _ after =>
      after.Ready peer (peer.ShownBelow (count + kinds.length)) ∧
        (count + kinds.length ≠ 0 → after.channel.peer.outbox = []) := by
  -- On the kinds still to come: all before them are shown when the next one is brought up to date.
  induction kinds generalizing world count with
  | nil => exact Flow.Ensures.pure ⟨h, hquiet⟩
  | cons first rest ih =>
      rw [List.map_cons, List.length_cons, List.range'_succ] at hkinds
      obtain ⟨hfirst, hrest⟩ := List.cons.inj hkinds
      rw [List.forM, List.length_cons, Nat.add_comm rest.length, ← Nat.add_assoc]
      refine Flow.Ensures.bind ?_
      have hsync := ensures_syncKind hsound himaged horderly (hfirst ▸ h) fun hfilter =>
        hquiet (by rw [← hfirst, hfilter]; decide)
      refine Flow.Ensures.discard (hsync.mono ?_)
      intro tally middle hmiddle
      rw [hfirst] at hmiddle
      exact ih hrest hmiddle.ready fun _ => hmiddle.quiet

/-- A round brings every kind up to date, whatever the inventory showed before. -/
theorem ensures_syncRound (hdependable : world.Dependable peer) (hfresh : world.Fresh) :
    Flow.Ensures Flow.syncRound world fun _ after =>
      after.Heard peer (peer.ShownBelow Kind.all.length) := by
  rw [Flow.syncRound]
  refine Flow.Ensures.bind (Flow.Ensures.session ?_)
  have hready : (world.mapSession ({ · with stale := false })).Ready peer (peer.ShownBelow 0) :=
    Ready.of_fresh ⟨hdependable.injected, hdependable.sendFaults, hdependable.failures,
      hdependable.overruns, hdependable.ipv6, hdependable.holdings, hdependable.consistent⟩ hfresh
  have hround := @ensures_forM_syncKind peer _ hsound himaged horderly Kind.all 0 rfl hready
    fun hne => absurd rfl hne
  refine hround.mono ?_
  rintro _ after ⟨hafter, hquiet⟩
  rw [Nat.zero_add] at hafter
  exact ⟨hafter.dependable, hquiet (by decide), hafter.known⟩

theorem ensures_syncRounds (rounds : Nat) (hdependable : world.Dependable peer)
    (hfresh : world.Fresh) :
    Flow.Ensures (Flow.syncRounds rounds) world fun _ after =>
      after.Heard peer (peer.ShownBelow Kind.all.length) := by
  induction rounds generalizing world with
  | zero => exact ensures_syncRound hsound himaged horderly hdependable hfresh
  | succ left ih =>
      rw [Flow.syncRounds]
      have hround := ensures_syncRound hsound himaged horderly hdependable hfresh
      refine Flow.Ensures.bind (hround.mono ?_)
      intro _ middle hmiddle
      refine Flow.Ensures.bind (Flow.Ensures.get ?_)
      split
      · exact ih hmiddle.dependable hmiddle.ready.fresh
      · exact Flow.Ensures.pure hmiddle

theorem ensures_syncAll (hdependable : world.Dependable peer) (hfresh : world.Fresh) :
    Flow.Ensures Flow.syncAll world fun _ after =>
      after.Heard peer (peer.ShownBelow Kind.all.length) := by
  rw [Flow.syncAll]
  refine Flow.Ensures.bind (Flow.Ensures.get ?_)
  exact ensures_syncRounds hsound himaged horderly _ hdependable hfresh

end

variable {after : World}

theorem Reachable.fresh (h : world.Reachable) : world.Fresh := by
  intro datagram hdatagram message hmessage hown hseq
  have hnumbered := h.numbered
  have hwithin := hnumbered.waits datagram hdatagram message hmessage hown
  rw [hseq] at hwithin
  exact UInt32.lt_irrefl _ (UInt32.lt_of_lt_of_le hnumbered.room hwithin)

/-- A new world in which listings are cut small and disturbed once, and a link is known that there
never was. -/
def misinformed : World :=
  (World.new .standard .nothing (.new { initial with interruptions := 1, chunk := 1 } true true)
    ).mapSession fun session =>
      { session with
        watched :=
          ⟨Inventory.empty.run [.upsert (.link { Link.new "c" .dummy with index := 9 })], []⟩ }

theorem reachable_misinformed : misinformed.Reachable :=
  @Reachable.arranged _ ((Reachable.opened .standard .nothing true true).prepared [] [] 0 1 1 false
    false true [] [] [] true true) misinformed.session rfl rfl 0 0

/-- The world after a filter was put on a new link, and another link went away without a word after
it was told of. -/
def neglected : World :=
  misinformed
    |>.changed (.link (.new "a" .dummy)) .present false
    |>.changed (.discipline (.new 2 "clsact" Handle.ingressDiscipline Handle.ingress)) .present true
    |>.changed (.filter ⟨2, "matchall", ⟨1⟩, Handle.ingressHook, 1, Filter.anyProtocol, none⟩)
      .present true
    |>.changed (.link (.new "b" .dummy)) .present false
    |>.changed (.link (.new "b" .dummy)) .absent true

theorem reachable_neglected : neglected.Reachable := by
  rw [neglected]
  refine Reachable.outside (Reachable.outside (Reachable.outside (Reachable.outside
    (Reachable.outside reachable_misinformed _ _ _ ?_) _ _ _ ?_) _ _ _ ?_) _ _ _ ?_) _ _ _ ?_
  all_goals decide +kernel

end World

end NetState
