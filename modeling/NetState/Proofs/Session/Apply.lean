import NetState.Proofs.Depict
import NetState.Proofs.Session.Pursuit
import NetState.Proofs.Session.Trial

namespace NetState

open Peer

theorem Inventory.Mirrors.image?_of_lookup {inventory : Inventory} {peer : Peer}
    (h : inventory.Mirrors peer) (hsound : peer.Sound) {known : Link}
    (hlookup : inventory.lookup (Object.link known).slot = some (.link known)) :
    known.index ≠ 0 ∧ ∀ link, peer.links.get? known.index = some link →
      (Object.link link).image? = some (.link known) := by
  have hget : peer.images.get? (Object.link known).slot = some (.link known) := by
    rw [← show inventory.entries = peer.images from h]
    exact hlookup
  obtain ⟨object, hhas, hslot, himage⟩ := (get?_images hsound).mp hget
  obtain ⟨l, rfl⟩ := Object.exists_link_of_kind (congrArg Slot.kind hslot)
  have hindex := slot_link_iff.mp hslot
  have hlink : peer.links.get? known.index = some l := hindex ▸ hhas
  refine ⟨(hsound.numbered hlink).1, fun link hsame => ?_⟩
  rw [Option.some.inj (hsame.symm.trans hlink)]
  exact himage

theorem Peer.Imaged.hasReadableName {peer : Peer} (h : peer.Imaged .link) (hsound : peer.Sound)
    {index : UInt32} {link : Link} (hlink : peer.links.get? index = some link) :
    link.HasReadableName := by
  have hhas : peer.Has (.link link) := by
    rw [Has, hsound.placed hlink]
    exact hlink
  obtain ⟨image, himage⟩ := h hhas rfl
  exact Link.hasReadableName_of_image? himage

namespace Plan

variable {inventory : Inventory} {peer : Peer} {support : Support} {wanted : Object}

theorem leadsTo_of_ne_link (hsound : peer.Sound) (himaged : peer.Imaged .link)
    (hkind : wanted.kind ≠ .link) {verb : Verb} (hverb : verb = .create ∨ verb = .replace) :
    wanted.LeadsTo inventory peer ⟨wanted, verb⟩ := by
  cases wanted with
  | link l => exact absurd rfl hkind
  | _ => exact ⟨rfl, hverb, fun _ _ => himaged.hasReadableName hsound⟩

theorem soughtBy_substitute (hsound : peer.Sound) (himaged : peer.Imaged .link) {existing : Object}
    (hkind : wanted.kind ≠ .link) (hsame : existing.kind = wanted.kind) :
    wanted.SoughtBy inventory peer (substitute existing wanted) :=
  .afresh hkind rfl (hsame ▸ hkind) (leadsTo_of_ne_link hsound himaged hkind (Or.inl rfl))

theorem soughtBy_adapt (hsound : peer.Sound) (himaged : peer.Imaged .link)
    (hconsistent : inventory.Consistent) (hmirrors : inventory.Mirrors peer) {existing : Object}
    (hfound : inventory.find? wanted = some existing) {steps : List Step}
    (h : adapt support existing wanted = .ok steps) : wanted.SoughtBy inventory peer steps := by
  obtain ⟨hlookup, hsame⟩ := hconsistent.lookup_of_find? hfound
  rcases adapt_cases h with ⟨known, l, rfl, rfl, hchangeable, rfl⟩ | ⟨hkinds, hsteps⟩
  · obtain ⟨hindex, himage⟩ := hmirrors.image?_of_lookup hsound hlookup
    exact .once (Or.inr ⟨known, rfl, hfound, hchangeable, hindex, himage⟩)
  · have hkind : wanted.kind ≠ .link := by
      rw [hsame, or_self] at hkinds
      exact hkinds
    rcases hsteps with rfl | rfl | rfl
    · exact .once (leadsTo_of_ne_link hsound himaged hkind (Or.inl rfl))
    · exact .once (leadsTo_of_ne_link hsound himaged hkind (Or.inr rfl))
    · exact soughtBy_substitute hsound himaged hkind hsame

/-- The requests that are planned for what is wanted lead to it. -/
theorem soughtBy_of_toAdd (hsound : peer.Sound) (himaged : peer.Imaged .link)
    (hconsistent : inventory.Consistent) (hmirrors : inventory.Mirrors peer) {steps : List Step}
    (h : toAdd inventory support wanted = .ok (.steps steps)) :
    wanted.SoughtBy inventory peer steps := by
  rcases toAdd_cases h with
    ⟨hfound, hplan⟩ | ⟨existing, hfound, ⟨-, hplan⟩ | ⟨found, hadapt, hplan⟩⟩
  · cases hplan
    by_cases hkind : wanted.kind = .link
    · obtain ⟨l, rfl⟩ := Object.exists_link_of_kind hkind
      exact .once (Or.inl ⟨rfl, hfound⟩)
    · exact .once (leadsTo_of_ne_link hsound himaged hkind (Or.inl rfl))
  · cases hplan
  · cases hplan
    exact soughtBy_adapt hsound himaged hconsistent hmirrors hfound hadapt

end Plan

/-- A world in which nothing is under way and whose inventory mirrors a reachable peer. -/
structure World.Idle (world : World) : Prop where
  calm : world.Calm
  trusted : world.session.stale = false
  /-- The number of the next operation is none that a result is kept for. -/
  numbered : ∀ entry ∈ world.session.results, entry.1 < world.session.nextId
  reachable : world.channel.peer.Reachable
  imaged : world.channel.peer.Imaged .link
  consistent : world.session.inventory.Consistent
  mirrors : world.session.inventory.Mirrors world.channel.peer

/-- A session in which a wish is admitted, and the next number given out to it. -/
structure Session.Admits (session start : Session) (wanted : Object) : Prop where
  results : start.results = session.results
  number : start.nextId = session.nextId + 1
  trusted : start.stale = session.stale
  permitted : ∃ support, start.probe.answer = some support ∧ support.permit wanted = .ok ()

namespace World

variable {world after : World} {wanted : Object}

theorem Idle.ends_plan (h : world.Idle) :
    Flow.Ends (Flow.plan wanted .present)
      (world.mapSession fun s => { s with nextId := s.nextId + 1 })
      (fun planned middle => planned.1 = wanted ∧ middle.Calm ∧
        world.session.Admits middle.session wanted ∧ middle.session.inventory.Consistent ∧
        match planned.2 with
        | .done outcome => ∃ found, outcome = .unchanged found ∧
            middle.session.inventory.find? wanted = some found ∧ found.satisfies wanted = true
        | .steps steps => wanted.SoughtBy middle.session.inventory middle.channel.peer steps)
      (fun _ _ => True) := by
  -- The trial for the features may send requests, but the peer keeps what it holds, so the
  -- inventory is a mirror still when the plan is made.
  have hcalm : (world.mapSession fun s => { s with nextId := s.nextId + 1 }).Calm :=
    ⟨h.calm.clear, h.calm.quiet, h.calm.operations⟩
  rw [Flow.plan]
  refine Flow.Ends.bind
    ((hcalm.ends_support h.reachable.sound).mono ?_ fun _ _ _ => trivial)
  rintro support middle ⟨hmiddle, hsame, hanswer, exchange, probe, hsession⟩
  have hsound : middle.channel.peer.Sound := h.reachable.sound.of_holdings hsame
  have himaged : middle.channel.peer.Imaged .link := fun hhas =>
    h.imaged (has_of_holdings hsame ▸ hhas)
  have hinventory : middle.session.inventory = world.session.inventory := by
    rw [hsession]
    rfl
  have hmirrors : middle.session.inventory.Mirrors middle.channel.peer := by
    rw [hinventory, Inventory.Mirrors, images_of_holdings hsame]
    exact h.mirrors
  refine Flow.Ends.bind (Flow.Ends.ofExcept (fun _ hpermit => ?_) fun _ _ => trivial)
  refine Flow.Ends.bind (Flow.Ends.get (Flow.Ends.bind
    (Flow.Ends.ofExcept (fun planned hplan => ?_) fun _ _ => trivial)))
  have hadmits : world.session.Admits middle.session wanted := by
    refine ⟨?_, ?_, ?_, support, hanswer, hpermit⟩ <;> rw [hsession] <;> rfl
  refine Flow.Ends.pure ⟨rfl, hmiddle, hadmits, hinventory ▸ h.consistent, ?_⟩
  cases planned with
  | done outcome => exact Plan.shown_of_toAdd hplan
  | steps steps =>
      exact Plan.soughtBy_of_toAdd hsound himaged (hinventory ▸ h.consistent) hmirrors hplan

theorem Idle.ends_submit (h : world.Idle) (hwanted : wanted.Understood) :
    Flow.Ends (Flow.submit wanted .present) world
      (fun id after => id = world.session.nextId ∧
        ∃ start, world.session.Admits start wanted ∧ after.Carries start id wanted)
      (fun _ _ => True) := by
  rw [Flow.submit]
  refine Flow.Ends.bind (Flow.Ends.ofExcept (fun _ _ => ?_) fun _ _ => trivial)
  refine Flow.Ends.bind (Flow.Ends.get (Flow.Ends.bind (Flow.Ends.session ?_)))
  refine Flow.Ends.bind (h.ends_plan.mono ?_ fun _ _ => id)
  rintro ⟨target, planned⟩ middle ⟨rfl, hmiddle, hadmits, hconsistent, hplanned⟩
  cases planned with
  | done outcome =>
      obtain ⟨found, rfl, hfound, hsatisfies⟩ := hplanned
      refine Flow.Ends.bind (Flow.Ends.session (Flow.Ends.pure ⟨rfl, middle.session, hadmits,
        Or.inr ⟨rfl, hmiddle.operations, _, rfl, fun outcome houtcome => ?_⟩⟩))
      exact ⟨found, Or.inr (Except.ok.inj houtcome).symm, hfound, hsatisfies⟩
  | steps steps =>
      refine Flow.Ends.bind (Flow.Ends.session (Flow.Ends.bind (Flow.Ends.pump fun hrunning =>
        Flow.Ends.pure ⟨rfl, middle.session, hadmits, ?_⟩)))
      let op : Operation := ⟨world.session.nextId, target, .present, steps, .queued, 0⟩
      have hdue : (middle.mapSession fun s => { s with operations := s.operations ++ [op] }).Due
          middle.session op :=
        ⟨hmiddle.clear, hmiddle.quiet, ⟨rfl, rfl, by
          rw [mapSession, hmiddle.operations]
          rfl, rfl, hconsistent⟩, rfl, hplanned⟩
      exact hdue.pump hwanted hrunning

theorem Idle.served (h : world.Idle) (hwanted : wanted.Understood) {outcome : Outcome}
    (hresult : Flow.result (Flow.apply wanted .present) world = (.ok outcome, after)) :
    ∃ start, world.session.Admits start wanted ∧ after.Served start wanted outcome := by
  rw [Flow.apply] at hresult
  obtain ⟨id, middle, hsubmit, hwait⟩ := Flow.result_bind_ok_iff.mp hresult
  obtain ⟨rfl, start, hadmits, hcarries⟩ := (h.ends_submit hwanted).of_ok hsubmit
  refine ⟨start, hadmits, hcarries.served hwanted (hadmits.trusted.trans h.trusted) ?_ _ hwait⟩
  intro entry hentry
  rw [hadmits.results] at hentry
  exact Nat.ne_of_lt (h.numbered entry hentry)

end World

namespace Flow

variable {world : World} {wanted found : Object} {support : Support}

theorem result_support (hanswer : world.session.probe.answer = some support) :
    result Flow.support world = (.ok support, world) := by
  rw [Flow.support, result_bind, result_get]
  simp only [hanswer]
  rfl

theorem result_plan_of_shown (hanswer : world.session.probe.answer = some support)
    (hpermit : support.permit wanted = .ok ())
    (hfound : world.session.inventory.find? wanted = some found)
    (hsatisfies : found.satisfies wanted = true) :
    result (plan wanted .present) world = (.ok (wanted, .done (.unchanged found)), world) := by
  rw [plan]
  simp only [result_bind, result_support hanswer, result_ofExcept, hpermit, result_get,
    Plan.toAdd_of_shown hfound hsatisfies, Except.mapError]
  rfl

/-- A wish that is shown and admitted comes to the snapshot at once, and takes a number and nothing
else. -/
theorem result_apply_of_shown (hvalid : wanted.validate = .ok ())
    (hanswer : world.session.probe.answer = some support) (hpermit : support.permit wanted = .ok ())
    (hfound : world.session.inventory.find? wanted = some found)
    (hsatisfies : found.satisfies wanted = true)
    (hfresh : ∀ entry ∈ world.session.results, entry.1 ≠ world.session.nextId) :
    result (apply wanted .present) world = (.ok (.unchanged found),
      world.mapSession fun s => { s with nextId := s.nextId + 1 }) := by
  let numbered := world.mapSession fun s => { s with nextId := s.nextId + 1 }
  let ended := numbered.mapSession fun s =>
    { s with results := s.results ++ [(world.session.nextId, .ok (.unchanged found))] }
  have hsubmit : result (submit wanted .present) world = (.ok world.session.nextId, ended) := by
    have hplan :=
      @result_plan_of_shown numbered wanted found support hanswer hpermit hfound hsatisfies
    rw [submit]
    simp only [result_bind, result_ofExcept, hvalid, Except.mapError, result_get, result_session,
      show world.mapSession (fun s => { s with nextId := world.session.nextId + 1 }) = numbered
        from rfl,
      hplan]
    rfl
  have hcollect : ended.session.collect world.session.nextId =
      (some (.ok (.unchanged found)), numbered.session) := Session.collect_last rfl hfresh
  rw [apply, result_bind, hsubmit]
  simp only [wait, result_waitWithin_of_some hcollect]
  rw [World.mapSession, hcollect]
  rfl

end Flow

namespace World

variable {world after : World} {wanted : Object}

/-- When adding an object ends well, what is wanted is shown; adding it again right away comes to
the snapshot at once, and sends nothing: only a number is used up. This is so for every object whose
own request is read as what satisfies it, but for two forms that the kernel cannot show as they are
wanted: a link without a name, and a discipline for incoming packets with a handle of its own. -/
theorem Idle.apply_present_again (h : world.Idle) (hvalid : wanted.validate = .ok ())
    (hasked : wanted.asked?.any (·.satisfies wanted) = true)
    (hnamed : ∀ l, wanted = .link l → l.name ≠ "")
    (hfree : ∀ d, wanted = .discipline d → d.HandleIsFree) {outcome : Outcome}
    (hresult : Flow.result (Flow.apply wanted .present) world = (.ok outcome, after)) :
    ∃ found, (outcome = .confirmed found ∨ outcome = .unchanged found) ∧
      found.satisfies wanted = true ∧
      ∀ horizon, Flow.result (Flow.apply wanted .present) { after with horizon } =
        (.ok (.unchanged found),
          ({ after with horizon } : World).mapSession
            fun s => { s with nextId := s.nextId + 1 }) := by
  obtain ⟨told, htold, hsatisfies⟩ := (Option.any_eq_true _ _).mp hasked
  have hwanted : wanted.Understood :=
    ⟨hvalid, ⟨told, Object.readsAs_of_asked? htold, hsatisfies⟩, hnamed, hfree⟩
  obtain ⟨start, hadmits, hserved⟩ := h.served hwanted hresult
  obtain ⟨found, houtcome, hfound, hshown⟩ := hserved.shown
  obtain ⟨support, hanswer, hpermit⟩ := hadmits.permitted
  have hprobe : after.session.probe = start.probe := congrArg (·.1) hserved.frame
  have hnext : after.session.nextId = world.session.nextId + 1 :=
    (congrArg (·.2.1) hserved.frame).trans hadmits.number
  refine ⟨found, houtcome, hshown, fun horizon => Flow.result_apply_of_shown hvalid
    (hprobe ▸ hanswer) hpermit hfound hshown fun entry hentry => ?_⟩
  have hearlier : entry ∈ world.session.results := by
    rw [← hadmits.results, ← hserved.results]
    exact hentry
  show entry.1 ≠ after.session.nextId
  rw [hnext]
  exact Nat.ne_of_lt (Nat.lt_succ_of_lt (h.numbered entry hearlier))

/-- A world at rest, with a mirror of a peer at hand and every feature known to be there. -/
def resting (peer : Peer) : World :=
  { attached peer with
    horizon := 1000000000
    session := { (attached peer).session with probe := .fixed Support.all } }

theorem idle_resting {peer : Peer} (h : peer.Reachable)
    (hstance : peer.stance = ([], [], 0, false, false))
    (himages : ∀ object ∈ peer.all, object.image?.isSome = true)
    (hmirrors : (attached peer).session.inventory.Mirrors peer) : (resting peer).Idle := by
  simp only [stance, Prod.mk.injEq] at hstance
  obtain ⟨houtbox, hfailures, hoverruns, hmuted, hdropped⟩ := hstance
  exact {
    calm := ⟨⟨rfl, rfl, hfailures, hoverruns, hmuted, hdropped⟩, houtbox, rfl⟩
    trusted := rfl
    numbered := fun entry hentry => absurd hentry List.not_mem_nil
    reachable := h
    imaged := fun hhas _ =>
      Option.isSome_iff_exists.mp (himages _ ((mem_all_iff h.sound).mpr hhas))
    consistent := Inventory.consistent_empty.run _
    mirrors := hmirrors }

theorem apply_present_again_dummy :
    let wanted := Object.link (.new "a" .dummy)
    ∃ outcome after found, Flow.result (Flow.apply wanted .present) (resting initial) =
        (.ok outcome, after) ∧
      (outcome = .confirmed found ∨ outcome = .unchanged found) ∧ found.satisfies wanted = true ∧
      ∀ horizon, Flow.result (Flow.apply wanted .present) { after with horizon } =
        (.ok (.unchanged found),
          ({ after with horizon } : World).mapSession
            fun s => { s with nextId := s.nextId + 1 }) := by
  intro wanted
  have hidle : (resting initial).Idle :=
    idle_resting Reachable.initial rfl (by decide +kernel) (by decide +kernel)
  obtain ⟨outcome, houtcome⟩ := Option.isSome_iff_exists.mp
    (show (Flow.result (Flow.apply wanted .present) (resting initial)).1.toOption.isSome = true by
      decide +kernel)
  have hresult : Flow.result (Flow.apply wanted .present) (resting initial) =
      (.ok outcome, (Flow.result (Flow.apply wanted .present) (resting initial)).2) :=
    Prod.ext (Value.eq_ok_of_toOption houtcome) rfl
  obtain ⟨found, hend⟩ := hidle.apply_present_again (by decide) (by decide +kernel)
    (fun l hl => by rw [← Object.link.inj hl]; decide)
    (fun d hd => absurd hd (by simp [wanted])) hresult
  exact ⟨outcome, _, found, hresult, hend⟩

/-- A link that is wanted by its number alone is never found to be as wanted, since no link is
without a name: though it is there as it should be, it is asked for, and waited for in vain. -/
theorem exists_idle_unconfirmed :
    ∃ (world : World) (wanted : Object), world.Idle ∧ wanted.validate = .ok () ∧
      wanted.asked?.any (·.satisfies wanted) = true ∧
      (Flow.result (Flow.apply wanted .present) world).1 = .ok .unconfirmed := by
  let peer := (initial.intervene (.link (.new "a" .dummy)) .present true).1
  have hpeer : peer.Reachable :=
    Reachable.initial.intervene (.link (.new "a" .dummy)) .present true (by decide +kernel)
  exact ⟨resting peer, .link { Link.new "" .dummy with index := 2 },
    idle_resting hpeer (by decide +kernel) (by decide +kernel) (by decide +kernel),
    by decide +kernel,
    by decide +kernel, by decide +kernel⟩

end World

end NetState
