import NetState.Proofs.Session.Warrant

/-!
What operations come to, and why.

Every operation ends once, and what it came to is handed out once. Each result is warranted by the
history of the session.
-/

namespace NetState

/-- What holds of a session with a history, whatever is called: every operation that was planned is
under way, and as far as its history tells, or else has ended, with a result that is warranted. -/
structure World.Told (reserved : Option Nat) (log : List Moment) (world : World) : Prop where
  timely : world.channel.IsTimely
  consistent : world.session.inventory.Consistent
  hidden : world.session.Hidden
  /-- The number of the operation about to be submitted is taken. -/
  taken : ∀ id, reserved = some id → id < world.session.nextId
  below : ∀ planning ∈ Moment.plannings log, planning.id < reserved.getD world.session.nextId
  distinct : ((Moment.plannings log).map Planning.id).Nodup
  /-- Every operation that was planned has ended or is under way, and not both. -/
  ids : ((Moment.endings log).map Prod.fst ++ world.session.operations.map Operation.id).Perm
    ((Moment.plannings log).map Planning.id)
  answered : ∀ id, Moment.answersTo log id ≠ [] →
    ∃ planning ∈ Moment.plannings log, planning.id = id
  sound : ∀ moment ∈ log, ∀ planning, moment.planned = some planning →
    planning.Sound moment.before
  pursued : ∀ op ∈ world.session.operations, ∃ planning ∈ Moment.plannings log,
    planning.Pursued world.session.config log op
  warranted : ∀ past moment later, log = past ++ moment :: later → ∀ entry ∈ moment.ended,
    ∃ planning ∈ Moment.plannings (past ++ [moment]), planning.id = entry.1 ∧
      planning.Warrants world.session.config past moment entry.2

namespace World.Told

open Moment (plannings answersTo endings handings)

variable {reserved next : Option Nat} {log : List Moment} {world after : World} {moment : Moment}

theorem nodup_endings (h : Told reserved log world) : ((endings log).map Prod.fst).Nodup :=
  (List.nodup_append.mp (h.ids.nodup_iff.mpr h.distinct)).1

theorem nodup_ids (h : Told reserved log world) :
    (world.session.operations.map Operation.id).Nodup :=
  (List.nodup_append.mp (h.ids.nodup_iff.mpr h.distinct)).2.1

theorem id_ne_of_ended (h : Told reserved log world) {entry : Nat × Except Fault Outcome}
    (hentry : entry ∈ endings log) {op : Operation} (hop : op ∈ world.session.operations) :
    op.id ≠ entry.1 :=
  ((List.nodup_append.mp (h.ids.nodup_iff.mpr h.distinct)).2.2 entry.1
    (List.mem_map_of_mem hentry) op.id (List.mem_map_of_mem hop)).symm

theorem same (h : Told reserved log world) (htimely : after.channel.IsTimely)
    (hconfig : after.session.config = world.session.config)
    (hinventory : after.session.inventory = world.session.inventory)
    (hoperations : after.session.operations = world.session.operations)
    (hnext : after.session.nextId = world.session.nextId) : Told reserved log after where
  timely := htimely
  consistent := hinventory ▸ h.consistent
  hidden := h.hidden.mono hinventory fun op hop _ => hoperations ▸ hop
  taken := hnext ▸ h.taken
  below := hnext ▸ h.below
  distinct := h.distinct
  ids := hoperations ▸ h.ids
  answered := h.answered
  sound := h.sound
  pursued := by
    rw [hconfig, hoperations]
    exact h.pursued
  warranted := by
    rw [hconfig]
    exact h.warranted

theorem warrants (h : Told reserved log world) {id : Nat} {result : Except Fault Outcome}
    (hsound : ∀ planning, moment.planned = some planning → planning.Sound moment.before)
    (hends : world.session.Ends moment id result) :
    ∃ planning ∈ plannings (log ++ [moment]), planning.id = id ∧
      planning.Warrants world.session.config log moment result := by
  have hpursued {op : Operation} (hop : op ∈ world.session.operations)
      (hwarrants : ∀ planning ∈ plannings log, ∀ inventory, planning.Sound inventory →
        planning.Pursued world.session.config log op →
        planning.Warrants world.session.config log moment result) :
      ∃ planning ∈ plannings (log ++ [moment]), planning.id = op.id ∧
        planning.Warrants world.session.config log moment result := by
    obtain ⟨planning, hplanning, hpursued⟩ := h.pursued op hop
    obtain ⟨earlier, hearlier, hplanned⟩ := List.mem_filterMap.mp hplanning
    exact ⟨planning, by simp [hplanning], hpursued.id.symm, hwarrants planning hplanning _
      (h.sound earlier hearlier planning hplanned) hpursued⟩
  cases hends with
  | shown hop hgoes hacked hshown =>
      exact hpursued hop fun _ _ _ hsound hpursued =>
        hpursued.warrants_shown hsound hgoes hacked hshown
  | abandoned hop htarget hlost =>
      exact hpursued hop fun _ hplanning _ _ hpursued =>
        ⟨hplanning, _, hpursued.target?_eq ▸ htarget, hlost⟩
  | gone hop hanswer hmoot hlast =>
      exact hpursued hop fun _ _ _ hsound hpursued =>
        hpursued.warrants_gone hsound hanswer hmoot hlast
  | failed hop htimely =>
      exact hpursued hop fun _ _ _ _ _ htimeout => absurd htimeout (by simp [htimely])
  | late hop hanswer hstage hnow =>
      exact hpursued hop fun _ _ _ _ hpursued => hpursued.warrants_late hanswer hstage hnow _
  | unseen hop hanswer hstage hnow hshown =>
      exact hpursued hop fun _ _ _ _ hpursued =>
        hpursued.warrants_unseen hanswer hstage hnow hshown
  | done hplanned hplan =>
      exact ⟨_, by simp [hplanned], rfl, (hsound _ hplanned).warrants hplanned hplan⟩

theorem exists_of_answersTo (h : Told reserved log world)
    (hanswered : ∀ answer, moment.answered = some answer →
      ∃ op ∈ world.session.operations, op.id = answer.1) {id : Nat}
    (hanswers : answersTo (log ++ [moment]) id ≠ []) :
    ∃ planning ∈ plannings log, planning.id = id := by
  rw [Moment.answersTo_snoc, Ne, List.append_eq_nil_iff, not_and_or] at hanswers
  rcases hanswers with hbefore | hnow
  · exact h.answered id hbefore
  · rw [Option.toList_eq_nil_iff, ← Ne, Option.ne_none_iff_exists'] at hnow
    obtain ⟨answer, hanswer⟩ := hnow
    obtain ⟨op, hop, rfl⟩ := hanswered _ (Moment.answerTo?_eq_some_iff.mp hanswer)
    obtain ⟨planning, hplanning, hpursued⟩ := h.pursued op hop
    exact ⟨planning, hplanning, hpursued.id.symm⟩

theorem id_ne_of_new (h : Told reserved log world) {new planning : Planning}
    (hnew : reserved.getD world.session.nextId = new.id) (hplanning : planning ∈ plannings log) :
    planning.id ≠ new.id := by
  have hlt := h.below planning hplanning
  omega

theorem nodup_plannings (h : Told reserved log world)
    (hnew : ∀ planning, moment.planned = some planning →
      reserved.getD world.session.nextId = planning.id) :
    ((plannings (log ++ [moment])).map Planning.id).Nodup := by
  rw [Moment.plannings_snoc, List.map_append, List.nodup_append]
  refine ⟨h.distinct, ?_, fun id hid other hother => ?_⟩
  · cases moment.planned <;> simp
  · obtain ⟨planning, hplanning, rfl⟩ := List.mem_map.mp hid
    obtain ⟨new, hmem, rfl⟩ := List.mem_map.mp hother
    exact h.id_ne_of_new (hnew new (Option.mem_toList.mp hmem)) hplanning

theorem perm_ids (h : Told reserved log world)
    (hpasses : world.session.Passes moment moment.ended after.session) :
    ((endings (log ++ [moment])).map Prod.fst ++ after.session.operations.map Operation.id).Perm
      ((plannings (log ++ [moment])).map Planning.id) := by
  rw [Moment.endings_snoc, Moment.plannings_snoc, List.map_append, List.map_append,
    List.append_assoc, ← Option.toList_map]
  refine (hpasses.ids.append_left _).trans ?_
  refine (List.perm_append_comm.append_left _).trans ?_
  rw [← List.append_assoc]
  exact h.ids.append_right _

theorem exists_pursued (h : Told reserved log world)
    (hpasses : world.session.Passes moment moment.ended after.session)
    (hhidden : after.session.Hidden) (hafter : moment.after = after.session.inventory)
    (hnew : ∀ planning, moment.planned = some planning →
      reserved.getD world.session.nextId = planning.id)
    (hanswered : ∀ answer, moment.answered = some answer →
      ∃ op ∈ world.session.operations, op.id = answer.1) {new : Operation}
    (hop : new ∈ after.session.operations) :
    ∃ planning ∈ plannings (log ++ [moment]),
      planning.Pursued world.session.config (log ++ [moment]) new := by
  rcases hpasses.kept new hop with ⟨op, hold, hgoes⟩ | ⟨planning, steps, hsome, hplan, rfl⟩
  · obtain ⟨planning, hplanning, hpursued⟩ := h.pursued op hold
    refine ⟨planning, by simp [hplanning], hpursued.goes hgoes fun hacked => ?_⟩
    have hnone := hhidden new hop
    rw [Session.confirmation?, if_pos hacked] at hnone
    rw [hafter]
    exact hnone
  · refine ⟨planning, by simp [hsome], .start hplan ?_⟩
    by_contra hsent
    obtain ⟨other, hother, hid⟩ := h.exists_of_answersTo hanswered hsent
    exact h.id_ne_of_new (hnew planning hsome) hother hid

theorem exists_warrants (h : Told reserved log world)
    (hpasses : world.session.Passes moment moment.ended after.session)
    (hsound : ∀ planning, moment.planned = some planning → planning.Sound moment.before)
    {past later : List Moment} {other : Moment} (hlog : log ++ [moment] = past ++ other :: later)
    {entry : Nat × Except Fault Outcome} (hentry : entry ∈ other.ended) :
    ∃ planning ∈ plannings (past ++ [other]), planning.id = entry.1 ∧
      planning.Warrants world.session.config past other entry.2 := by
  rcases List.eq_nil_or_concat later with rfl | ⟨later, last, rfl⟩
  · obtain ⟨rfl, hsame⟩ := List.append_inj' hlog rfl
    obtain rfl : moment = other := List.singleton_inj.mp hsame
    exact h.warrants hsound (hpasses.ended entry hentry)
  · rw [List.concat_eq_append, ← List.cons_append, ← List.append_assoc] at hlog
    exact h.warranted past other later (List.append_inj' hlog rfl).1 entry hentry

/-- A moment that tells all that happened keeps what holds. -/
theorem passes (h : Told reserved log world)
    (hpasses : world.session.Passes moment moment.ended after.session)
    (htimely : after.channel.IsTimely) (hconsistent : after.session.inventory.Consistent)
    (hhidden : after.session.Hidden) (hafter : moment.after = after.session.inventory)
    (hreserved : ∀ id, next = some id → id < after.session.nextId)
    (hnext : reserved.getD world.session.nextId ≤ next.getD after.session.nextId)
    (hplanned : ∀ planning, moment.planned = some planning →
      reserved.getD world.session.nextId = planning.id ∧
        planning.id < next.getD after.session.nextId ∧ planning.Sound moment.before)
    (hanswered : ∀ answer, moment.answered = some answer →
      ∃ op ∈ world.session.operations, op.id = answer.1) :
    Told next (log ++ [moment]) after where
  timely := htimely
  consistent := hconsistent
  hidden := hhidden
  taken := hreserved
  below planning hplanning := by
    rw [Moment.plannings_snoc, List.mem_append, Option.mem_toList] at hplanning
    rcases hplanning with hplanning | hplanning
    · exact Nat.lt_of_lt_of_le (h.below planning hplanning) hnext
    · exact (hplanned planning hplanning).2.1
  distinct := h.nodup_plannings fun planning hsome => (hplanned planning hsome).1
  ids := h.perm_ids hpasses
  answered id hid := by
    obtain ⟨planning, hplanning, hsame⟩ := h.exists_of_answersTo hanswered hid
    exact ⟨planning, by simp [hplanning], hsame⟩
  sound other hother planning hsome := by
    rcases List.mem_append.mp hother with hother | hother
    · exact h.sound other hother planning hsome
    · obtain rfl := List.mem_singleton.mp hother
      exact (hplanned planning hsome).2.2
  pursued new hnew := by
    rw [hpasses.config]
    exact h.exists_pursued hpasses hhidden hafter
      (fun planning hsome => (hplanned planning hsome).1)
      hanswered hnew
  warranted past other later hlog entry hentry := by
    rw [hpasses.config]
    exact h.exists_warrants hpasses
      (fun planning hsome => (hplanned planning hsome).2.2) hlog hentry

end World.Told

/-- Whether the results that are kept are those that nobody was handed yet. -/
structure World.Delivers (log : List Moment) (world : World) : Prop where
  results : world.session.results =
    (Moment.endings log).filter fun entry => entry.1 ∉ (Moment.handings log).map Prod.fst
  handed : ((Moment.handings log).map Prod.fst).Nodup
  ended : ∀ entry ∈ Moment.handings log, entry ∈ Moment.endings log

namespace World.Delivers

open Moment (endings handings)

variable {log : List Moment} {world after : World} {moment : Moment}

theorem mem_results (h : Delivers log world) {entry : Nat × Except Fault Outcome} :
    entry ∈ world.session.results ↔
      entry ∈ endings log ∧ entry.1 ∉ (handings log).map Prod.fst := by
  rw [h.results, List.mem_filter, decide_eq_true_iff]

theorem keep (h : Delivers log world) (hhanded : moment.handed = none)
    (hdistinct : ((endings (log ++ [moment])).map Prod.fst).Nodup)
    (hresults : after.session.results = world.session.results ++ moment.ended) :
    Delivers (log ++ [moment]) after := by
  have hsame : handings (log ++ [moment]) = handings log := by simp [hhanded]
  rw [Moment.endings_snoc, List.map_append, List.nodup_append] at hdistinct
  refine ⟨?_, hsame ▸ h.handed, fun entry hentry => ?_⟩
  · have hkept : moment.ended.filter (fun entry => entry.1 ∉ (handings log).map Prod.fst) =
        moment.ended := by
      refine List.filter_eq_self.mpr fun entry hentry => decide_eq_true fun hmem => ?_
      obtain ⟨other, hother, hid⟩ := List.mem_map.mp hmem
      exact hdistinct.2.2 other.1 (List.mem_map_of_mem (h.ended other hother)) entry.1
        (List.mem_map_of_mem hentry) hid
    rw [hresults, Moment.endings_snoc, List.filter_append, hsame, hkept, h.results]
  · rw [hsame] at hentry
    rw [Moment.endings_snoc]
    exact List.mem_append_left _ (h.ended entry hentry)

theorem hand (h : Delivers log world) {id : Nat} {result : Except Fault Outcome}
    (hmem : (id, result) ∈ world.session.results) (hended : moment.ended = [])
    (hhanded : moment.handed = some (id, result))
    (hresults : after.session.results = world.session.results.filter (·.1 != id)) :
    Delivers (log ++ [moment]) after := by
  obtain ⟨hentry, hnew⟩ := h.mem_results.mp hmem
  have hsame : endings (log ++ [moment]) = endings log := by simp [hended]
  have hmore : handings (log ++ [moment]) = handings log ++ [(id, result)] := by simp [hhanded]
  refine ⟨?_, ?_, fun entry hentry => ?_⟩
  · rw [hresults, h.results, hsame, hmore, List.filter_filter]
    refine List.filter_congr fun entry _ => ?_
    simp only [List.map_append, List.map_cons, List.map_nil, List.mem_append, List.mem_singleton,
      not_or, Bool.decide_and, decide_not, Bool.and_comm]
    rfl
  · rw [hmore, List.map_append, List.nodup_append]
    refine ⟨h.handed, List.nodup_singleton id, fun other hother last hlast heq => ?_⟩
    exact hnew (List.mem_singleton.mp hlast ▸ heq ▸ hother)
  · rw [hmore, List.mem_append] at hentry
    rw [hsame]
    rcases hentry with hbefore | hlast
    · exact h.ended entry hbefore
    · exact List.mem_singleton.mp hlast ▸ ‹(id, result) ∈ endings log›

theorem tells (h : Delivers log world) {next : Option Nat}
    (hpasses : ∃ ended, world.session.Passes moment ended after.session)
    (hended : moment.ended = world.added after) (hhanded : moment.handed = none)
    (htold : world.session.Passes moment moment.ended after.session →
      Told next (log ++ [moment]) after) :
    Told next (log ++ [moment]) after ∧ Delivers (log ++ [moment]) after := by
  obtain ⟨ended, hpasses⟩ := hpasses
  obtain rfl : moment.ended = ended := by
    rw [hended, added, hpasses.results, List.drop_left]
  have htold := htold hpasses
  exact ⟨htold, h.keep hhanded htold.nodup_endings hpasses.results⟩

end World.Delivers

namespace Session

variable (session : Session) (now : Nat) (turn : Turn)

theorem nextId_turn : (session.turn now turn).nextId = session.nextId := by
  cases turn with
  | taken incoming => exact (progresses_take session now incoming).nextId
  | reconciled kind objects => exact (progresses_reconcile session kind objects).nextId

theorem hidden_turn : (session.turn now turn).Hidden := by
  cases turn with
  | taken incoming => exact hidden_take session now incoming
  | reconciled kind objects => exact hidden_reconcile session kind objects

theorem consistent_turn (h : session.inventory.Consistent) :
    (session.turn now turn).inventory.Consistent := by
  cases turn with
  | taken incoming => exact (evolves_take session now incoming).consistent h
  | reconciled kind objects =>
      rw [Session.turn, (follows_reconcile session kind objects).inventory]
      exact h.reconcile kind objects

theorem inventory_undertake (planning : Planning) :
    (session.undertake planning).inventory = session.inventory := by
  rw [undertake]
  split <;> rfl

theorem nextId_undertake (planning : Planning) :
    (session.undertake planning).nextId = session.nextId := by
  rw [undertake]
  split <;> rfl

theorem Hidden.undertake {session : Session} (h : session.Hidden) (planning : Planning) :
    (session.undertake planning).Hidden := by
  refine h.mono (inventory_undertake session planning) fun op hop hacked => ?_
  rw [Session.undertake] at hop
  split at hop
  · exact hop
  · rcases List.mem_append.mp hop with hop | hop
    · exact hop
    · rw [List.mem_singleton.mp hop] at hacked
      exact absurd hacked (by simp [Operation.isAcked, Planning.start])

theorem exists_of_answeredBy {session : Session} {turn : Turn} {answer : Nat × Except Fault Reply}
    (h : session.answeredBy turn = some answer) : ∃ op ∈ session.operations, op.id = answer.1 := by
  unfold answeredBy at h
  split at h
  · obtain ⟨op, hfind, rfl⟩ := Option.map_eq_some_iff.mp h
    exact ⟨op, List.mem_of_find?_eq_some hfind, rfl⟩
  · exact absurd h (by simp)

end Session

namespace World.Told

open Moment (plannings answersTo endings handings)

variable {reserved next : Option Nat} {log more : List Moment} {world after : World}

theorem happens (h : Told reserved log world) (hdelivers : Delivers log world)
    (hchange : Happens reserved world more next after) :
    Told next (log ++ more) after ∧ Delivers (log ++ more) after := by
  cases hchange with
  | aside _ hchannel _ hconfig hinventory hoperations hnext hresults =>
      rw [List.append_nil]
      exact ⟨h.same (hchannel h.timely) hconfig hinventory hoperations hnext,
        hresults ▸ hdelivers.results, hdelivers.handed, hdelivers.ended⟩
  | turn turn hturn =>
      have hnext := Session.nextId_turn world.session world.now turn
      refine hdelivers.tells
        (Session.passes_turn h.consistent h.nodup_ids hturn rfl rfl rfl rfl rfl) rfl rfl
        fun hpasses => h.passes hpasses h.timely
          (Session.consistent_turn world.session world.now turn h.consistent)
          (Session.hidden_turn _ _ _) rfl ?_ ?_ (fun _ hsome => absurd hsome (by simp [moment]))
          fun _ hanswered => Session.exists_of_answeredBy hanswered
      · rw [mapSession, hnext]
        exact h.taken
      · exact Nat.le_of_eq (by rw [mapSession, hnext])
  | expire =>
      refine hdelivers.tells (Session.passes_expire h.hidden rfl rfl rfl rfl) rfl rfl
        fun hpasses => h.passes hpasses h.timely h.consistent (h.hidden.expire _) rfl h.taken
          (Nat.le_refl _) (fun _ hsome => absurd hsome (by simp [moment]))
          fun _ hanswered => absurd hanswered (by simp [moment])
  | pump =>
      refine hdelivers.tells (passes_pump h.timely rfl rfl rfl rfl) rfl rfl
        fun hpasses => h.passes hpasses (timely_pumpEach h.timely _).1 ?_ (hidden_pump h.hidden)
          (inventory_pump world).symm ?_ ?_ (fun _ hsome => absurd hsome (by simp [moment]))
          fun _ hanswered => absurd hanswered (by simp [moment])
      · rw [inventory_pump]
        exact h.consistent
      · rw [nextId_pump]
        exact h.taken
      · exact Nat.le_of_eq (by rw [nextId_pump])
  | reserve =>
      rw [List.append_nil]
      refine ⟨⟨h.timely, h.consistent, h.hidden, ?_, h.below, h.distinct, h.ids, h.answered,
        h.sound, h.pursued, h.warranted⟩, hdelivers.results, hdelivers.handed, hdelivers.ended⟩
      rintro _ ⟨rfl⟩
      exact Nat.lt_succ_self _
  | @lapse _ id =>
      rw [List.append_nil]
      refine ⟨⟨h.timely, h.consistent, h.hidden, fun _ hsome => absurd hsome (by simp), ?_,
        h.distinct, h.ids, h.answered, h.sound, h.pursued, h.warranted⟩, hdelivers.results,
        hdelivers.handed, hdelivers.ended⟩
      exact fun planning hplanning =>
        Nat.lt_trans (h.below planning hplanning) (h.taken id rfl)
  | @submit _ planning wanted hplans =>
      have htaken := h.taken planning.id rfl
      have hsame := Session.inventory_undertake world.session planning
      have hnext := Session.nextId_undertake world.session planning
      refine hdelivers.tells (Session.passes_undertake rfl rfl) rfl rfl
        fun hpasses => h.passes hpasses h.timely ?_ (h.hidden.undertake planning) hsame.symm
          (fun _ hsome => absurd hsome (by simp)) ?_ ?_
          fun _ hanswered => absurd hanswered (by simp [moment])
      · rw [mapSession, hsame]
        exact h.consistent
      · show planning.id ≤ (world.session.undertake planning).nextId
        omega
      · rintro _ ⟨rfl⟩
        refine ⟨rfl, ?_, hplans.sound⟩
        show planning.id < (world.session.undertake planning).nextId
        omega
  | @hand _ _ id result hresult =>
      have hquiet := @Session.Passes.quiet world.session world.session
        { world.moment with handed := some (id, result) } rfl rfl rfl rfl rfl
      have htold := h.passes hquiet h.timely h.consistent h.hidden rfl h.taken (Nat.le_refl _)
        (fun _ hsome => absurd hsome (by simp [moment]))
        fun _ hanswered => absurd hanswered (by simp [moment])
      exact ⟨htold.same h.timely rfl rfl rfl rfl, hdelivers.hand hresult rfl rfl rfl⟩

theorem unfolds (h : Told reserved log world) (hdelivers : Delivers log world)
    (hpath : Unfolds reserved world more next after) :
    Told next (log ++ more) after ∧ Delivers (log ++ more) after := by
  induction hpath with
  | nil =>
      rw [List.append_nil]
      exact ⟨h, hdelivers⟩
  | snoc _ hchange ih =>
      rw [← List.append_assoc]
      exact ih.1.happens ih.2 hchange

end World.Told

theorem World.told_new (config : Config) (files : Files) {channel : Channel}
    (hchannel : channel.IsTimely) : Told none [] (.new config files channel) where
  timely := hchannel
  consistent := Inventory.consistent_empty
  hidden _ hop := absurd hop List.not_mem_nil
  taken _ hsome := absurd hsome (by simp)
  below _ hplanning := absurd hplanning List.not_mem_nil
  distinct := List.nodup_nil
  ids := .nil
  answered _ hanswers := absurd rfl hanswers
  sound _ hmoment := absurd hmoment List.not_mem_nil
  pursued _ hop := absurd hop List.not_mem_nil
  warranted _ _ _ hlog := absurd hlog (by simp)

theorem Recorded.told {log : List Moment} {world : World} (h : Recorded log world) :
    world.Told none log ∧ world.Delivers log := by
  induction h with
  | opened config files hchannel =>
      exact ⟨World.told_new config files hchannel, rfl, List.nodup_nil,
        fun _ hentry => absurd hentry List.not_mem_nil⟩
  | disturbed h now horizon hchannel ih =>
      exact ⟨ih.1.same hchannel rfl rfl rfl rfl, ih.2.results, ih.2.handed, ih.2.ended⟩
  | watched h hsame ih =>
      exact ⟨ih.1.same ih.1.timely rfl hsame rfl rfl, ih.2.results, ih.2.handed, ih.2.ended⟩
  | called h call hmore ih => exact ih.1.unfolds ih.2 hmore

namespace Session

variable {session : Session} {id : Nat}

theorem collect_of_absent (hresults : ∀ entry ∈ session.results, entry.1 ≠ id)
    (hoperations : ∀ op ∈ session.operations, op.id ≠ id) :
    (session.collect id).1 = some (.ok .abandoned) := by
  have hfind : session.results.find? (·.1 == id) = none :=
    List.find?_eq_none.mpr fun entry hentry => by simpa using hresults entry hentry
  have hany : session.operations.any (·.id == id) = false :=
    List.any_eq_false.mpr fun op hop => by simpa using hoperations op hop
  rw [collect, hfind]
  simp only [hany, Bool.false_eq_true, if_false]

theorem mem_of_collect {result : Except Fault Outcome}
    (h : (session.collect id).1 = some result) : (id, result) ∈ session.results ∨
      result = .ok .abandoned ∧ (∀ entry ∈ session.results, entry.1 ≠ id) ∧
        ∀ op ∈ session.operations, op.id ≠ id := by
  cases hfind : session.results.find? (·.1 == id) with
  | some entry =>
      have hid : (entry.1 == id) = true := by
        have hkeep := List.find?_some hfind
        exact hkeep
      rw [collect, hfind] at h
      have hentry : (id, result) = entry :=
        Prod.ext (beq_iff_eq.mp hid).symm (Option.some.inj h).symm
      exact Or.inl (hentry ▸ List.mem_of_find?_eq_some hfind)
  | none =>
      rw [collect, hfind] at h
      simp only at h
      split at h
      · exact absurd h (by simp)
      · rename_i hany
        refine Or.inr ⟨(Option.some.inj h).symm, fun entry hentry => ?_, fun op hop => ?_⟩
        · simpa using List.find?_eq_none.mp hfind entry hentry
        · rw [Bool.not_eq_true, List.any_eq_false] at hany
          simpa using hany op hop

end Session

namespace World.Told

open Moment (plannings endings handings)

variable {reserved : Option Nat} {log : List Moment} {world : World}

/-- Whoever was handed a result and asks again is told that the operation was abandoned. -/
theorem collect_of_handed (h : Told reserved log world) (hdelivers : Delivers log world)
    {entry : Nat × Except Fault Outcome} (hentry : entry ∈ handings log) :
    (world.session.collect entry.1).1 = some (.ok .abandoned) := by
  refine Session.collect_of_absent (fun other hother hid => ?_) fun op hop hid => ?_
  · exact (hdelivers.mem_results.mp hother).2 (hid ▸ List.mem_map_of_mem hentry)
  · exact h.id_ne_of_ended (hdelivers.ended entry hentry) hop hid

theorem handed_of_collect (h : Told reserved log world) (hdelivers : Delivers log world) {id : Nat}
    {result : Except Fault Outcome} (hcollect : (world.session.collect id).1 = some result) :
    (id, result) ∈ endings log ∧ id ∉ (handings log).map Prod.fst ∨
      result = .ok .abandoned ∧
        (id ∈ (handings log).map Prod.fst ∨ id ∉ (plannings log).map Planning.id) := by
  rcases Session.mem_of_collect hcollect with hresult | ⟨rfl, hresults, hoperations⟩
  · exact Or.inl (hdelivers.mem_results.mp hresult)
  · refine Or.inr ⟨rfl, Classical.or_iff_not_imp_left.mpr fun hhanded hplanned => ?_⟩
    rcases List.mem_append.mp (h.ids.mem_iff.mpr hplanned) with hended | hpending
    · obtain ⟨entry, hentry, rfl⟩ := List.mem_map.mp hended
      exact hresults entry (hdelivers.mem_results.mpr ⟨hentry, hhanded⟩) rfl
    · obtain ⟨op, hop, rfl⟩ := List.mem_map.mp hpending
      exact hoperations op hop rfl

end World.Told

/-- Every operation has a number of its own and ends once at most, with a result that is warranted
by what happened until then. The result is handed out once; whoever asks again is told that the
operation was abandoned. -/
theorem Recorded.warranted {log : List Moment} {world : World} (h : Recorded log world) :
    ((Moment.plannings log).map Planning.id).Nodup ∧ ((Moment.endings log).map Prod.fst).Nodup ∧
      ((Moment.handings log).map Prod.fst).Nodup ∧
      (∀ entry ∈ Moment.handings log, entry ∈ Moment.endings log ∧
        (world.session.collect entry.1).1 = some (.ok .abandoned)) ∧
      (∀ id result, (world.session.collect id).1 = some result →
        (id, result) ∈ Moment.endings log ∧ id ∉ (Moment.handings log).map Prod.fst ∨
          result = .ok .abandoned ∧
            (id ∈ (Moment.handings log).map Prod.fst ∨
              id ∉ (Moment.plannings log).map Planning.id)) ∧
      ∀ past moment later, log = past ++ moment :: later →
        ∀ id result, (id, result) ∈ moment.ended →
          ∃ planning ∈ Moment.plannings (past ++ [moment]), planning.id = id ∧
            planning.Warrants world.session.config past moment result := by
  obtain ⟨htold, hdelivers⟩ := h.told
  exact ⟨htold.distinct, htold.nodup_endings, hdelivers.handed,
    fun entry hentry => ⟨hdelivers.ended entry hentry, htold.collect_of_handed hdelivers hentry⟩,
    fun id result hcollect => htold.handed_of_collect hdelivers hcollect,
    fun past moment later hlog id result hentry =>
      htold.warranted past moment later hlog (id, result) hentry⟩

def Filter.onLoopback (verdict : Int32) : Filter where
  interface := 1
  kind := "matchall"
  handle := .unspecified
  parent := .ingressDiscipline
  priority := 1
  protocol := 3
  action := some (.gact verdict)

namespace World

/-- A world in which an address was asked for on the loopback, and the kernel has given it. -/
def addressed : World :=
  let wanted := { Address.onSecond with interface := 1 }
  Call.drive.after (Call.drive.after ((Call.submit (.address wanted) .present).after equipped))

/-- A world in which the kernel had no time for a link, which is to be asked for again. -/
def postponed : World :=
  let peer := { equipped.channel.peer with failures := [(16, 16)] }
  let busy := { equipped with channel := { equipped.channel with peer } }
  Call.drive.after ((Call.submit (.link (.new "a" .dummy)) .present).after busy)

/-- The world after that, in which the kernel has said nothing more until the time was over. -/
def outwaited : World :=
  let peer := { postponed.channel.peer with repliesDropped := true, muted := true }
  let silent :=
    { postponed with horizon := 10000000000, channel := { postponed.channel with peer } }
  Call.drive.after (Call.drive.after silent)

/-- A world in which a filter is to be replaced that has gone without a word, as will its successor
come. -/
def refiltering : World :=
  let hooked := (Call.apply (.discipline (.ingress 1)) .present).after equipped
  let filtering := (Call.apply (.filter (.onLoopback 2)) .present).after hooked
  let peer := { filtering.channel.peer with filters := [], muted := true }
  let unfiltered :=
    { filtering with horizon := 10000000000, channel := { filtering.channel with peer } }
  (Call.submit (.filter (.onLoopback 0)) .present).after unfiltered

theorem isTimely_equipped : equipped.channel.IsTimely :=
  fun _ hfault => absurd hfault List.not_mem_nil

end World

namespace Recorded

theorem equipped : Recorded [] World.equipped :=
  .opened _ _ World.isTimely_equipped

theorem befallen {log : List Moment} {world : World} (h : Recorded log world) (horizon : Nat)
    (peer : Peer) :
    Recorded log { world with horizon, channel := { world.channel with peer } } :=
  h.disturbed world.now horizon h.told.1.timely

theorem exists_addressed : ∃ log, Recorded log World.addressed := by
  obtain ⟨_, hasked⟩ := equipped.exists_called
    (.submit (.address { Address.onSecond with interface := 1 }) .present)
  obtain ⟨_, hsent⟩ := hasked.exists_called .drive
  obtain ⟨_, hgiven⟩ := hsent.exists_called .drive
  exact ⟨_, hgiven⟩

theorem warranted_addressed :
    ∃ log past moment later planning object, Recorded log World.addressed ∧
      log = past ++ moment :: later ∧ (1, .ok (.confirmed object)) ∈ moment.ended ∧
      planning ∈ Moment.plannings (past ++ [moment]) ∧ planning.id = 1 ∧
      planning.Warrants World.addressed.session.config past moment (.ok (.confirmed object)) := by
  obtain ⟨log, h⟩ := exists_addressed
  obtain ⟨-, -, -, -, hcollected, hwarranted⟩ := h.warranted
  obtain ⟨object, hcollect⟩ : ∃ object,
      (World.addressed.session.collect 1).1 = some (.ok (.confirmed object)) :=
    ⟨.address
      { Address.onSecond with
        interface := 1
        label := some "lo"
        flags := 128
        scope := some 0 }, by decide +kernel⟩
  rcases hcollected 1 _ hcollect with ⟨hended, -⟩ | ⟨habandoned, -⟩
  · obtain ⟨moment, hmoment, hentry⟩ := List.mem_flatMap.mp hended
    obtain ⟨past, later, hlog⟩ := List.append_of_mem hmoment
    obtain ⟨planning, hplanning, hid, hwarrants⟩ :=
      hwarranted past moment later hlog 1 _ hentry
    exact ⟨log, past, moment, later, planning, object, h, hlog, hentry, hplanning, hid, hwarrants⟩
  · exact absurd habandoned (by simp)

theorem exists_outwaited : ∃ log, Recorded log World.outwaited := by
  obtain ⟨_, hasked⟩ := (equipped.befallen 0 _).exists_called
    (.submit (.link (.new "a" .dummy)) .present)
  obtain ⟨_, hpostponed⟩ := hasked.exists_called .drive
  obtain ⟨_, hsent⟩ := (hpostponed.befallen 10000000000 _).exists_called .drive
  obtain ⟨_, hlate⟩ := hsent.exists_called .drive
  exact ⟨_, hlate⟩

theorem exists_refiltering : ∃ log, Recorded log World.refiltering := by
  obtain ⟨_, hhooked⟩ := equipped.exists_called (.apply (.discipline (.ingress 1)) .present)
  obtain ⟨_, hfiltering⟩ := hhooked.exists_called (.apply (.filter (.onLoopback 2)) .present)
  obtain ⟨_, hasked⟩ := (hfiltering.befallen 10000000000 _).exists_called
    (.submit (.filter (.onLoopback 0)) .present)
  exact ⟨_, hasked⟩

/-- Whoever asks again for an operation that was confirmed is told that it was abandoned. One for
which the kernel had no time at first ends for being late, as nothing comes of the second attempt.
One that was to delete what was not there before it put another in its place ends unconfirmed. -/
theorem exists_exceptions :
    ((∃ log, Recorded log World.addressed) ∧
      (∃ object, (World.addressed.session.collect 1).1 = some (.ok (.confirmed object))) ∧
      (((Call.poll 1).after World.addressed).session.collect 1).1 = some (.ok .abandoned)) ∧
    ((∃ log, Recorded log World.outwaited) ∧
      World.postponed.session.operations.map (fun op => (op.id, op.steps.length, op.attempt)) =
        [(1, 1, 1)] ∧
      World.outwaited.session.results =
        [(1, .error (.timeout "add link a (0, dummy)" (.ofSeconds 5)))]) ∧
    (∃ log, Recorded log World.refiltering) ∧ World.refiltering.channel.peer.filters = [] ∧
      World.refiltering.session.operations.map (fun op => op.steps.map Step.verb) =
        [[.delete, .create]] ∧
      (Call.drive.after World.refiltering).session.operations.map
        (fun op => op.steps.map Step.verb) = [[.create]] ∧
      (Call.drive.after (Call.drive.after (Call.drive.after World.refiltering))).session.results =
        [(3, .ok .unconfirmed)] := by
  refine ⟨⟨exists_addressed, ⟨.address
    { Address.onSecond with
      interface := 1
      label := some "lo"
      flags := 128
      scope := some 0 }, by decide +kernel⟩, by decide +kernel⟩,
    ⟨exists_outwaited, by decide +kernel, by decide +kernel⟩, exists_refiltering, ?_⟩
  exact ⟨by decide +kernel, by decide +kernel, by decide +kernel, by decide +kernel⟩

end Recorded

end NetState
