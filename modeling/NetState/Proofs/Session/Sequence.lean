import NetState.Proofs.Session.Episode

/-!
The order in which the requests of each operation are made, whatever is called and whatever the
kernel's side says.

An operation under way stands where its dealings have brought it, and each episode takes it one
dealing further at most. So the dealings of every operation are in order, from its first request to
its end.
-/

namespace NetState

namespace World

/-- The episodes of a stretch of changes. -/
inductive Plays (reserved : Option Nat) (world : World) :
    List Episode → Option Nat → World → Prop where
  | nil : Plays reserved world [] reserved world
  | snoc {episodes more : List Episode} {middle next : Option Nat} {place after : World}
      (hpath : Plays reserved world episodes middle place)
      (hchange : Occurs middle place more next after) :
      Plays reserved world (episodes ++ more) next after

theorem Unfolds.exists_plays {reserved next : Option Nat} {world after : World} {log : List Moment}
    (h : Unfolds reserved world log next after) :
    ∃ episodes, Plays reserved world episodes next after := by
  induction h with
  | nil => exact ⟨[], .nil⟩
  | snoc _ hchange ih =>
      obtain ⟨episodes, hpath⟩ := ih
      obtain ⟨more, hmore⟩ := hchange.exists_occurs
      exact ⟨_, hpath.snoc hmore⟩

end World

/-- What a session comes to by calls, with the episodes of its history. In between, time passes,
anything can befall its socket, and others subscribe to its news. -/
inductive Enacted : List Episode → World → Prop where
  | opened (config : Config) (files : Files) {channel : Channel} (hchannel : channel.IsTimely)
      (hsent : channel.sent = []) : Enacted [] (.new config files channel)
  | disturbed {episodes : List Episode} {world : World} (h : Enacted episodes world)
      (now horizon : Nat) {channel : Channel} (hchannel : channel.IsTimely)
      (hsent : channel.sent = world.channel.sent) :
      Enacted episodes { world with now, horizon, channel }
  | watched {episodes : List Episode} {world : World} (h : Enacted episodes world)
      {watched : Watched} (hsame : watched.inventory = world.session.inventory) :
      Enacted episodes (world.mapSession ({ · with watched }))
  | called {episodes more : List Episode} {world : World} (h : Enacted episodes world) (call : Call)
      (hmore : World.Plays none world more none (call.after world)) :
      Enacted (episodes ++ more) (call.after world)

/-- Whatever is called next, the history goes on. -/
theorem Enacted.exists_called {episodes : List Episode} {world : World} (h : Enacted episodes world)
    (call : Call) : ∃ more, Enacted (episodes ++ more) (call.after world) := by
  obtain ⟨log, hlog⟩ := call.unfolds world
  obtain ⟨more, hmore⟩ := hlog.exists_plays
  exact ⟨more, h.called call hmore⟩

namespace Episode

def plannings (episodes : List Episode) : List Planning :=
  Moment.plannings (episodes.map Episode.moment)

theorem dealings_snoc (episodes : List Episode) (episode : Episode) (id : Nat) :
    dealings (episodes ++ [episode]) id = dealings episodes id ++ episode.dealt id := by
  simp [dealings]

theorem plannings_snoc (episodes : List Episode) (episode : Episode) :
    plannings (episodes ++ [episode]) = plannings episodes ++ episode.moment.planned.toList := by
  rw [plannings, List.map_append, List.map_singleton, Moment.plannings_snoc]
  rfl

end Episode

namespace Operation.Stands

variable {config : Config} {plan : List Step} {dealings dealt : List Dealing} {op new : Operation}

theorem inOrder (h : op.Stands config plan dealings) (horder : Dealing.InOrder config plan dealings)
    (hdeals : op.Deals dealt) : Dealing.InOrder config plan (dealings ++ dealt) := by
  cases hdeals with
  | nothing =>
      rw [List.append_nil]
      exact horder
  | asked hasking => exact horder.snoc (h.due _ _ (Bool.and_eq_true_iff.mp hasking).1)
  | answered hseq => exact horder.snoc (h.isInOrder_answered hseq _ _)

theorem continues (h : op.Stands config plan dealings)
    (horder : Dealing.InOrder config plan dealings) (hnew : op.Continues config dealt new) :
    new.Stands config plan (dealings ++ dealt) := by
  cases hnew with
  | rest =>
      rw [List.append_nil]
      exact h
  | ask hasking seq deadline =>
      obtain ⟨hdue, hsteps⟩ := Bool.and_eq_true_iff.mp hasking
      rw [Bool.not_eq_true', List.isEmpty_eq_false_iff] at hsteps
      exact h.ask hdue hsteps seq deadline
  | answer hseq hnew => exact h.answer horder hseq hnew

end Operation.Stands

/-- Whether a refusal of the last request is final: what is to be deleted is not gone already, and
the refusal is not for the moment, or comes after as many repetitions as are allowed. -/
def Dealing.Exhausts (config : Config) (dealings : List Dealing) (fault : Fault) : Prop :=
  ∃ step left, lastLeft dealings = some (step :: left) ∧ step.isMoot fault = false ∧
    ((∃ errno ∈ [Errno.again, Errno.busy, Errno.interrupted], fault.errno? = some errno) →
      config.maxRetries.toNat < attempts dealings (step :: left))

theorem Operation.Stands.refused_of_exhausts {config : Config} {plan : List Step}
    {dealings : List Dealing} {op : Operation} (h : op.Stands config plan dealings) {seq : UInt32}
    (hseq : op.seq? = some seq) {fault : Fault}
    (hexhausts : Dealing.Exhausts config dealings fault) :
    op.isMoot fault = false ∧ (fault.isTransient && op.attempt < config.maxRetries) = false := by
  have hcount := h.attempts
  obtain ⟨before, sent, step, left, hsteps, rfl⟩ := h.waiting seq hseq
  obtain ⟨other, rest, hlast, hmoot, hbudget⟩ := hexhausts
  rw [Dealing.lastLeft_asked, Option.some.injEq, List.cons.injEq] at hlast
  obtain ⟨rfl, rfl⟩ := hlast
  rw [hsteps, hseq, Option.isSome_some, if_pos rfl] at hcount
  refine ⟨?_, Bool.eq_false_iff.mpr fun hagain => ?_⟩
  · rw [isMoot_eq, hsteps]
    exact hmoot
  · rw [Bool.and_eq_true, decide_eq_true_iff, UInt32.lt_iff_toNat_lt,
      Dealing.isTransient_iff] at hagain
    have hover := hbudget hagain.1
    omega

/-- Whether an episode is in order after others. -/
structure Episode.Follows (config : Config) (past : List Episode) (episode : Episode) : Prop where
  /-- It tells of all that is sent in it. -/
  written : ∃ reserved place next after, World.Occurs reserved place [episode] next after ∧
    after.channel.sent = episode.datagrams.reverse ++ place.channel.sent
  /-- Each request is the first of those that are left to an operation that was planned, which ends
  if nothing can be sent. -/
  sent : ∀ dispatch ∈ episode.dispatches,
    (∃ planning ∈ plannings past, planning.id = dispatch.id) ∧
      (∃ place : World, ∃ step rest, place.session.config = config ∧
        dispatch.left = step :: rest ∧ place.Writes dispatch.seq step dispatch.datagrams) ∧
      (dispatch.datagrams = [] → ∃ fault, (dispatch.id, .error fault) ∈ episode.moment.ended)
  /-- A refusal that is final ends its operation. -/
  refused : ∀ id fault, episode.moment.answerTo? id = some (.error fault) →
    Dealing.Exhausts config (dealings past id) fault →
      ∃ planning ∈ plannings past, planning.id = id ∧
        (id, .error (fault.during planning.start.text)) ∈ episode.moment.ended

/-- What holds of a session with a history in episodes, whatever is called. -/
structure World.Dealt (episodes : List Episode) (world : World) : Prop where
  known : ∀ id, Episode.dealings episodes id ≠ [] →
    ∃ planning ∈ Episode.plannings episodes, planning.id = id
  inOrder : ∀ planning ∈ Episode.plannings episodes,
    Dealing.InOrder world.session.config planning.steps (Episode.dealings episodes planning.id)
  stands : ∀ op ∈ world.session.operations, ∀ planning ∈ Episode.plannings episodes,
    planning.id = op.id →
      op.Stands world.session.config planning.steps (Episode.dealings episodes op.id)
  follows : ∀ past episode later, episodes = past ++ episode :: later →
    episode.Follows world.session.config past
  ended : ∀ past episode later, episodes = past ++ episode :: later →
    ∀ entry ∈ episode.moment.ended, Episode.dealings later entry.1 = []

namespace World.Dealt

open Episode (plannings dealings)

variable {reserved next : Option Nat} {episodes : List Episode} {episode : Episode}
  {world after : World}

theorem same (h : Dealt episodes world) (hconfig : after.session.config = world.session.config)
    (hoperations : after.session.operations = world.session.operations) : Dealt episodes after where
  known := h.known
  inOrder := by
    rw [hconfig]
    exact h.inOrder
  stands := by
    rw [hconfig, hoperations]
    exact h.stands
  follows := by
    rw [hconfig]
    exact h.follows
  ended := h.ended

/-- Every operation that deals with the kernel's side was planned, and stands where its dealings
have brought it. -/
theorem exists_planning (h : Dealt episodes world)
    (htold : Told reserved (episodes.map Episode.moment) world) {op : Operation}
    (hop : op ∈ world.session.operations) :
    ∃ planning ∈ plannings episodes, planning.id = op.id ∧ planning.start.text = op.text ∧
      op.Stands world.session.config planning.steps (dealings episodes op.id) := by
  obtain ⟨planning, hplanning, hpursued⟩ := htold.pursued op hop
  refine ⟨planning, hplanning, hpursued.id.symm, ?_, h.stands op hop planning hplanning
    hpursued.id.symm⟩
  rw [Operation.text, Operation.text, hpursued.goal, hpursued.desired]
  rfl

theorem episode_follows (h : Dealt episodes world)
    (htold : Told reserved (episodes.map Episode.moment) world)
    (hchange : Occurs reserved world [episode] next after) (hdeals : world.Deals episode after) :
    episode.Follows world.session.config episodes where
  written := ⟨reserved, world, next, after, hchange, hdeals.written⟩
  sent dispatch hdispatch := by
    obtain ⟨⟨op, hop, hid⟩, ⟨place, step, rest, hsends, hwrites⟩, hunsent⟩ :=
      hdeals.sent dispatch hdispatch
    obtain ⟨planning, hplanning, hsame, -⟩ := h.exists_planning htold hop
    exact ⟨⟨planning, hplanning, hsame.trans hid⟩,
      ⟨place, step, rest, by rw [hsends.session], hwrites⟩, hunsent⟩
  refused id fault hfault hexhausts := by
    obtain ⟨op, hop, rfl, ⟨seq, hseq⟩, hended⟩ := hdeals.refused id fault hfault
    obtain ⟨planning, hplanning, hid, htext, hstands⟩ := h.exists_planning htold hop
    obtain ⟨hmoot, hfinal⟩ := hstands.refused_of_exhausts hseq hexhausts
    refine ⟨planning, hplanning, hid, ?_⟩
    rw [htext]
    exact hended hmoot hfinal

theorem eq_of_planned (htold : Told next ((episodes ++ [episode]).map Episode.moment) after)
    {planning other : Planning} (hplanning : planning ∈ plannings (episodes ++ [episode]))
    (hother : other ∈ plannings (episodes ++ [episode])) (hid : planning.id = other.id) :
    planning = other :=
  List.inj_on_of_nodup_map htold.distinct hplanning hother hid

section

variable (h : Dealt episodes world) (htold : Told reserved (episodes.map Episode.moment) world)
  (hafter : Told next ((episodes ++ [episode]).map Episode.moment) after)
  (hdeals : world.Deals episode after)

include h htold hafter hdeals

theorem dealings_of_planned {planning : Planning}
    (hplanned : episode.moment.planned = some planning) :
    dealings (episodes ++ [episode]) planning.id = [] := by
  have hnew (other : Planning) (hother : other ∈ plannings episodes) : other.id ≠ planning.id := by
    have hdistinct := hafter.distinct
    rw [List.map_append, List.map_singleton, Moment.plannings_snoc, hplanned, List.map_append,
      List.nodup_append] at hdistinct
    exact hdistinct.2.2 other.id (List.mem_map_of_mem hother) planning.id List.mem_cons_self
  rw [Episode.dealings_snoc, List.append_eq_nil_iff]
  constructor
  · by_contra hknown
    obtain ⟨other, hother, hid⟩ := h.known planning.id hknown
    exact hnew other hother hid
  · by_contra hdealt
    obtain ⟨op, hop, hid⟩ := hdeals.known planning.id hdealt
    obtain ⟨other, hother, hsame, -⟩ := h.exists_planning htold hop
    exact hnew other hother (hsame.trans hid)

theorem inOrder_snoc {planning : Planning}
    (hplanning : planning ∈ plannings (episodes ++ [episode])) :
    Dealing.InOrder world.session.config planning.steps
      (dealings (episodes ++ [episode]) planning.id) := by
  rw [Episode.plannings_snoc, List.mem_append, Option.mem_toList] at hplanning
  rcases hplanning with hbefore | hplanned
  · rw [Episode.dealings_snoc]
    by_cases hdealt : episode.dealt planning.id = []
    · rw [hdealt, List.append_nil]
      exact h.inOrder planning hbefore
    · obtain ⟨op, hop, hid⟩ := hdeals.known planning.id hdealt
      have hstands := h.stands op hop planning hbefore hid.symm
      rw [← hid]
      exact hstands.inOrder (hid ▸ h.inOrder planning hbefore) (hdeals.deals op hop)
  · rw [h.dealings_of_planned htold hafter hdeals hplanned]
    exact .nil

theorem stands_snoc {new : Operation} (hnew : new ∈ after.session.operations) {planning : Planning}
    (hplanning : planning ∈ plannings (episodes ++ [episode])) (hid : planning.id = new.id) :
    new.Stands world.session.config planning.steps (dealings (episodes ++ [episode]) new.id) := by
  rcases hdeals.kept new hnew with ⟨op, hop, hcontinues⟩ | ⟨fresh, hplanned, rfl⟩
  · obtain ⟨known, hknown, hsame, -, hstands⟩ := h.exists_planning htold hop
    have hearlier : known ∈ plannings (episodes ++ [episode]) := by
      simp [Episode.plannings_snoc, hknown]
    obtain rfl := eq_of_planned hafter hplanning hearlier
      (hid.trans (hcontinues.id.trans hsame.symm))
    rw [hcontinues.id, Episode.dealings_snoc]
    exact hstands.continues (hsame ▸ h.inOrder planning hknown) hcontinues
  · have hfresh : fresh ∈ plannings (episodes ++ [episode]) := by
      simp [Episode.plannings_snoc, hplanned]
    obtain rfl := eq_of_planned hafter hplanning hfresh hid
    rw [← hid, h.dealings_of_planned htold hafter hdeals hplanned]
    exact .start

end

/-- An episode takes every operation one dealing further at most. -/
theorem deals (h : Dealt episodes world)
    (htold : Told reserved (episodes.map Episode.moment) world)
    (hafter : Told next ((episodes ++ [episode]).map Episode.moment) after)
    (hchange : Occurs reserved world [episode] next after) (hdeals : world.Deals episode after) :
    Dealt (episodes ++ [episode]) after := by
  refine ⟨fun id hid => ?known, ?inOrder, ?stands, fun past other later hsplit => ?follows,
    fun past other later hsplit entry hentry => ?ended⟩
  case known =>
    obtain ⟨planning, hplanning, hsame⟩ : ∃ planning ∈ plannings episodes, planning.id = id := by
      rw [Episode.dealings_snoc, Ne, List.append_eq_nil_iff, not_and_or] at hid
      rcases hid with hbefore | hnow
      · exact h.known id hbefore
      · obtain ⟨op, hop, rfl⟩ := hdeals.known id hnow
        obtain ⟨planning, hplanning, hsame, -⟩ := h.exists_planning htold hop
        exact ⟨planning, hplanning, hsame⟩
    exact ⟨planning, by simp [Episode.plannings_snoc, hplanning], hsame⟩
  case inOrder =>
    rw [hdeals.config]
    exact fun planning => h.inOrder_snoc htold hafter hdeals
  case stands =>
    rw [hdeals.config]
    exact fun new hnew planning => h.stands_snoc htold hafter hdeals hnew
  case follows =>
    rw [hdeals.config]
    rcases cases_of_snoc_eq hsplit with ⟨-, rfl, rfl⟩ | ⟨rest, -, hbefore⟩
    · exact h.episode_follows htold hchange hdeals
    · exact h.follows past other rest hbefore
  case ended =>
    rcases cases_of_snoc_eq hsplit with ⟨rfl, -, -⟩ | ⟨rest, rfl, hbefore⟩
    · rfl
    · rw [Episode.dealings_snoc, h.ended past other rest hbefore entry hentry, List.nil_append]
      by_contra hdealt
      obtain ⟨op, hop, hid⟩ := hdeals.known entry.1 hdealt
      have hended : entry ∈ Moment.endings (episodes.map Episode.moment) :=
        List.mem_flatMap.mpr ⟨other.moment, by simp [hbefore], hentry⟩
      exact htold.id_ne_of_ended hended hop hid

end World.Dealt

/-- What holds of a session with a history in episodes, and of the moments in these. -/
structure World.Keeps (reserved : Option Nat) (episodes : List Episode) (world : World) : Prop where
  told : world.Told reserved (episodes.map Episode.moment)
  delivers : world.Delivers (episodes.map Episode.moment)
  dealt : world.Dealt episodes
  changes : world.channel.changes = episodes.flatMap Episode.datagrams

namespace World.Keeps

variable {reserved next : Option Nat} {episodes more : List Episode} {world after : World}

theorem occurs (h : Keeps reserved episodes world)
    (hchange : Occurs reserved world more next after) : Keeps next (episodes ++ more) after := by
  have htold := h.told.happens h.delivers hchange.happens
  rw [← List.map_append] at htold
  rcases hchange.deals h.told.nodup_ids with
    ⟨rfl, hconfig, hoperations, hchanges⟩ | ⟨episode, rfl, hdeals⟩
  · rw [List.append_nil] at htold ⊢
    exact ⟨htold.1, htold.2, h.dealt.same hconfig hoperations, hchanges.trans h.changes⟩
  · refine ⟨htold.1, htold.2, h.dealt.deals h.told htold.1 hchange hdeals, ?_⟩
    rw [hdeals.changes, h.changes, List.flatMap_append, List.flatMap_singleton]

theorem plays (h : Keeps reserved episodes world) (hpath : Plays reserved world more next after) :
    Keeps next (episodes ++ more) after := by
  induction hpath with
  | nil =>
      rw [List.append_nil]
      exact h
  | snoc _ hchange ih =>
      rw [← List.append_assoc]
      exact ih.occurs hchange

end World.Keeps

theorem Enacted.keeps {episodes : List Episode} {world : World} (h : Enacted episodes world) :
    world.Keeps none episodes := by
  induction h with
  | opened config files hchannel hsent =>
      obtain ⟨htold, hdelivers⟩ := (Recorded.opened config files hchannel).told
      refine ⟨htold, hdelivers, ⟨fun id hid => absurd rfl hid, ?_, ?_, ?_, ?_⟩, ?_⟩
      · exact fun _ hplanning => absurd hplanning List.not_mem_nil
      · exact fun _ hop => absurd hop List.not_mem_nil
      · exact fun _ _ _ hsplit => absurd hsplit (by simp)
      · exact fun _ _ _ hsplit => absurd hsplit (by simp)
      · rw [World.new, Channel.changes, hsent]
        rfl
  | disturbed h now horizon hchannel hsent ih =>
      exact ⟨ih.told.same hchannel rfl rfl rfl rfl,
        ⟨ih.delivers.results, ih.delivers.handed, ih.delivers.ended⟩, ih.dealt.same rfl rfl,
        (Channel.changes_of_sent hsent).trans ih.changes⟩
  | watched h hsame ih =>
      exact ⟨ih.told.same ih.told.timely rfl hsame rfl rfl,
        ⟨ih.delivers.results, ih.delivers.handed, ih.delivers.ended⟩, ih.dealt.same rfl rfl,
        ih.changes⟩
  | called h call hmore ih => exact ih.plays hmore

/-- In every history, the requests of each operation follow its plan in order: the next one comes
once the one before is acknowledged under its number, or what it was to delete is gone. None is made
more often than once and the repetitions that are allowed. Each repetition follows a refusal for the
moment, and not before the delay is over that so many failures ask for. Any other refusal, or one
too many, ends the operation, and no request of it comes after that. And no request for a change has
been sent but those of the operations. -/
theorem Enacted.requests_in_order {episodes : List Episode} {world : World}
    (h : Enacted episodes world) :
    (∀ planning ∈ Episode.plannings episodes,
      Dealing.InOrder world.session.config planning.steps
        (Episode.dealings episodes planning.id) ∧
      ∀ left, Dealing.attempts (Episode.dealings episodes planning.id) left ≤
        1 + world.session.config.maxRetries.toNat) ∧
    (∀ past episode later, episodes = past ++ episode :: later →
      episode.Follows world.session.config past ∧
        ∀ id result, (id, result) ∈ episode.moment.ended → Episode.dealings later id = []) ∧
    world.channel.changes = episodes.flatMap Episode.datagrams := by
  have hdealt := h.keeps.dealt
  refine ⟨fun planning hplanning => ?_, fun past episode later hsplit => ?_, h.keeps.changes⟩
  · have horder := hdealt.inOrder planning hplanning
    exact ⟨horder, horder.attempts_le⟩
  · exact ⟨hdealt.follows past episode later hsplit,
      fun id result hentry => hdealt.ended past episode later hsplit (id, result) hentry⟩

namespace World

/-- The world in which the link is asked for again for which the kernel had no time at first. -/
def resent : World :=
  Call.drive.after { postponed with horizon := 10000000000 }

end World

namespace Enacted

theorem befallen {episodes : List Episode} {world : World} (h : Enacted episodes world)
    (horizon : Nat) (peer : Peer) :
    Enacted episodes { world with horizon, channel := { world.channel with peer } } :=
  h.disturbed world.now horizon h.keeps.told.timely rfl

theorem exists_resent : ∃ episodes, Enacted episodes World.resent := by
  have hequipped : Enacted [] World.equipped := .opened _ _ World.isTimely_equipped rfl
  obtain ⟨_, hasked⟩ := (hequipped.befallen 0 _).exists_called
    (.submit (.link (.new "a" .dummy)) .present)
  obtain ⟨_, hpostponed⟩ := hasked.exists_called .drive
  obtain ⟨_, hresent⟩ := (hpostponed.befallen 10000000000 _).exists_called .drive
  exact ⟨_, hresent⟩

theorem requests_in_order_resent :
    ∃ episodes planning, Enacted episodes World.resent ∧
      planning ∈ Episode.plannings episodes ∧ planning.id = 1 ∧
      Dealing.attempts (Episode.dealings episodes 1) [⟨.link (.new "a" .dummy), .create⟩] = 2 ∧
      Dealing.InOrder World.resent.session.config planning.steps (Episode.dealings episodes 1) := by
  obtain ⟨episodes, h⟩ := exists_resent
  obtain ⟨op, hop⟩ : ∃ op, World.resent.session.operations = [op] :=
    List.length_eq_one_iff.mp (by decide +kernel)
  have hstage : World.resent.session.operations.map
      (fun op => (op.id, op.steps, op.attempt, op.seq?.isSome)) =
        [(1, [⟨.link (.new "a" .dummy), .create⟩], 1, true)] := by decide +kernel
  rw [hop] at hstage
  obtain ⟨hid, hsteps, hattempt, hseq⟩ : op.id = 1 ∧
      op.steps = [⟨.link (.new "a" .dummy), .create⟩] ∧ op.attempt = 1 ∧
        op.seq?.isSome = true := by
    simpa using hstage
  obtain ⟨planning, hplanning, hsame, -, hstands⟩ :=
    h.keeps.dealt.exists_planning h.keeps.told (hop ▸ List.mem_singleton_self op)
  have hcount := hstands.attempts
  rw [hid, hsteps, hattempt, hseq] at hcount
  have horder := (h.requests_in_order.1 planning hplanning).1
  rw [hsame, hid] at horder
  exact ⟨episodes, planning, h, hplanning, hsame.trans hid, hcount, horder⟩

end Enacted

end NetState
