import NetState.Proofs.Session.Stage

/-!
What becomes of the loss of messages.

A session that has taken note of a loss is stale until a round over all kinds begins. The mark is
gone from then on, also if the round does not end: so a loss is made good or still known of after
every call, unless a call that had begun a round after it ended with a fault.
-/

namespace NetState

def Mark.synced? : Mark → Option Kind
  | synced kind => some kind
  | _ => none

namespace Mark

/-- Whether marks tell of a part of one round: no other round begins and no call fails. -/
def Uninterrupted (round : List Mark) : Prop :=
  .began ∉ round ∧ .failed ∉ round

/-- Whether marks tell of a round that brought every kind up to date. -/
def Completes (trace : List Mark) : Prop :=
  ∃ before round after, trace = before ++ .began :: round ++ after ∧ Uninterrupted round ∧
    round.filterMap synced? = Kind.all

/-- Whether marks tell of a round that a fault ended. -/
def Breaks (trace : List Mark) : Prop :=
  ∃ before round after, trace = before ++ .began :: round ++ .failed :: after ∧
    Uninterrupted round ∧ round.filterMap synced? ≠ Kind.all

/-- Whether marks end with a round that is still to bring some kinds up to date. -/
def Continues (trace : List Mark) (left : List Kind) : Prop :=
  ∃ before round, trace = before ++ .began :: round ∧ Uninterrupted round ∧
    round.filterMap synced? ++ left = Kind.all

variable {trace more round : List Mark}

theorem losses_cons (first : Incoming) (rest : List Incoming) :
    losses (first :: rest) = losses [first] ++ losses rest :=
  @List.filterMap_append _ _ [first] rest _

theorem eq_overrun_of_mem_losses {incoming : List Incoming} {mark : Mark}
    (h : mark ∈ losses incoming) : mark = .overrun := by
  obtain ⟨element, -, hmark⟩ := List.mem_filterMap.mp h
  cases element <;> simp_all

theorem losses_besides (seq : UInt32) (incoming : List Incoming) :
    losses (Flow.besides seq incoming) = losses incoming := by
  rw [losses, losses, Flow.besides, List.filterMap_filter]
  refine List.filterMap_congr fun element _ => ?_
  cases element with
  | reply answered result => exact ite_self _
  | _ => rfl

theorem overrun_of_append {trace marks earlier later : List Mark}
    (h : trace ++ marks = earlier ++ .overrun :: later) :
    .overrun ∈ marks ∨
      ∃ before, trace = earlier ++ .overrun :: before ∧ later = before ++ marks := by
  rcases List.append_eq_append_iff.mp h with ⟨more, -, hmarks⟩ | ⟨more, htrace, hlater⟩
  · exact Or.inl (by simp [hmarks])
  · cases more with
    | nil => exact Or.inl (by simp [← List.nil_append marks ▸ hlater])
    | cons first before =>
        obtain ⟨rfl, rfl⟩ := List.cons.inj hlater
        exact Or.inr ⟨before, htrace, rfl⟩

theorem Uninterrupted.append (h : Uninterrupted round) (hmore : Uninterrupted more) :
    Uninterrupted (round ++ more) :=
  ⟨fun hmem => (List.mem_append.mp hmem).elim h.1 hmore.1,
    fun hmem => (List.mem_append.mp hmem).elim h.2 hmore.2⟩

theorem Completes.append (h : Completes trace) (more : List Mark) : Completes (trace ++ more) := by
  obtain ⟨before, round, after, rfl, hround, hall⟩ := h
  exact ⟨before, round, after ++ more, List.append_assoc _ _ _, hround, hall⟩

theorem Breaks.append (h : Breaks trace) (more : List Mark) : Breaks (trace ++ more) := by
  obtain ⟨before, round, after, rfl, hround, hsome⟩ := h
  exact ⟨before, round, after ++ more, by simp, hround, hsome⟩

theorem Continues.append {left rest : List Kind} (h : Continues trace left)
    (hmore : Uninterrupted more) (hrest : more.filterMap synced? ++ rest = left) :
    Continues (trace ++ more) rest := by
  obtain ⟨before, round, rfl, hround, hall⟩ := h
  refine ⟨before, round ++ more, by simp, hround.append hmore, ?_⟩
  rw [List.filterMap_append, List.append_assoc, hrest, hall]

theorem Continues.completes (h : Continues trace []) : Completes trace := by
  obtain ⟨before, round, rfl, hround, hall⟩ := h
  exact ⟨before, round, [], (List.append_nil _).symm, hround, by rw [← hall, List.append_nil]⟩

theorem Continues.breaks {left : List Kind} (h : Continues trace left) (hleft : left ≠ []) :
    Breaks (trace ++ [.failed]) := by
  obtain ⟨before, round, rfl, hround, hall⟩ := h
  refine ⟨before, round, [], rfl, hround, fun hsame => hleft ?_⟩
  rw [← hsame] at hall
  exact List.self_eq_append_right.mp hall.symm

end Mark

namespace Session

theorem Replied.stale_eq {session after : Session} {now : Nat} {seq : UInt32}
    {result : Except Fault Reply} (h : session.Replied now seq result after) :
    after.stale = session.stale := by
  cases h <;> rfl

theorem stale_takeRemoval (session : Session) (slot : Slot) :
    (session.takeRemoval slot).stale = session.stale := by
  rcases session.takeRemoval_cases slot with ⟨-, hkept⟩ | ⟨l, -, hgone⟩
  · rw [hkept]
    rfl
  · rw [hgone]
    rfl

/-- What comes in marks a session just if it tells of a loss. -/
theorem stale_take (session : Session) (now : Nat) (incoming : Incoming) :
    (session.take now incoming).stale = true ↔
      session.stale = true ∨ .overrun ∈ Mark.losses [incoming] := by
  cases incoming with
  | notice kind change object =>
      cases change with
      | new => simp [take, Mark.losses, confirm, conclude]
      | del => simp [take, Mark.losses, stale_takeRemoval]
  | reply seq result =>
      have hreply := (session.replied_takeReply now seq result).stale_eq
      simp [take, Mark.losses, confirm, conclude, hreply]
  | part seq objects => simp [take, Mark.losses, confirm, conclude]
  | overrun => simp [take, Mark.losses, confirm, conclude]

theorem stale_takeAll (session : Session) (now : Nat) (incoming : List Incoming) :
    (incoming.foldl (Session.take · now) session).stale = true ↔
      session.stale = true ∨ .overrun ∈ Mark.losses incoming := by
  induction incoming generalizing session with
  | nil => simp [Mark.losses]
  | cons first rest ih =>
      rw [List.foldl_cons, ih, stale_take, Mark.losses_cons first rest, List.mem_append, or_assoc]

theorem stale_reconcile (session : Session) (kind : Kind) (objects : List Object) :
    (session.reconcile kind objects).2.stale = session.stale := by
  rw [reconcile]
  rcases session.watched.reconcile kind objects with ⟨tally, watched⟩
  exact @List.foldlRecOn _ _ (fun after : Session => after.stale = session.stale) _ abandon _ rfl
    fun _ hbefore _ _ => hbefore

end Session

/-- What a move does to the mark of a session and to the round under way: a round begins, or it goes
on with the next kind, or else it stays as it is and the session is marked if a loss is told. -/
inductive Move.Kept (control : Control) (world : World) (marks : List Mark) (next : Control)
    (after : World) : Prop where
  | began (hmarks : marks = [.began]) (hround : next.round = some Kind.all)
  | synced (kind : Kind) (hmarks : marks = [.synced kind]) (hnext : next = control.advance)
      (hround : ∀ left, control.round = some left → left.head? = some kind)
      (hstale : after.session.stale = world.session.stale)
  | other (hmarks : ∀ mark ∈ marks, mark ≠ .began ∧ mark ≠ .failed ∧ mark.synced? = none)
      (hround : next.round = control.round)
      (hstale : after.session.stale = true ↔ world.session.stale = true ∨ .overrun ∈ marks)

variable {control next : Control} {world after : World} {marks trace : List Mark}

theorem Move.Kept.of_losses {incoming : List Incoming}
    (hmarks : marks = Mark.losses incoming ∨
      ∃ received, marks = .delivered received :: Mark.losses incoming)
    (hround : next.round = control.round)
    (hstale : after.session.stale = true ↔
      world.session.stale = true ∨ .overrun ∈ Mark.losses incoming) :
    Move.Kept control world marks next after := by
  refine .other (fun mark hmark => ?_) hround (hstale.trans ?_)
  · have hcases : mark = .overrun ∨ ∃ received, mark = .delivered received := by
      rcases hmarks with rfl | ⟨received, rfl⟩
      · exact Or.inl (Mark.eq_overrun_of_mem_losses hmark)
      · exact (List.mem_cons.mp hmark).elim (fun heq => Or.inr ⟨received, heq⟩)
          fun hloss => Or.inl (Mark.eq_overrun_of_mem_losses hloss)
    rcases hcases with rfl | ⟨received, rfl⟩ <;> exact ⟨by simp, by simp, rfl⟩
  · rcases hmarks with rfl | ⟨received, rfl⟩ <;> simp

theorem Move.Kept.of_plain
    (hplain : marks = [] ∨ (∃ count, marks = [.requested count]) ∨
      ∃ received, marks = [.delivered received])
    (hround : next.round = control.round) (hstale : after.session.stale = world.session.stale) :
    Move.Kept control world marks next after := by
  refine .other ?_ hround ?_
  · rcases hplain with rfl | ⟨count, rfl⟩ | ⟨received, rfl⟩ <;> simp [Mark.synced?]
  · rw [hstale]
    rcases hplain with rfl | ⟨count, rfl⟩ | ⟨received, rfl⟩ <;> simp

theorem Control.round_answered (control : Control) (kind : Kind)
    (answer : Option (Except Fault Reply)) :
    (control.answered kind answer).round = control.round := by
  rcases answer with _ | _ | _ | _ <;> rfl

theorem Move.kept (hmove : Move control world marks next after) :
    Move.Kept control world marks next after := by
  cases hmove with
  | ask hlisting htransmit =>
      exact .of_plain (.inr (.inl ⟨_, rfl⟩)) rfl
        (by rw [(World.sends_transmit htransmit).session])
  | askInVain hlisting htransmit =>
      exact .of_plain (.inr (.inl ⟨_, rfl⟩)) rfl
        (by rw [(World.sends_transmit htransmit).session])
  | @hear seq kind received channel exchange incoming hlisting hreceived hexchange =>
      refine .of_losses (.inr ⟨received, rfl⟩) (control.round_answered kind _) ?_
      rw [← Mark.losses_besides seq]
      exact Session.stale_takeAll { world.session with exchange } world.now _
  | cutOff => exact .of_plain (.inr (.inr ⟨_, rfl⟩)) rfl rfl
  | giveUp => exact .of_plain (.inl rfl) rfl rfl
  | @sync kind objects hlisting hgathers hround =>
      exact .synced kind rfl rfl hround (world.session.stale_reconcile kind objects)
  | begin => exact .began rfl rfl
  | @take received channel exchange incoming hlisting hreceived hexchange =>
      exact .of_losses (.inl rfl) rfl
        (Session.stale_takeAll { world.session with exchange } world.now _)
  | miss => exact .of_plain (.inl rfl) rfl rfl
  | pass => exact .of_plain (.inl rfl) rfl rfl
  | expire => exact .of_plain (.inl rfl) rfl rfl
  | pump =>
      obtain ⟨exchange, results, hsession⟩ := World.session_pump world
      exact .of_plain (.inr (.inl ⟨_, rfl⟩)) rfl (by rw [hsession])
  | reserve => exact .of_plain (.inl rfl) rfl rfl
  | start => exact .of_plain (.inl rfl) rfl rfl
  | note => exact .of_plain (.inl rfl) rfl rfl
  | probe => exact .of_plain (.inl rfl) rfl rfl

/-- What is known of a loss after the moves that have been told since. -/
inductive World.Remembers (later : List Mark) (control : Control) (world : World) : Prop where
  /-- It is known still. -/
  | stale (h : world.session.stale = true)
  /-- It has been made good. -/
  | completed (h : Mark.Completes later)
  /-- It is being made good. -/
  | continuing {left : List Kind} (hround : control.round = some left) (hleft : left ≠ [])
      (h : Mark.Continues later left)
  /-- It was forgotten when a fault ended the round that was to make it good. -/
  | broken (h : Mark.Breaks later)

theorem World.Remembers.move {later : List Mark} (hmove : Move control world marks next after)
    (h : world.Remembers later control) : after.Remembers (later ++ marks) next := by
  cases hmove.kept with
  | began hmarks hround =>
      subst hmarks
      exact .continuing hround (by decide) ⟨later, [], rfl, ⟨by simp, by simp⟩, rfl⟩
  | synced kind hmarks hnext hround hstale =>
      subst hmarks hnext
      have hplain : Mark.Uninterrupted [.synced kind] := ⟨by simp, by simp⟩
      cases h with
      | stale h => exact .stale (hstale.trans h)
      | completed h => exact .completed (h.append _)
      | broken h => exact .broken (h.append _)
      | @continuing left hleftRound hleft h =>
          obtain ⟨first, rest, rfl⟩ := List.exists_cons_of_ne_nil hleft
          obtain rfl : first = kind := Option.some.inj (hround _ hleftRound)
          have hmore : Mark.Continues (later ++ [.synced first]) rest := h.append hplain rfl
          cases rest with
          | nil => exact .completed hmore.completes
          | cons second rest =>
              refine .continuing ?_ (List.cons_ne_nil second rest) hmore
              rw [Control.advance, hleftRound]
              rfl
  | other hmarks hround hstale =>
      cases h with
      | stale h => exact .stale (hstale.mpr (Or.inl h))
      | completed h => exact .completed (h.append marks)
      | broken h => exact .broken (h.append marks)
      | continuing hleftRound hleft h =>
          refine .continuing (hround.trans hleftRound) hleft (h.append ⟨?_, ?_⟩ ?_)
          · exact fun hmem => (hmarks _ hmem).1 rfl
          · exact fun hmem => (hmarks _ hmem).2.1 rfl
          · rw [List.filterMap_eq_nil_iff.mpr fun mark hmark => (hmarks mark hmark).2.2]
            rfl

theorem World.remembers_of_mem (hmove : Move control world marks next after)
    (hmem : .overrun ∈ marks)
    (later : List Mark) : after.Remembers later next := by
  cases hmove.kept with
  | began hmarks hround => exact absurd hmem (by simp [hmarks])
  | synced kind hmarks hnext hround hstale => exact absurd hmem (by simp [hmarks])
  | other hmarks hround hstale => exact .stale (hstale.mpr (Or.inr hmem))

theorem World.Remembers.same {later : List Mark} (h : world.Remembers later control)
    (hstale : after.session.stale = world.session.stale) : after.Remembers later control := by
  cases h with
  | stale h => exact .stale (hstale.trans h)
  | completed h => exact .completed h
  | continuing hround hleft h => exact .continuing hround hleft h
  | broken h => exact .broken h

theorem World.Remembers.fail {later : List Mark} (h : world.Remembers later control) :
    world.Remembers (later ++ [.failed]) next := by
  cases h with
  | stale h => exact .stale h
  | completed h => exact .completed (h.append _)
  | continuing hround hleft h => exact .broken (h.breaks hleft)
  | broken h => exact .broken (h.append _)

/-- A loss of messages that was taken note of is known after every later call, unless a round begun
since then has brought every kind up to date, or has been ended by a fault. -/
theorem Operated.stale_or_completes {earlier later : List Mark} (h : Operated trace world)
    (htrace : trace = earlier ++ .overrun :: later) :
    world.session.stale = true ∨ Mark.Completes later ∨ Mark.Breaks later := by
  -- The invariant is about every loss in the trace, since a later one may come on top of this one.
  have hremembers : world.Remembers later .idle := by
    refine @keeps _ _ (fun trace control world => ∀ earlier later,
      trace = earlier ++ .overrun :: later → world.Remembers later control) h ?opened ?disturbed
        ?watched ?moved ?failed _ _ htrace
    case opened =>
      intro config files channel earlier later hnil
      exact absurd hnil (by simp)
    case disturbed =>
      intro trace world now horizon channel hbefore earlier later htrace
      exact (hbefore earlier later htrace).same rfl
    case watched =>
      intro trace world watched _ hbefore earlier later htrace
      exact (hbefore earlier later htrace).same rfl
    case moved =>
      intro trace marks control next world after hmove hbefore earlier later htrace
      rcases Mark.overrun_of_append htrace with hmem | ⟨before, hsplit, rfl⟩
      · exact World.remembers_of_mem hmove hmem later
      · exact (hbefore earlier before hsplit).move hmove
    case failed =>
      intro trace control world _ hbefore earlier later htrace
      rcases Mark.overrun_of_append htrace with hmem | ⟨before, hsplit, rfl⟩
      · exact absurd (List.mem_singleton.mp hmem) (by simp)
      · exact (hbefore earlier before hsplit).fail
  cases hremembers with
  | stale h => exact Or.inl h
  | completed h => exact Or.inr (Or.inl h)
  | continuing hround hleft h => exact absurd hround (by simp [Control.idle])
  | broken h => exact Or.inr (Or.inr h)

/-- A new world in which messages are lost next. -/
def World.overrunning : World :=
  { equipped with
    channel := { equipped.channel with peer := { equipped.channel.peer with overruns := 1 } } }

theorem Operated.overrunning :
    Operated [.requested 0, .overrun, .requested 0] (Call.drive.after World.overrunning) := by
  have hreceived : World.overrunning.pump.channel.receive? =
      some (.error (.io Errno.noBuffers), World.equipped.channel) := rfl
  have hexchange : World.overrunning.pump.session.exchange.receive (.error (.io Errno.noBuffers)) =
      .ok (World.overrunning.session.exchange, [.overrun]) := rfl
  have hmoves := (((Moves.single (@Move.pump .idle World.overrunning rfl)).snoc
    (Move.take rfl hreceived hexchange)).snoc Move.expire).snoc (Move.pump rfl)
  exact @called _ _ _ _ _ .drive (.ok ()) (Operated.equipped.disturbed 0 0 _) rfl hmoves rfl

theorem Operated.stale_or_completes_overrunning :
    (Call.drive.after World.overrunning).session.stale = true ∨
      Mark.Completes [.requested 0] ∨ Mark.Breaks [.requested 0] :=
  Operated.overrunning.stale_or_completes (rfl : _ = [Mark.requested 0] ++ _)

/-- A new world in which messages are lost next, and with them the news of a link. -/
def World.uninformed : World :=
  { overrunning with
    channel :=
      { overrunning.channel with
        peer := (overrunning.channel.peer.intervene (.link (.new "a" .dummy)) .present true).1 } }

/-- The world after note was taken of the loss; listing links will fail once. -/
def World.forgetting : World :=
  let world := Call.drive.after uninformed
  { world with
    channel :=
      { world.channel with
        peer := { world.channel.peer with failures := [(MessageType.getLink, 16)] } } }

/-- A round that fails forgets the loss that it was to make good: the session is not stale any more,
and does not know the link. -/
theorem Operated.exists_overrun_forgotten :
    ∃ trace world after fault, Operated trace world ∧ world.session.stale = true ∧
      Call.syncAll.flow.result world = (.error (.fault fault), after) ∧
      after.session.stale = false ∧
      ∃ object ∈ after.channel.peer.objects .link, after.session.inventory.find? object = none := by
  have huninformed : Operated [] World.uninformed := Operated.equipped.disturbed _ _ _
  obtain ⟨trace, h⟩ := huninformed.exists_after .drive (by decide +kernel)
  exact ⟨trace, World.forgetting, Call.syncAll.after World.forgetting,
    .kernelDuring "dump link" 16 none, h.disturbed _ _ _, by decide +kernel,
    Prod.ext (by decide +kernel) rfl, by decide +kernel, by decide +kernel⟩

end NetState
