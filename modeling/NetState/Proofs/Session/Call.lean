import NetState.Proofs.Session.Move
import NetState.Proofs.Session.Plan

namespace NetState

namespace Kind.Gathers

variable {kind : Kind} {answers more : List (Kind × List Object)} {objects others : List Object}

theorem nil (answers : List (Kind × List Object)) : kind.Gathers answers [] :=
  ⟨[], List.nil_sublist _, rfl⟩

theorem single (objects : List Object) : kind.Gathers [(kind, objects)] objects :=
  ⟨[objects], List.Sublist.refl _, List.flatten_singleton.symm⟩

theorem append (h : kind.Gathers answers objects) (hmore : kind.Gathers more others) :
    kind.Gathers (answers ++ more) (objects ++ others) := by
  obtain ⟨parts, hparts, rfl⟩ := h
  obtain ⟨rest, hrest, rfl⟩ := hmore
  refine ⟨parts ++ rest, ?_, List.flatten_append.symm⟩
  rw [List.map_append]
  exact hparts.append hrest

end Kind.Gathers

namespace Control

/-- Whether a call goes on as before, but for listings of a kind that were answered and hold some
objects. -/
def Hears (control : Control) (kind : Kind) (objects : List Object) (next : Control) : Prop :=
  ∃ more, next = control.heard more ∧ kind.Gathers more objects

/-- Whether a call goes on as before, but for listings that were answered. -/
def Resumes (control next : Control) : Prop :=
  ∃ more, next = control.heard more

variable {control middle next : Control} {kind : Kind} {objects others : List Object}

theorem heard_heard (control : Control) (answers more : List (Kind × List Object)) :
    (control.heard answers).heard more = control.heard (answers ++ more) := by
  rw [heard, heard, heard, List.append_assoc]

theorem heard_nil (control : Control) : control.heard [] = control := by
  rw [heard, List.append_nil]

theorem Resumes.refl (control : Control) : control.Resumes control :=
  ⟨[], control.heard_nil.symm⟩

theorem Resumes.listing_eq (h : control.Resumes next) : next.listing = control.listing := by
  obtain ⟨more, rfl⟩ := h
  rfl

theorem Resumes.trans (h : control.Resumes middle) (hnext : middle.Resumes next) :
    control.Resumes next := by
  obtain ⟨answers, rfl⟩ := h
  obtain ⟨more, rfl⟩ := hnext
  exact ⟨answers ++ more, control.heard_heard _ _⟩

theorem Hears.resumes (h : control.Hears kind objects next) : control.Resumes next := by
  obtain ⟨more, rfl, -⟩ := h
  exact ⟨more, rfl⟩

theorem Hears.append (h : control.Hears kind objects middle)
    (hnext : middle.Hears kind others next) :
    control.Hears kind (objects ++ others) next := by
  obtain ⟨answers, rfl, hobjects⟩ := h
  obtain ⟨more, rfl, hothers⟩ := hnext
  exact ⟨answers ++ more, control.heard_heard _ _, hobjects.append hothers⟩

theorem Resumes.hears_nil (h : control.Resumes next) : control.Hears kind [] next := by
  obtain ⟨more, rfl⟩ := h
  exact ⟨more, rfl, .nil more⟩

theorem Resumes.hears (h : control.Resumes middle) (hnext : middle.Hears kind objects next) :
    control.Hears kind objects next :=
  (h.hears_nil.append hnext)

end Control

namespace Flow

section

variable {control : Control} {seq : UInt32} {kind : Kind}

theorem goes_giveUp {α : Type} (hlisting : control.listing = some (seq, kind)) (world : World)
    (done : α → Control → World → Prop) :
    Goes (giveUp kind seq) control world done (· = { control with listing := none }) := by
  rw [giveUp]
  refine Goes.bind (Goes.session (Move.giveUp hlisting) ?_)
  exact Goes.bind (Goes.get (Goes.throw_fault _ rfl))

theorem goes_listedIn (control : Control) (kind : Kind) (answer : Except Fault Reply)
    (world : World) :
    Goes (listedIn kind answer) (control.answered kind (some answer)) world
      (fun listing next _ => { control with listing := none }.Hears kind listing.1 next)
      (· = { control with listing := none }) := by
  cases answer with
  | ok reply =>
      cases reply with
      | ack => exact Goes.pure (Control.Resumes.refl _).hears_nil
      | listing told objects interrupted => exact Goes.pure ⟨_, rfl, .single objects⟩
  | error fault => exact Goes.throw_fault _ rfl

theorem goes_awaitNext (hlisting : control.listing = some (seq, kind)) (deadline : Nat)
    (world : World) :
    Goes (awaitNext kind seq deadline) control world
      (fun answer next _ => match answer with
        | none => next = control
        | some listing => { control with listing := none }.Hears kind listing.1 next)
      (· = { control with listing := none }) := by
  rw [awaitNext]
  refine Ends.bind ((ends_await world _).mono ?_ fun _ _ => False.elim)
  rintro arrival after (⟨due, -, -, rfl, rfl⟩ | ⟨received, channel, hreceived, rfl, rfl⟩)
  · exact (goes_giveUp hlisting _ _).after (Moves.single (Move.pass (Nat.le_max_left _ _)))
  · refine Ends.bind ((ends_absorb _ received).mono ?_ ?_)
    · rintro incoming after ⟨exchange, hexchange, rfl⟩
      refine Ends.bind (Ends.change (Ends.bind (Ends.change ?_)))
      have hpath := Moves.single (Move.hear hlisting hreceived hexchange)
      cases hanswer : answerTo? seq incoming with
      | none =>
          rw [hanswer] at hpath
          exact Goes.after hpath (Goes.pure rfl)
      | some answer =>
          rw [hanswer] at hpath
          refine Goes.after hpath
            (Goes.bind ((goes_listedIn control kind answer _).mono ?_ fun _ => id))
          intro listing next after hheard
          exact Goes.pure hheard
    · rintro fault after ⟨hfailed, rfl⟩
      exact ⟨_, _, Moves.single (Move.cutOff hlisting hreceived hfailed), rfl⟩

theorem goes_awaitListing (hlisting : control.listing = some (seq, kind)) (deadline count : Nat)
    (world : World) :
    Goes (awaitListing kind seq deadline count) control world
      (fun listing next _ => { control with listing := none }.Hears kind listing.1 next)
      (· = { control with listing := none }) := by
  induction count generalizing world with
  | zero =>
      rw [awaitListing]
      refine Goes.bind ((goes_awaitNext hlisting deadline world).mono ?_ fun _ => id)
      rintro (_ | listing) next place hnext
      · exact Goes.throw_stalled
      · exact Goes.pure hnext
  | succ count ih =>
      rw [awaitListing]
      refine Goes.bind ((goes_awaitNext hlisting deadline world).mono ?_ fun _ => id)
      rintro (_ | listing) next place hnext
      · obtain rfl := hnext
        exact ih place
      · exact Goes.pure hnext

end

section

variable {control : Control} {kind : Kind}

theorem goes_listOnce (hlisting : control.listing = none) (request : Draft) (world : World) :
    Goes (listOnce kind request) control world
      (fun listing next _ => control.Hears kind listing.1 next) control.Resumes := by
  have hsame : { control with listing := none } = control := by rw [← hlisting]
  rw [listOnce]
  refine Ends.bind (Ends.sending ?_ ?_)
  · intro seq after htransmit _
    refine Ends.bind (Ends.get ?_)
    refine Goes.after (Moves.single (Move.ask hlisting htransmit)) ?_
    refine (goes_awaitListing rfl _ _ after).mono ?_ ?_
    · intro listing next place hheard
      exact hsame ▸ hheard
    · rintro next rfl
      exact ⟨[], hsame.trans control.heard_nil.symm⟩
  · intro fault after htransmit _
    exact ⟨_, _, Moves.single (Move.askInVain hlisting htransmit), .refl _⟩

theorem goes_list (hlisting : control.listing = none) (request : Draft) (retries : Nat)
    (world : World) :
    Goes (list kind request retries) control world
      (fun objects next _ => control.Hears kind objects next) control.Resumes := by
  induction retries generalizing control world with
  | zero =>
      rw [list]
      refine Goes.bind ((goes_listOnce hlisting request world).mono ?_ fun _ => id)
      intro listing next place hheard
      exact Goes.pure hheard
  | succ left ih =>
      rw [list]
      refine Goes.bind ((goes_listOnce hlisting request world).mono ?_ fun _ => id)
      rintro ⟨objects, interrupted⟩ next place hheard
      have hresumes := hheard.resumes
      simp only
      split
      · refine (ih (hresumes.listing_eq.trans hlisting) place).mono ?_ ?_
        · exact fun _ _ _ => hresumes.hears
        · exact fun _ => hresumes.trans
      · exact Goes.pure hheard

theorem goes_listed (hlisting : control.listing = none) (request : Draft) (world : World) :
    Goes (listed kind request) control world
      (fun objects next _ => control.Hears kind objects next) control.Resumes := by
  rw [listed]
  exact Goes.bind (Goes.get (goes_list hlisting request _ world))

theorem goes_listedUnless (hlisting : control.listing = none) (expected : Fault → Bool)
    (request : Draft) (world : World) :
    Goes (listedUnless expected kind request) control world
      (fun objects next _ => control.Hears kind objects next) control.Resumes := by
  rw [listedUnless]
  refine Goes.recover (goes_listed hlisting request world) ?_
  intro fault middle place hmiddle
  split
  · exact Goes.pure hmiddle.hears_nil
  · exact Goes.throw_fault _ hmiddle

theorem goes_mapM_listedUnless (hlisting : control.listing = none) (expected : Fault → Bool)
    (request : UInt32 × Handle → Draft) (points : List (UInt32 × Handle)) (world : World) :
    Goes (points.mapM fun point => listedUnless expected kind (request point)) control world
      (fun found next _ => control.Hears kind found.flatten next) control.Resumes := by
  induction points generalizing control world with
  | nil =>
      rw [List.mapM_nil]
      exact Goes.pure (Control.Resumes.refl _).hears_nil
  | cons first rest ih =>
      rw [List.mapM_cons]
      refine Goes.bind
        ((goes_listedUnless hlisting expected (request first) world).mono ?_ fun _ => id)
      intro objects middle place hheard
      have hresumes := hheard.resumes
      refine Goes.bind ((ih (hresumes.listing_eq.trans hlisting) place).mono ?_ ?_)
      · intro found next after hrest
        exact Goes.pure (hheard.append hrest)
      · exact fun _ => hresumes.trans

theorem goes_listKind (hlisting : control.listing = none) (kind : Kind) (world : World) :
    Goes (listKind kind) control world (fun objects next _ => control.Hears kind objects next)
      control.Resumes := by
  rw [listKind]
  split
  · refine Goes.bind (Goes.get (Goes.bind
      ((goes_mapM_listedUnless hlisting _ (fun point => Kind.filterListing point.1 point.2) _
        world).mono ?_ fun _ => id)))
    intro found next place hheard
    exact Goes.pure hheard
  · exact goes_listedUnless hlisting _ _ world

theorem goes_syncKind (control : Control) (hlisting : control.listing = none)
    (hanswers : control.answers = []) (kind : Kind)
    (hround : ∀ left, control.round = some left → left.head? = some kind) (world : World) :
    Goes (syncKind kind) control world (fun _ next _ => next = control.advance)
      control.Resumes := by
  rw [syncKind]
  refine Goes.bind ((goes_listKind hlisting kind world).mono ?_ fun _ => id)
  rintro objects next place ⟨answers, rfl, hgathers⟩
  refine Goes.bind (Goes.get ?_)
  refine Goes.bind (Goes.session (Move.sync hlisting ?_ hround) (Goes.pure rfl))
  rw [Control.heard, hanswers]
  exact hgathers

end

/-- Where a call is when it ends with a fault: it waits for no listing. -/
def Broken (control : Control) : Prop :=
  control.listing = none

theorem goes_forM_syncKind (reserved : Option Nat) (kinds : List Kind) (world : World) :
    Goes (kinds.forM fun kind => discard (syncKind kind))
      ⟨none, [], (some kinds).filter (· ≠ []), reserved⟩ world
      (fun _ next _ => next = ⟨none, [], none, reserved⟩) Broken := by
  induction kinds generalizing world with
  | nil => exact Goes.pure rfl
  | cons first rest ih =>
      rw [List.forM]
      have hsync := goes_syncKind ⟨none, [], some (first :: rest), reserved⟩ rfl rfl first
        (by rintro _ ⟨rfl⟩; rfl) world
      refine Goes.bind (Goes.discard (hsync.mono ?_ ?_))
      · rintro tally next place rfl
        exact ih place
      · exact fun _ hresumes => hresumes.listing_eq

theorem goes_syncRound (reserved : Option Nat) (world : World) :
    Goes syncRound ⟨none, [], none, reserved⟩ world
      (fun _ next _ => next = ⟨none, [], none, reserved⟩) Broken := by
  rw [syncRound]
  exact Goes.bind (Goes.session (Move.begin rfl) (goes_forM_syncKind reserved Kind.all _))

theorem goes_syncRounds (reserved : Option Nat) (rounds : Nat) (world : World) :
    Goes (syncRounds rounds) ⟨none, [], none, reserved⟩ world
      (fun _ next _ => next = ⟨none, [], none, reserved⟩) Broken := by
  induction rounds generalizing world with
  | zero => exact goes_syncRound reserved world
  | succ left ih =>
      rw [syncRounds]
      refine Goes.bind ((goes_syncRound reserved world).mono ?_ fun _ => id)
      rintro _ next place rfl
      refine Goes.bind (Goes.get ?_)
      split
      · exact ih place
      · exact Goes.pure rfl

theorem goes_syncAll (world : World) :
    Goes syncAll .idle world (fun _ next _ => next = .idle) Broken := by
  rw [syncAll]
  exact Goes.bind (Goes.get (goes_syncRounds none _ world))

theorem goes_resync (world : World) :
    Goes resync .idle world (fun _ next _ => next = .idle) Broken := by
  rw [resync]
  refine Goes.bind (Goes.get ?_)
  split
  · exact goes_syncAll world
  · exact Goes.pure rfl

section

variable {control : Control}

theorem goes_succeeds {α : Type} {flow : Flow α} {world : World}
    (h : Goes flow control world (fun _ next _ => control.Resumes next) control.Resumes)
    (failed : Control → Prop) :
    Goes (succeeds flow) control world (fun _ next _ => control.Resumes next) failed := by
  rw [succeeds]
  refine @Goes.recover _ _ control world _ _ _ control.Resumes ?_ ?_
  · refine Goes.bind (Goes.discard (h.mono ?_ fun _ => id))
    intro value next after hresumes
    exact Goes.pure hresumes
  · intro fault middle place hmiddle
    exact Goes.pure hmiddle

theorem goes_support (hlisting : control.listing = none) (hanswers : control.answers = [])
    (world : World) :
    Goes support control world (fun _ next _ => next = control) (· = control) := by
  have htries {control : Control} (hlisting : control.listing = none) (kind : Kind)
      (world : World) := goes_succeeds ((@goes_listed control kind hlisting kind.listing world).mono
        (fun _ _ _ => Control.Hears.resumes) fun _ => id)
  rw [support]
  refine Goes.bind (Goes.get ?_)
  split
  · exact Goes.pure rfl
  · refine Goes.bind ((htries hlisting .discipline world _).mono ?_ fun _ => id)
    intro traffic next place hnext
    refine Goes.bind ((htries (hnext.listing_eq.trans hlisting) .address6 place _).mono ?_
      fun _ => id)
    intro ipv6 last after hlast
    obtain ⟨answers, rfl⟩ := hnext.trans hlast
    refine Goes.bind (Goes.get (Goes.bind (Goes.session (Move.probe _) (Goes.pure ?_))))
    rw [Control.heard, ← hanswers]

end

end Flow

namespace Flow

theorem goes_plan {control : Control} (hlisting : control.listing = none)
    (hanswers : control.answers = []) (desired : Object) (goal : Goal) (world : World) :
    Goes (plan desired goal) control world
      (fun planned next _ => next = control ∧ ∀ steps, planned.2 = .steps steps → steps ≠ [])
      (· = control) := by
  cases goal with
  | present =>
      rw [plan]
      refine Goes.bind ((goes_support hlisting hanswers world).mono ?_ fun _ => id)
      rintro support next place rfl
      refine Goes.bind (Goes.ofExcept (fun _ _ => ?_) rfl)
      refine Goes.bind (Goes.get (Goes.bind (Goes.ofExcept (fun planned hplanned => ?_) rfl)))
      refine Goes.pure ⟨rfl, ?_⟩
      rintro steps rfl
      exact Plan.toAdd_ne_nil hplanned
  | absent =>
      rw [plan]
      refine Goes.bind (Goes.get (Goes.pure ⟨rfl, ?_⟩))
      intro steps hsteps
      exact Plan.toDelete_ne_nil (Prod.ext rfl hsteps)

theorem goes_submit (desired : Object) (goal : Goal) (world : World) :
    Goes (submit desired goal) .idle world (fun _ next _ => next = .idle) Broken := by
  rw [submit]
  refine Goes.bind (Goes.ofExcept (fun _ _ => ?_) rfl)
  refine Goes.bind (Goes.get (Goes.bind (Goes.session (Move.reserve rfl) ?_)))
  refine Goes.bind ((goes_plan rfl rfl desired goal _).mono ?_ ?_)
  · rintro ⟨target, planned⟩ next place ⟨rfl, hsteps⟩
    cases planned with
    | done outcome => exact Goes.bind (Goes.session (Move.note _) (Goes.pure rfl))
    | steps steps =>
        refine Goes.bind (Goes.session (Move.start target goal rfl rfl (hsteps steps rfl)) ?_)
        exact Goes.bind (Goes.pump rfl (Goes.pure rfl))
  · rintro next rfl
    exact rfl

theorem goes_poll (number : Nat) (world : World) :
    Goes (poll number) .idle world (fun _ next _ => next = .idle) Broken := by
  obtain ⟨results, hresults⟩ : ∃ results,
      (world.session.collect number).2 = { world.session with results } := by
    rw [Session.collect]
    split
    · exact ⟨_, rfl⟩
    · split <;> exact ⟨world.session.results, rfl⟩
  rw [poll]
  refine Goes.bind (Goes.get ?_)
  rcases hcollect : world.session.collect number with ⟨result, after⟩
  rw [hcollect] at hresults
  have hmove : Move .idle world [] .idle (world.mapSession fun _ => after) := by
    rw [show after = { world.session with results } from hresults]
    exact Move.note results
  exact Goes.bind (Goes.session hmove (Goes.pure rfl))

theorem goes_drive (world : World) :
    Goes drive .idle world (fun _ next _ => next = .idle) Broken := by
  rw [drive]
  refine Goes.bind ((goes_resync world).mono ?_ fun _ => id)
  rintro _ next place rfl
  refine Goes.bind (Goes.pump rfl (Goes.bind (Goes.get ?_)))
  have hturn {place : World} : Goes (do change World.expire; pump) .idle place
      (fun _ next _ => next = .idle) Broken :=
    Goes.bind (Goes.change Move.expire (Goes.pump rfl rfl))
  refine Ends.bind ((ends_await _ _).mono ?_ fun _ _ => False.elim)
  rintro arrival after (⟨due, -, -, rfl, rfl⟩ | ⟨received, channel, hreceived, rfl, rfl⟩)
  · exact hturn.after (Moves.single (Move.pass (Nat.le_max_left _ _)))
  · refine Ends.bind (Ends.bind ((ends_absorb _ received).mono ?_ ?_))
    · rintro incoming after ⟨exchange, hexchange, rfl⟩
      refine Ends.bind (Ends.change ?_)
      exact hturn.after (Moves.single (Move.take rfl hreceived hexchange))
    · rintro fault after ⟨hfailed, rfl⟩
      exact ⟨_, _, Moves.single (Move.miss rfl hreceived hfailed), rfl⟩

theorem goes_waitWithin (number turns : Nat) (world : World) :
    Goes (waitWithin number turns) .idle world (fun _ next _ => next = .idle) Broken := by
  induction turns generalizing world with
  | zero =>
      rw [waitWithin]
      refine Goes.bind ((goes_poll number world).mono ?_ fun _ => id)
      rintro (_ | result) next place rfl
      · exact Goes.throw_stalled
      · exact Goes.ofExcept (fun _ _ => rfl) rfl
  | succ left ih =>
      rw [waitWithin]
      refine Goes.bind ((goes_poll number world).mono ?_ fun _ => id)
      rintro (_ | result) next place rfl
      · refine Goes.bind ((goes_drive place).mono ?_ fun _ => id)
        rintro _ next place rfl
        exact ih place
      · exact Goes.ofExcept (fun _ _ => rfl) rfl

theorem goes_wait (number : Nat) (world : World) :
    Goes (wait number) .idle world (fun _ next _ => next = .idle) Broken :=
  goes_waitWithin number turnLimit world

theorem goes_apply (desired : Object) (goal : Goal) (world : World) :
    Goes (apply desired goal) .idle world (fun _ next _ => next = .idle) Broken := by
  rw [apply]
  refine Goes.bind ((goes_submit desired goal world).mono ?_ fun _ => id)
  rintro number next place rfl
  exact goes_wait number place

theorem goes_takeWaiting (count : Nat) (world : World) :
    Goes (takeWaiting count) .idle world (fun _ next _ => next = .idle) Broken := by
  induction count generalizing world with
  | zero => exact Goes.pure rfl
  | succ count ih =>
      rw [takeWaiting]
      refine Goes.bind (Goes.get ?_)
      split
      · exact Goes.pure rfl
      · rename_i received channel hreceived
        refine Ends.bind (Ends.set (Ends.bind ((ends_absorb _ received).mono ?_ ?_)))
        · rintro incoming after ⟨exchange, hexchange, rfl⟩
          refine Ends.bind (Ends.change ?_)
          refine Goes.after (Moves.single (Move.take rfl hreceived hexchange)) ?_
          refine Goes.bind ((ih _).mono ?_ fun _ => id)
          rintro handled next place rfl
          exact Goes.pure rfl
        · rintro fault after ⟨hfailed, rfl⟩
          exact ⟨_, _, Moves.single (Move.miss rfl hreceived hfailed), rfl⟩

theorem goes_drain (world : World) :
    Goes drain .idle world (fun _ next _ => next = .idle) Broken := by
  rw [drain]
  refine Goes.bind (Goes.get (Goes.bind ((goes_takeWaiting _ world).mono ?_ fun _ => id)))
  rintro handled next place rfl
  refine Goes.bind ((goes_resync place).mono ?_ fun _ => id)
  rintro _ next place rfl
  exact Goes.pure rfl

theorem goes_settleWithin (turns : Nat) (world : World) :
    Goes (settleWithin turns) .idle world (fun _ next _ => next = .idle) Broken := by
  induction turns generalizing world with
  | zero =>
      rw [settleWithin]
      refine Goes.bind ((goes_resync world).mono ?_ fun _ => id)
      rintro _ next place rfl
      refine Goes.bind (Goes.get ?_)
      split
      · exact Goes.throw_stalled
      · exact Goes.pure rfl
  | succ left ih =>
      rw [settleWithin]
      refine Goes.bind ((goes_resync world).mono ?_ fun _ => id)
      rintro _ next place rfl
      refine Goes.bind (Goes.get ?_)
      split
      · refine Goes.bind ((goes_drive place).mono ?_ fun _ => id)
        rintro _ next place rfl
        exact ih place
      · exact Goes.pure rfl

theorem goes_settle (world : World) :
    Goes settle .idle world (fun _ next _ => next = .idle) Broken := by
  rw [settle]
  refine Goes.bind ((goes_settleWithin turnLimit world).mono ?_ fun _ => id)
  rintro _ next place rfl
  refine Goes.discard ((goes_drain place).mono ?_ fun _ => id)
  rintro handled next place rfl
  rfl

end Flow

/-- What a caller can ask of a session. -/
inductive Call where
  | submit (desired : Object) (goal : Goal)
  | wait (number : Nat)
  | apply (desired : Object) (goal : Goal)
  | poll (number : Nat)
  | drive
  | settle
  | drain
  | syncAll
  | syncKind (kind : Kind)
  | support
  | invalidateSupport

namespace Call

def flow : Call → Flow Unit
  | submit desired goal => discard (Flow.submit desired goal)
  | wait number => discard (Flow.wait number)
  | apply desired goal => discard (Flow.apply desired goal)
  | poll number => discard (Flow.poll number)
  | drive => Flow.drive
  | settle => Flow.settle
  | drain => discard Flow.drain
  | syncAll => Flow.syncAll
  | syncKind kind => discard (Flow.syncKind kind)
  | support => discard Flow.support
  | invalidateSupport => Flow.invalidateSupport

/-- Every call goes by moves from one idle time to the next. -/
theorem goes (call : Call) (world : World) :
    Flow.Goes call.flow .idle world (fun _ next _ => next = .idle) Flow.Broken := by
  cases call with
  | submit desired goal => exact Flow.Goes.discard (Flow.goes_submit desired goal world)
  | wait number => exact Flow.Goes.discard (Flow.goes_wait number world)
  | apply desired goal => exact Flow.Goes.discard (Flow.goes_apply desired goal world)
  | poll number => exact Flow.Goes.discard (Flow.goes_poll number world)
  | drive => exact Flow.goes_drive world
  | settle => exact Flow.goes_settle world
  | drain => exact Flow.Goes.discard (Flow.goes_drain world)
  | syncAll => exact Flow.goes_syncAll world
  | syncKind kind =>
      have hsync := Flow.goes_syncKind .idle rfl rfl kind (by rintro _ ⟨⟩) world
      refine Flow.Goes.discard (hsync.mono ?_ ?_)
      · rintro tally next after rfl
        rfl
      · exact fun _ hresumes => hresumes.listing_eq
  | support =>
      refine Flow.Goes.discard ((Flow.goes_support rfl rfl world).mono (fun _ _ _ => id) ?_)
      rintro next rfl
      rfl
  | invalidateSupport =>
      have hmove : Move .idle world [] .idle (world.mapSession fun s =>
          if s.config.support.isNone then { s with probe := s.probe.invalidate } else s) := by
        rw [World.mapSession]
        split
        · exact Move.probe _
        · exact Move.probe world.session.probe
      exact Flow.Goes.session hmove rfl

def after (call : Call) (world : World) : World :=
  (call.flow.result world).2

end Call

/-- Whether a call comes back to its caller, with a result or with a fault. -/
def Halt.returns : Except Halt Unit → Bool
  | .ok _ | .error (.fault _) => true
  | .error .stalled | .error .crash => false

/-- Whether a call can end in a way where its moves have led to a control. One that stalls never
ends, and nothing follows one that ends the program. -/
def Control.Closes (control : Control) : Except Halt Unit → Prop
  | .ok () => control = .idle
  | .error (.fault _) => control.listing = none
  | .error .stalled => False
  | .error .crash => False

/-- What is told of the end of a call. -/
def Mark.ending : Except Halt Unit → List Mark
  | .ok () => []
  | .error _ => [.failed]

/-- What a session comes to by calls, with the marks of their moves. In between, time passes,
anything can befall its socket, and others subscribe to its news. -/
inductive Operated : List Mark → World → Prop where
  | opened (config : Config) (files : Files) (channel : Channel) :
      Operated [] (.new config files channel)
  | disturbed {trace : List Mark} {world : World} (h : Operated trace world) (now horizon : Nat)
      (channel : Channel) : Operated trace { world with now, horizon, channel }
  | watched {trace : List Mark} {world : World} (h : Operated trace world) {watched : Watched}
      (hsame : watched.inventory = world.session.inventory) :
      Operated trace (world.mapSession ({ · with watched }))
  | called {trace more : List Mark} {world after : World} {control : Control} {call : Call}
      {ended : Except Halt Unit} (h : Operated trace world)
      (hresult : call.flow.result world = (ended, after))
      (hmoves : Moves .idle world more control after) (hcloses : control.Closes ended) :
      Operated (trace ++ more ++ Mark.ending ended) after

namespace Operated

variable {trace : List Mark} {world after : World}

/-- Whatever call is made next, if it returns the history goes on. -/
theorem exists_called (h : Operated trace world) {call : Call} {ended : Except Halt Unit}
    (hresult : call.flow.result world = (ended, after)) (hreturns : Halt.returns ended = true) :
    ∃ more, Operated (trace ++ more ++ Mark.ending ended) after := by
  have hgoes := call.goes world
  rcases ended with (fault | _ | _) | value
  · obtain ⟨more, control, hmoves, hbroken⟩ := Flow.Ends.of_fault hgoes hresult
    exact ⟨more, h.called hresult hmoves hbroken⟩
  · exact absurd hreturns (by decide)
  · exact absurd hreturns (by decide)
  · obtain ⟨more, control, hmoves, hidle⟩ := Flow.Ends.of_ok hgoes hresult
    exact ⟨more, h.called hresult hmoves hidle⟩

theorem exists_after (h : Operated trace world) (call : Call)
    (hreturns : Halt.returns (call.flow.result world).1 = true) :
    ∃ more, Operated more (call.after world) := by
  obtain ⟨more, hmore⟩ := h.exists_called rfl hreturns
  exact ⟨_, hmore⟩

/-- What holds of a session at first, outlasts what happens between calls, and is kept by every move
holds after every call. -/
theorem keeps {holds : List Mark → Control → World → Prop} (h : Operated trace world)
    (hopened : ∀ config files channel, holds [] .idle (.new config files channel))
    (hdisturbed : ∀ {trace : List Mark} {world : World} (now horizon : Nat) (channel : Channel),
      holds trace .idle world → holds trace .idle { world with now, horizon, channel })
    (hwatched : ∀ {trace : List Mark} {world : World} {watched : Watched},
      watched.inventory = world.session.inventory → holds trace .idle world →
        holds trace .idle (world.mapSession ({ · with watched })))
    (hmoves : ∀ {trace marks : List Mark} {control next : Control} {world after : World},
      Move control world marks next after → holds trace control world →
        holds (trace ++ marks) next after)
    (hfailed : ∀ {trace : List Mark} {control : Control} {world : World}, control.listing = none →
      holds trace control world → holds (trace ++ [.failed]) .idle world) :
    holds trace .idle world := by
  induction h with
  | opened config files channel => exact hopened config files channel
  | disturbed _ now horizon channel ih => exact hdisturbed now horizon channel ih
  | watched _ hsame ih => exact hwatched hsame ih
  | @called _ _ _ _ control _ ended _ _ hpath hends ih =>
      have hlast := hpath.keeps hmoves ih
      rcases ended with (fault | _ | _) | value
      · exact hfailed hends hlast
      · exact hends.elim
      · exact hends.elim
      · rw [show control = .idle from hends] at hlast
        rw [Mark.ending, List.append_nil]
        exact hlast

end Operated

/-- A new world with a kernel whose features are all there. -/
def World.equipped : World :=
  .new { Config.standard with support := some Support.all } .nothing
    (.new Peer.initial true true)

theorem Operated.equipped : Operated [] World.equipped :=
  .opened _ _ _

end NetState
