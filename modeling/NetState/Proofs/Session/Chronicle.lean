import NetState.Proofs.Session.Abandon
import NetState.Proofs.Session.Lasting
import NetState.Proofs.Timely

namespace NetState

/-- An operation as it was submitted: the object it is about, and what was planned for it. -/
structure Planning where
  id : Nat
  goal : Goal
  desired : Object
  plan : Plan

namespace Planning

def steps (planning : Planning) : List Step :=
  match planning.plan with
  | .done _ => []
  | .steps steps => steps

def start (planning : Planning) : Operation where
  id := planning.id
  desired := planning.desired
  goal := planning.goal
  steps := planning.steps
  stage := .queued
  attempt := 0

end Planning

/-- What happened to the operations of a session in one go. -/
structure Moment where
  /-- The time in nanoseconds. -/
  now : Nat
  /-- What was known of the kernel before. -/
  before : Inventory
  /-- What was known of the kernel afterwards. -/
  after : Inventory
  /-- The operation that was submitted. -/
  planned : Option Planning
  /-- The operations whose next request was to be sent. -/
  asked : List Nat
  /-- The operation whose request was answered, and the answer. -/
  answered : Option (Nat × Except Fault Reply)
  /-- The operations that ended, and what they came to. -/
  ended : List (Nat × Except Fault Outcome)
  /-- The operation whose result was handed out, and the result. -/
  handed : Option (Nat × Except Fault Outcome)

namespace Session

/-- Whether a plan is one for a wanted object, and about this object, by what is known now. -/
def Plans (session : Session) (goal : Goal) (wanted desired : Object) (plan : Plan) : Prop :=
  match goal with
  | .present => desired = wanted ∧
      ∃ support, Plan.toAdd session.inventory support wanted = .ok plan
  | .absent => Plan.toDelete session.inventory wanted = (desired, plan)

/-- The session that acts on a plan. -/
def undertake (session : Session) (planning : Planning) : Session :=
  match planning.plan with
  | .done outcome =>
    { session with results := session.results ++ [(planning.id, .ok outcome)] }
  | .steps _ => { session with operations := session.operations ++ [planning.start] }

/-- The operation that waits for an answer which a turn brings, and the answer. -/
def answeredBy (session : Session) : Turn → Option (Nat × Except Fault Reply)
  | .taken (.reply seq result) =>
    (session.operations.find? fun op => op.seq? == some seq).map fun op => (op.id, result)
  | _ => none

/-- Whether a turn brings no answer that tells of being late. -/
def Turn.IsTimely : Turn → Prop
  | .taken incoming => incoming.IsTimely
  | .reconciled _ _ => True

end Session

namespace World

def moment (world : World) : Moment where
  now := world.now
  before := world.session.inventory
  after := world.session.inventory
  planned := none
  asked := []
  answered := none
  ended := []
  handed := none

/-- The operations whose next request is to be sent now. -/
def due (world : World) : List Nat :=
  (world.session.operations.filter (·.isDue world.now)).map Operation.id

/-- The results in a world after those that were in another one before. -/
def added (world after : World) : List (Nat × Except Fault Outcome) :=
  after.session.results.drop world.session.results.length

/-- The ways in which a world changes, each with the moment that tells of it unless nothing happens
to operations. The number in front is the one that the operation about to be submitted has. -/
inductive Happens : Option Nat → World → List Moment → Option Nat → World → Prop where
  /-- Nothing happens to operations, and no change is asked for. -/
  | aside {reserved : Option Nat} {world after : World} (hnow : world.now ≤ after.now)
      (hchannel : world.channel.IsTimely → after.channel.IsTimely)
      (hchanges : after.channel.changes = world.channel.changes)
      (hconfig : after.session.config = world.session.config)
      (hinventory : after.session.inventory = world.session.inventory)
      (hoperations : after.session.operations = world.session.operations)
      (hnext : after.session.nextId = world.session.nextId)
      (hresults : after.session.results = world.session.results) :
      Happens reserved world [] reserved after
  /-- Something comes in, or a kind is brought up to date. -/
  | turn {reserved : Option Nat} {world : World} (turn : Session.Turn) (hturn : turn.IsTimely) :
      Happens reserved world
        [{ world.moment with
            after := (world.session.turn world.now turn).inventory
            answered := world.session.answeredBy turn
            ended := world.added (world.mapSession (·.turn world.now turn)) }]
        reserved (world.mapSession (·.turn world.now turn))
  /-- The operations whose time is over end. -/
  | expire {reserved : Option Nat} {world : World} :
      Happens reserved world [{ world.moment with ended := world.added world.expire }] reserved
        world.expire
  /-- The requests that are due are sent. -/
  | pump {reserved : Option Nat} {world : World} :
      Happens reserved world
        [{ world.moment with asked := world.due, ended := world.added world.pump }] reserved
        world.pump
  /-- The number of the next operation is taken. -/
  | reserve {world : World} :
      Happens none world [] (some world.session.nextId)
        (world.mapSession fun s => { s with nextId := s.nextId + 1 })
  /-- Nothing comes of a number. -/
  | lapse {world : World} {id : Nat} : Happens (some id) world [] none world
  /-- An operation is submitted. -/
  | submit {world : World} {planning : Planning} {wanted : Object}
      (hplans : world.session.Plans planning.goal wanted planning.desired planning.plan) :
      Happens (some planning.id) world
        [{ world.moment with
            planned := some planning
            ended := world.added (world.mapSession (·.undertake planning)) }]
        none (world.mapSession (·.undertake planning))
  /-- A result is handed out. -/
  | hand {reserved : Option Nat} {world : World} {id : Nat} {result : Except Fault Outcome}
      (hresult : (id, result) ∈ world.session.results) :
      Happens reserved world [{ world.moment with handed := some (id, result) }] reserved
        (world.mapSession fun s => { s with results := s.results.filter (·.1 != id) })

/-- The moments of a stretch of changes. -/
inductive Unfolds (reserved : Option Nat) (world : World) :
    List Moment → Option Nat → World → Prop where
  | nil : Unfolds reserved world [] reserved world
  | snoc {log more : List Moment} {middle next : Option Nat} {place after : World}
      (hpath : Unfolds reserved world log middle place)
      (hchange : Happens middle place more next after) :
      Unfolds reserved world (log ++ more) next after

namespace Unfolds

variable {reserved middle next : Option Nat} {world place after : World} {log more : List Moment}

theorem single (h : Happens reserved world log next after) :
    Unfolds reserved world log next after :=
  nil.snoc h

theorem append (hpath : Unfolds reserved world log middle place)
    (hmore : Unfolds middle place more next after) :
    Unfolds reserved world (log ++ more) next after := by
  induction hmore with
  | nil =>
      rw [List.append_nil]
      exact hpath
  | snoc _ hchange ih =>
      rw [← List.append_assoc]
      exact ih.snoc hchange

end Unfolds

/-- Whether one world comes after another one, with the same number reserved. -/
def Leads (reserved : Option Nat) (world after : World) : Prop :=
  ∃ log, Unfolds reserved world log reserved after

namespace Leads

variable {reserved : Option Nat} {world place after : World}

theorem refl (reserved : Option Nat) (world : World) : Leads reserved world world :=
  ⟨[], .nil⟩

theorem trans (h : Leads reserved world place) (hmore : Leads reserved place after) :
    Leads reserved world after := by
  obtain ⟨log, hlog⟩ := h
  obtain ⟨more, hmore⟩ := hmore
  exact ⟨log ++ more, hlog.append hmore⟩

theorem single {log : List Moment} (h : Happens reserved world log reserved after) :
    Leads reserved world after :=
  ⟨log, .single h⟩

theorem aside (hnow : world.now ≤ after.now)
    (hchannel : world.channel.IsTimely → after.channel.IsTimely)
    (hchanges : after.channel.changes = world.channel.changes)
    (hsession : after.session = { world.session with
      exchange := after.session.exchange
      probe := after.session.probe
      stale := after.session.stale }) : Leads reserved world after :=
  single (.aside hnow hchannel hchanges (by rw [hsession]) (by rw [hsession]; rfl)
    (by rw [hsession]) (by rw [hsession]) (by rw [hsession]))

end Leads

theorem leads_takeAll {reserved : Option Nat} (world : World) {incoming : List Incoming}
    (h : ∀ element ∈ incoming, element.IsTimely) :
    Leads reserved world (world.takeAll incoming) := by
  induction incoming generalizing world with
  | nil => exact .refl reserved world
  | cons first rest ih =>
      have hfirst := @Happens.turn reserved world (.taken first) (h first List.mem_cons_self)
      exact (Leads.single hfirst).trans
        (ih _ fun element hmem => h element (List.mem_cons_of_mem first hmem))

theorem leads_expire {reserved : Option Nat} (world : World) :
    Leads reserved world world.expire :=
  .single .expire

theorem leads_pump {reserved : Option Nat} (world : World) : Leads reserved world world.pump :=
  .single .pump

theorem leads_transmit {reserved : Option Nat} (world : World) {draft : Draft}
    (hdraft : draft.AsksForListing) (awaited : Awaited) :
    Leads reserved world (world.transmit draft awaited).1 := by
  have htimely (h : world.channel.IsTimely) := (timely_transmit h draft awaited).1
  have hchanges := world.changes_transmit hdraft awaited
  rcases htransmit : world.transmit draft awaited with ⟨after, result⟩
  rw [htransmit] at htimely hchanges
  have hsends := sends_transmit htransmit
  have hsession := hsends.session
  exact .aside (Nat.le_of_eq hsends.now.symm) htimely hchanges (by rw [hsession])

theorem leads_collect {reserved : Option Nat} (world : World) (number : Nat) :
    Leads reserved world (world.mapSession fun _ => (world.session.collect number).2) := by
  cases hfind : world.session.results.find? (·.1 == number) with
  | some found =>
      obtain ⟨id, result⟩ := found
      have hid : (id == number) = true :=
        List.find?_some (p := fun x : Nat × Except Fault Outcome => x.1 == number) hfind
      obtain rfl : id = number := eq_of_beq hid
      rw [Session.collect, hfind]
      exact .single (.hand (List.mem_of_find?_eq_some hfind))
  | none =>
      have hsame : (world.session.collect number).2 = world.session := by
        rw [Session.collect, hfind]
        simp only
        split <;> rfl
      rw [hsame]
      exact .refl reserved world

end World

namespace Flow

variable {α β : Type} {reserved : Option Nat}

/-- Whether a call goes from one moment to the next, however it ends. -/
def Unfolds (reserved : Option Nat) (flow : Flow α) (world : World) : Prop :=
  World.Leads reserved world (result flow world).2

namespace Unfolds

variable {flow : Flow α} {world : World}

theorem bind {next : α → Flow β} (h : Unfolds reserved flow world)
    (hnext : ∀ value after, result flow world = (.ok value, after) →
      Unfolds reserved (next value) after) : Unfolds reserved (flow >>= next) world := by
  rw [Unfolds, result_bind]
  rcases hresult : result flow world with ⟨halt | value, after⟩
  · rw [Unfolds, hresult] at h
    exact h
  · rw [Unfolds, hresult] at h
    exact h.trans (hnext value after hresult)

theorem pure (value : α) : Unfolds reserved (Pure.pure value) world :=
  .refl reserved world

theorem throw (halt : Halt) : Unfolds reserved (throw halt : Flow α) world :=
  .refl reserved world

theorem ofExcept (ended : Except Fault α) : Unfolds reserved (Flow.ofExcept ended) world := by
  rw [Unfolds, result_ofExcept]
  exact .refl reserved world

theorem ofFailing (ended : Except Failure α) : Unfolds reserved (Flow.ofFailing ended) world := by
  rcases ended with (fault | _) | value <;> exact .refl reserved world

theorem sending {update : World → World × Except Fault α}
    (h : World.Leads reserved world (update world).1) :
    Unfolds reserved (Flow.sending update) world := by
  rw [Unfolds, result_sending]
  exact h

theorem get_bind {next : World → Flow β} (h : Unfolds reserved (next world) world) :
    Unfolds reserved (get >>= next) world := by
  rw [Unfolds, result_bind, result_get]
  exact h

theorem change {update : World → World} (h : World.Leads reserved world (update world)) :
    Unfolds reserved (Flow.change update) world :=
  h

theorem session {update : Session → Session}
    (h : World.Leads reserved world (world.mapSession update)) :
    Unfolds reserved (Flow.session update) world :=
  h

theorem discard (h : Unfolds reserved flow world) :
    Unfolds reserved (Functor.discard flow) world :=
  show Unfolds reserved (flow >>= fun _ => Pure.pure ()) world from h.bind fun _ _ _ => pure ()

theorem recover {handle : Fault → Flow α} (h : Unfolds reserved flow world)
    (hhandle : ∀ fault after, Unfolds reserved (handle fault) after) :
    Unfolds reserved (Flow.recover flow handle) world := by
  rw [Unfolds, result_recover]
  rcases hresult : result flow world with ⟨(fault | _ | _) | value, after⟩ <;>
    rw [Unfolds, hresult] at h
  · exact h.trans (hhandle fault after)
  · exact h
  · exact h
  · exact h

theorem mapM {each : β → Flow α} (list : List β)
    (heach : ∀ element world, Unfolds reserved (each element) world) :
    Unfolds reserved (list.mapM each) world := by
  induction list generalizing world with
  | nil =>
      rw [List.mapM_nil]
      exact pure []
  | cons first rest ih =>
      rw [List.mapM_cons]
      exact (heach first world).bind fun _ _ _ => ih.bind fun _ _ _ => pure _

end Unfolds

theorem unfolds_await (deadline : Option Nat) (world : World) :
    Unfolds reserved (await deadline) world := by
  rw [await]
  refine .get_bind ?_
  cases hreceived : world.channel.receive? with
  | some received =>
      exact .aside (Nat.le_refl _) (fun h => h.receive hreceived)
        (Channel.changes_of_sent (Channel.of_receive? hreceived).1) rfl
  | none =>
      simp only
      split
      · exact .aside (Nat.le_max_left _ _) id rfl rfl
      · exact .aside (Nat.le_max_left _ _) id rfl rfl

theorem unfolds_absorb (received : Except Fault Bytes) (world : World) :
    Unfolds reserved (absorb received) world := by
  rw [absorb]
  refine .get_bind (.bind (.ofFailing _) fun absorbed after _ => ?_)
  exact .bind (.session (.aside (Nat.le_refl _) id rfl rfl)) fun _ _ _ => .pure _

theorem timely_of_absorb {received : Except Fault Bytes} {world after : World}
    {incoming : List Incoming} (h : result (absorb received) world = (.ok incoming, after)) :
    ∀ element ∈ incoming, element.IsTimely := by
  have hends : Ends (absorb received) world
      (fun incoming _ => ∀ element ∈ incoming, element.IsTimely) fun _ _ => True := by
    rw [absorb]
    refine Ends.bind (Ends.get (Ends.bind (Ends.ofFailing (fun absorbed hreceive => ?_)
      fun _ _ => trivial)))
    exact Ends.bind (Ends.session (Ends.pure (Exchange.timely_receive hreceive)))
  exact hends.of_ok h

theorem unfolds_takeAll {incoming : List Incoming} (h : ∀ element ∈ incoming, element.IsTimely)
    (world : World) : Unfolds reserved (change (·.takeAll incoming)) world :=
  .change (World.leads_takeAll world h)

theorem unfolds_expire (world : World) : Unfolds reserved (change World.expire) world :=
  .change (World.leads_expire world)

theorem unfolds_pump (world : World) : Unfolds reserved pump world :=
  .sending (World.leads_pump world)

theorem unfolds_awaitNext (kind : Kind) (seq : UInt32) (deadline : Nat) (world : World) :
    Unfolds reserved (awaitNext kind seq deadline) world := by
  rw [awaitNext]
  refine (unfolds_await _ world).bind fun arrival place _ => ?_
  cases arrival with
  | elapsed =>
      rw [giveUp]
      refine .bind (.session (.aside (Nat.le_refl _) id rfl rfl)) fun _ place _ => ?_
      exact .get_bind (.throw _)
  | received received =>
      refine (unfolds_absorb received place).bind fun incoming place hincoming => ?_
      have htimely : ∀ element ∈ besides seq incoming, element.IsTimely :=
        fun element hmem => timely_of_absorb hincoming element (List.mem_of_mem_filter hmem)
      refine (unfolds_takeAll htimely place).bind fun _ place _ => ?_
      refine (unfolds_expire place).bind fun _ place _ => ?_
      split
      · rename_i answer _
        refine .bind ?_ fun _ _ _ => .pure _
        rcases answer with fault | ⟨_ | _⟩
        · exact .throw _
        · exact .pure _
        · exact .pure _
      · exact .pure _

theorem unfolds_awaitListing (kind : Kind) (seq : UInt32) (deadline count : Nat) (world : World) :
    Unfolds reserved (awaitListing kind seq deadline count) world := by
  induction count generalizing world with
  | zero =>
      rw [awaitListing]
      refine (unfolds_awaitNext kind seq deadline world).bind fun listing place _ => ?_
      cases listing with
      | some listing => exact .pure _
      | none => exact .throw _
  | succ count ih =>
      rw [awaitListing]
      refine (unfolds_awaitNext kind seq deadline world).bind fun listing place _ => ?_
      cases listing with
      | some listing => exact .pure _
      | none => exact ih place

section

variable {request : Draft} (hrequest : request.AsksForListing)

include hrequest

theorem unfolds_listOnce (kind : Kind) (world : World) :
    Unfolds reserved (listOnce kind request) world := by
  rw [listOnce]
  exact .bind (.sending (World.leads_transmit world hrequest _)) fun seq place _ =>
    .get_bind (unfolds_awaitListing kind seq _ _ place)

theorem unfolds_list (kind : Kind) (retries : Nat) (world : World) :
    Unfolds reserved (list kind request retries) world := by
  induction retries generalizing world with
  | zero =>
      rw [list]
      exact (unfolds_listOnce hrequest kind world).bind fun _ _ _ => .pure _
  | succ left ih =>
      rw [list]
      refine (unfolds_listOnce hrequest kind world).bind ?_
      rintro ⟨objects, interrupted⟩ place -
      simp only
      split
      · exact ih place
      · exact .pure _

theorem unfolds_listed (kind : Kind) (world : World) :
    Unfolds reserved (listed kind request) world := by
  rw [listed]
  exact .get_bind (unfolds_list hrequest kind _ world)

theorem unfolds_listedUnless (expected : Fault → Bool) (kind : Kind) (world : World) :
    Unfolds reserved (listedUnless expected kind request) world := by
  rw [listedUnless]
  refine (unfolds_listed hrequest kind world).recover fun fault place => ?_
  split
  · exact .pure _
  · exact .throw _

end

theorem unfolds_listKind (kind : Kind) (world : World) :
    Unfolds reserved (listKind kind) world := by
  rw [listKind]
  split
  · refine .get_bind (.bind (.mapM _ ?_) fun _ _ _ => .pure _)
    rintro ⟨interface, parent⟩ place
    exact unfolds_listedUnless (Kind.asksForListing_filterListing interface parent) _ kind place
  · exact unfolds_listedUnless kind.asksForListing_listing _ kind world

theorem unfolds_syncKind (kind : Kind) (world : World) :
    Unfolds reserved (syncKind kind) world := by
  rw [syncKind]
  refine (unfolds_listKind kind world).bind fun objects place _ => .get_bind ?_
  have hturn := @World.Happens.turn reserved place (.reconciled kind objects) trivial
  exact .bind (.session (.single hturn)) fun _ _ _ => .pure _

theorem unfolds_syncRound (world : World) : Unfolds reserved syncRound world := by
  have hkinds (kinds : List Kind) (world : World) :
      Unfolds reserved (kinds.forM fun kind => Functor.discard (syncKind kind)) world := by
    induction kinds generalizing world with
    | nil => exact .pure ()
    | cons first rest ih =>
        rw [List.forM]
        exact (unfolds_syncKind first world).discard.bind fun _ place _ => ih place
  rw [syncRound]
  exact .bind (.session (.aside (Nat.le_refl _) id rfl rfl)) fun _ place _ => hkinds _ place

theorem unfolds_syncAll (world : World) : Unfolds reserved syncAll world := by
  have hrounds (rounds : Nat) (world : World) : Unfolds reserved (syncRounds rounds) world := by
    induction rounds generalizing world with
    | zero => exact unfolds_syncRound world
    | succ left ih =>
        rw [syncRounds]
        refine (unfolds_syncRound world).bind fun _ place _ => .get_bind ?_
        split
        · exact ih place
        · exact .pure ()
  rw [syncAll]
  exact .get_bind (hrounds _ world)

theorem unfolds_resync (world : World) : Unfolds reserved resync world := by
  rw [resync]
  refine .get_bind ?_
  split
  · exact unfolds_syncAll world
  · exact .pure ()

theorem unfolds_support (world : World) : Unfolds reserved support world := by
  have hsucceeds (kind : Kind) (world : World) :
      Unfolds reserved (succeeds (listed kind kind.listing)) world := by
    rw [succeeds]
    refine .recover ?_ fun _ _ => .pure _
    exact (unfolds_listed kind.asksForListing_listing kind world).discard.bind
      fun _ _ _ => .pure _
  rw [support]
  refine .get_bind ?_
  split
  · exact .pure _
  · refine (hsucceeds .discipline world).bind fun _ place _ => ?_
    refine (hsucceeds .address6 place).bind fun _ place _ => .get_bind ?_
    exact .bind (.session (.aside (Nat.le_refl _) id rfl rfl)) fun _ _ _ => .pure _

theorem unfolds_plan (wanted : Object) (goal : Goal) (world : World) :
    Unfolds reserved (plan wanted goal) world := by
  cases goal with
  | present =>
      rw [plan]
      refine (unfolds_support world).bind fun support place _ => ?_
      refine .bind (.ofExcept _) fun _ place _ => .get_bind ?_
      exact .bind (.ofExcept _) fun _ _ _ => .pure _
  | absent =>
      rw [plan]
      exact .get_bind (.pure _)

theorem plans_of_plan {wanted desired : Object} {goal : Goal} {world after : World}
    {planned : Plan} (h : result (plan wanted goal) world = (.ok (desired, planned), after)) :
    after.session.Plans goal wanted desired planned := by
  cases goal with
  | present =>
      rw [plan] at h
      obtain ⟨support, place, -, h⟩ := result_bind_ok_iff.mp h
      obtain ⟨_, place, -, h⟩ := result_bind_ok_iff.mp h
      rw [result_bind, result_get] at h
      obtain ⟨made, last, hmade, h⟩ := result_bind_ok_iff.mp h
      cases h
      rw [result_ofExcept] at hmade
      obtain ⟨hplan, rfl⟩ := Prod.mk.inj hmade
      refine ⟨rfl, support, ?_⟩
      cases hadd : Plan.toAdd place.session.inventory support wanted with
      | error fault => simp [hadd, Except.mapError] at hplan
      | ok found => simpa [hadd, Except.mapError] using hplan
  | absent =>
      rw [plan, result_bind, result_get] at h
      obtain ⟨hplan, rfl⟩ := Prod.mk.inj h
      exact Except.ok.inj hplan

theorem unfolds_submit (wanted : Object) (goal : Goal) (world : World) :
    Unfolds none (submit wanted goal) world := by
  rw [submit]
  refine .bind (.ofExcept _) fun _ place _ => .get_bind ?_
  let started := place.mapSession ({ · with nextId := place.session.nextId + 1 })
  obtain ⟨log, hlog⟩ := @unfolds_plan (some place.session.nextId) wanted goal started
  have hpath := (World.Unfolds.single (@World.Happens.reserve place)).append hlog
  rw [Unfolds, result_bind, result_session]
  show World.Leads none place (result (plan wanted goal >>= _) started).2
  rw [result_bind]
  rcases hresult : result (plan wanted goal) started with ⟨halt | ⟨target, planned⟩, after⟩
  · rw [hresult] at hpath
    exact ⟨_, hpath.snoc .lapse⟩
  · rw [hresult] at hpath
    have hsubmit := hpath.snoc (@World.Happens.submit after
      ⟨place.session.nextId, goal, target, planned⟩ wanted (plans_of_plan hresult))
    cases planned with
    | done outcome => exact ⟨_, hsubmit⟩
    | steps steps =>
        refine World.Leads.trans ⟨_, hsubmit⟩ ?_
        exact (unfolds_pump _).bind fun _ _ _ => .pure _

theorem unfolds_poll (number : Nat) (world : World) : Unfolds reserved (poll number) world := by
  rw [poll]
  exact .get_bind (.bind (.session (World.leads_collect world number)) fun _ _ _ => .pure _)

theorem unfolds_drive (world : World) : Unfolds reserved drive world := by
  rw [drive]
  refine (unfolds_resync world).bind fun _ place _ => ?_
  refine (unfolds_pump place).bind fun _ place _ => .get_bind ?_
  have hturn (place : World) : Unfolds reserved (do change World.expire; pump) place :=
    (unfolds_expire place).bind fun _ place _ => unfolds_pump place
  refine (unfolds_await _ place).bind fun arrival place _ => ?_
  cases arrival with
  | elapsed => exact (Unfolds.pure ()).bind fun _ place _ => hturn place
  | received received =>
      refine (unfolds_absorb received place).bind fun incoming place hincoming => ?_
      exact (unfolds_takeAll (timely_of_absorb hincoming) place).bind fun _ place _ => hturn place

theorem unfolds_waitWithin (number turns : Nat) (world : World) :
    Unfolds reserved (waitWithin number turns) world := by
  induction turns generalizing world with
  | zero =>
      rw [waitWithin]
      refine (unfolds_poll number world).bind fun result place _ => ?_
      cases result with
      | some result => exact .ofExcept _
      | none => exact .throw _
  | succ left ih =>
      rw [waitWithin]
      refine (unfolds_poll number world).bind fun result place _ => ?_
      cases result with
      | some result => exact .ofExcept _
      | none => exact (unfolds_drive place).bind fun _ place _ => ih place

theorem unfolds_takeWaiting (count : Nat) (world : World) :
    Unfolds reserved (takeWaiting count) world := by
  induction count generalizing world with
  | zero => exact .pure 0
  | succ count ih =>
      rw [takeWaiting]
      refine .get_bind ?_
      cases hreceived : world.channel.receive? with
      | none => exact .pure 0
      | some received =>
          have hset : Unfolds reserved (set { world with channel := received.2 } : Flow PUnit)
              world := .aside (Nat.le_refl _) (fun h => h.receive hreceived)
                (Channel.changes_of_sent (Channel.of_receive? hreceived).1) rfl
          refine hset.bind fun _ place _ => ?_
          refine (unfolds_absorb received.1 place).bind fun incoming place hincoming => ?_
          refine (unfolds_takeAll (timely_of_absorb hincoming) place).bind fun _ place _ => ?_
          exact (ih place).bind fun _ _ _ => .pure _

theorem unfolds_drain (world : World) : Unfolds reserved drain world := by
  rw [drain]
  refine .get_bind ((unfolds_takeWaiting _ world).bind fun _ place _ => ?_)
  exact (unfolds_resync place).bind fun _ _ _ => .pure _

theorem unfolds_settleWithin (turns : Nat) (world : World) :
    Unfolds reserved (settleWithin turns) world := by
  induction turns generalizing world with
  | zero =>
      rw [settleWithin]
      refine (unfolds_resync world).bind fun _ place _ => .get_bind ?_
      split
      · exact .throw _
      · exact .pure ()
  | succ left ih =>
      rw [settleWithin]
      refine (unfolds_resync world).bind fun _ place _ => .get_bind ?_
      split
      · exact (unfolds_drive place).bind fun _ place _ => ih place
      · exact .pure ()

end Flow

/-- Every call goes from one moment to the next, however it ends. -/
theorem Call.unfolds (call : Call) (world : World) : Flow.Unfolds none call.flow world := by
  cases call with
  | submit wanted goal => exact (Flow.unfolds_submit wanted goal world).discard
  | wait number => exact (Flow.unfolds_waitWithin number _ world).discard
  | apply wanted goal =>
      refine Flow.Unfolds.discard ?_
      rw [Flow.apply]
      exact (Flow.unfolds_submit wanted goal world).bind fun number place _ =>
        Flow.unfolds_waitWithin number _ place
  | poll number => exact (Flow.unfolds_poll number world).discard
  | drive => exact Flow.unfolds_drive world
  | settle =>
      show Flow.Unfolds none Flow.settle world
      rw [Flow.settle]
      exact (Flow.unfolds_settleWithin _ world).bind fun _ place _ =>
        (Flow.unfolds_drain place).discard
  | drain => exact (Flow.unfolds_drain world).discard
  | syncAll => exact Flow.unfolds_syncAll world
  | syncKind kind => exact (Flow.unfolds_syncKind kind world).discard
  | support => exact (Flow.unfolds_support world).discard
  | invalidateSupport =>
      refine Flow.Unfolds.session (.aside (Nat.le_refl _) id rfl ?_)
      rw [World.mapSession]
      split <;> rfl

/-- What a session comes to by calls, with the moments of its history. In between, time passes,
anything can befall its socket, and others subscribe to its news. -/
inductive Recorded : List Moment → World → Prop where
  | opened (config : Config) (files : Files) {channel : Channel} (hchannel : channel.IsTimely) :
      Recorded [] (.new config files channel)
  | disturbed {log : List Moment} {world : World} (h : Recorded log world) (now horizon : Nat)
      {channel : Channel} (hchannel : channel.IsTimely) :
      Recorded log { world with now, horizon, channel }
  | watched {log : List Moment} {world : World} (h : Recorded log world) {watched : Watched}
      (hsame : watched.inventory = world.session.inventory) :
      Recorded log (world.mapSession ({ · with watched }))
  | called {log more : List Moment} {world : World} (h : Recorded log world) (call : Call)
      (hmore : World.Unfolds none world more none (call.after world)) :
      Recorded (log ++ more) (call.after world)

/-- Whatever is called next, the history goes on. -/
theorem Recorded.exists_called {log : List Moment} {world : World} (h : Recorded log world)
    (call : Call) : ∃ more, Recorded (log ++ more) (call.after world) := by
  obtain ⟨more, hmore⟩ := call.unfolds world
  exact ⟨more, h.called call hmore⟩

end NetState
