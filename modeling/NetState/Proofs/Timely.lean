import NetState.Proofs.Listing
import NetState.Proofs.Session.Transmit
import NetState.Proofs.Flow

namespace NetState

def Fault.isTimeout : Fault → Bool
  | .timeout _ _ => true
  | _ => false

theorem Fault.isTimeout_during (fault : Fault) (operation : String) :
    (fault.during operation).isTimeout = fault.isTimeout := by
  cases fault <;> rfl

/-- Whether something does not fail for being late. -/
def Timely {α : Type} (result : Except Fault α) : Prop :=
  ∀ fault, result = .error fault → fault.isTimeout = false

namespace Timely

variable {α β : Type}

theorem ok (value : α) : Timely (.ok value) :=
  fun _ h => absurd h (by simp)

theorem error {fault : Fault} (h : fault.isTimeout = false) :
    Timely (.error fault : Except Fault α) := by
  rintro _ ⟨rfl⟩
  exact h

theorem bind {result : Except Fault α} {next : α → Except Fault β} (h : Timely result)
    (hnext : ∀ value, Timely (next value)) : Timely (result >>= next) := by
  cases result with
  | error fault => exact error (h fault rfl)
  | ok value => exact hnext value

theorem throw_bind {fault : Fault} (h : fault.isTimeout = false) {next : α → Except Fault β} :
    Timely (throw fault >>= next) :=
  error h

theorem ite {condition : Prop} [Decidable condition] {first second : Except Fault α}
    (hfirst : Timely first) (hsecond : Timely second) :
    Timely (if condition then first else second) := by
  split
  · exact hfirst
  · exact hsecond

end Timely

theorem Link.timely_info (l : Link) : Timely l.info := by
  rw [info]
  split
  · exact .ok _
  · refine Timely.bind ?_ fun _ => .ok _
    rw [infoData]
    split
    · split
      · exact .ok _
      · exact .error rfl
    · exact .ok _
    · exact .ok _

theorem Link.timely_requestFields (l : Link) (verb : Verb) : Timely (l.requestFields verb) := by
  have hinfo (settings : List Field) : Timely do return settings ++ (← l.info) :=
    l.timely_info.bind fun _ => .ok _
  rw [requestFields]
  exact .ite (.ok _) (.ite (.ite (.throw_bind rfl) (hinfo _)) (.ok _))

theorem Address.timely_requestFields (a : Address) (verb : Verb) :
    Timely (a.requestFields verb) := by
  rw [requestFields]
  exact .ite (.ok _) (.ite (.throw_bind rfl) (.ok _))

theorem Route.timely_requestFields (r : Route) (verb : Verb) : Timely (r.requestFields verb) := by
  rw [requestFields]
  split
  · exact .ite (.throw_bind rfl) (.ite (.ok _) (.ok _))
  · exact .ite (.ok _) (.ok _)

theorem Filter.timely_requestFields (f : Filter) (verb : Verb) :
    Timely (f.requestFields verb) := by
  have hoptions : Timely f.optionFields := by
    rw [optionFields]
    split
    · exact .ok _
    · split
      · exact .ok _
      · exact .error rfl
  rw [requestFields]
  exact .ite (.ok _) (.ite (.ok _) (hoptions.bind fun _ => .ok _))

theorem Object.timely_requestFields (object : Object) (verb : Verb) :
    Timely (object.requestFields verb) := by
  cases object with
  | link l => exact l.timely_requestFields verb
  | address a => exact a.timely_requestFields verb
  | route r => exact r.timely_requestFields verb
  | discipline d => exact .ok _
  | filter f => exact f.timely_requestFields verb

theorem Object.timely_request (object : Object) (verb : Verb) : Timely (object.request verb) := by
  refine Timely.bind (object.timely_requestFields verb) fun fields => ?_
  refine Timely.bind ?_ fun _ => .ok _
  rw [Draft.check]
  split
  · exact .error rfl
  · exact .ok _

theorem Message.timely_of_mem_scan {datagram : Bytes} {read : Except Fault Message}
    (h : read ∈ scan datagram) : Timely read := by
  induction datagram using scan.induct with
  | case1 datagram hsize header length hlength ih =>
      rw [scan, dif_pos hsize] at h
      simp only [header, length] at hlength ih
      rw [dif_pos hlength] at h
      rcases List.mem_cons.mp h with rfl | hrest
      · exact .ok _
      · exact ih hrest
  | case2 datagram hsize header length hlength =>
      rw [scan, dif_pos hsize] at h
      simp only [header, length] at hlength
      rw [dif_neg hlength, List.mem_singleton] at h
      exact h ▸ .error rfl
  | case3 datagram hsize =>
      rw [scan, dif_neg hsize] at h
      exact absurd h List.not_mem_nil

theorem Peer.timely_take (peer : Peer) (datagram : Bytes) : Timely (peer.take datagram).2 := by
  rw [take]
  refine List.foldlRecOn (motive := fun found : Peer × Except Fault Unit => Timely found.2)
    (Message.scan datagram) _ (.ok ()) ?_
  intro found hfound read hread
  cases read with
  | ok request => exact hfound
  | error fault => exact .error (Message.timely_of_mem_scan hread fault rfl)

/-- Whether the faults that a socket is to fail with are its own. -/
def Channel.IsTimely (channel : Channel) : Prop :=
  ∀ fault ∈ channel.sendFaults, fault.isTimeout = false

theorem Channel.IsTimely.send {channel : Channel} (h : channel.IsTimely) (datagram : Bytes) :
    (channel.send datagram).1.IsTimely ∧ Timely (channel.send datagram).2 := by
  rw [Channel.send]
  split
  · rename_i fault rest hfaults
    rw [IsTimely, hfaults] at h
    exact ⟨fun other hother => h other (List.mem_cons_of_mem fault hother),
      .error (h fault List.mem_cons_self)⟩
  · exact ⟨h, channel.peer.timely_take datagram⟩

theorem Channel.IsTimely.receive {channel rest : Channel} (h : channel.IsTimely)
    {received : Except Fault Bytes} (hreceived : channel.receive? = some (received, rest)) :
    rest.IsTimely := by
  rcases receive?_eq_some hreceived with ⟨left, -, rfl⟩ | ⟨-, peer, -, rfl⟩ <;> exact h

namespace World

theorem timely_transmit {world : World} (h : world.channel.IsTimely) (draft : Draft)
    (awaited : Awaited) :
    (world.transmit draft awaited).1.channel.IsTimely ∧
      Timely (world.transmit draft awaited).2 := by
  have hsend := h.send (world.session.exchange.advance.stamp draft)
  rw [transmit]
  rcases hsent : world.channel.send (world.session.exchange.advance.stamp draft) with
    ⟨channel, fault | _⟩
  · rw [hsent] at hsend
    exact ⟨hsend.1, .error (hsend.2 fault rfl)⟩
  · rw [hsent] at hsend
    exact ⟨hsend.1, .ok _⟩

theorem timely_transmitStep {world : World} (h : world.channel.IsTimely) (step : Step) :
    (world.transmitStep step).1.channel.IsTimely ∧ Timely (world.transmitStep step).2 := by
  rcases world.transmitStep_cases step with ⟨fault, hrequest, -, hsend⟩ | ⟨draft, -, -, hsend⟩
  · rw [hsend]
    exact ⟨h, .error (step.object.timely_request step.verb fault hrequest)⟩
  · rw [hsend]
    exact timely_transmit h _ _

theorem timely_pumpOne {world : World} (h : world.channel.IsTimely) (op : Operation) :
    (world.pumpOne op).1.channel.IsTimely ∧ Timely (world.pumpOne op).2 := by
  rcases world.pumpOne_cases op with ⟨-, hrest⟩ | ⟨step, -, -, hsend⟩
  · rw [hrest]
    exact ⟨h, .ok _⟩
  · have hstep := timely_transmitStep h step
    rw [hsend]
    refine ⟨hstep.1, ?_⟩
    cases hresult : (world.transmitStep step).2 with
    | error fault => exact .error (hstep.2 fault hresult)
    | ok seq => exact .ok _

/-- Operations that end because their requests cannot be sent do not end for being late. -/
theorem timely_pumpEach {world : World} (h : world.channel.IsTimely) (operations : List Operation) :
    (world.pumpEach operations).1.channel.IsTimely ∧
      ∀ entry ∈ (world.pumpEach operations).2.2, Timely entry.2 := by
  induction operations generalizing world with
  | nil => exact ⟨h, fun _ hmem => absurd hmem List.not_mem_nil⟩
  | cons op rest ih =>
      have hone := timely_pumpOne h op
      rcases hpump : world.pumpOne op with ⟨middle, fault | pumped⟩
      · rw [hpump] at hone
        obtain ⟨hchannel, hfailed⟩ := ih hone.1
        rw [pumpEach, hpump]
        refine ⟨hchannel, fun entry hentry => ?_⟩
        rcases List.mem_cons.mp hentry with rfl | hentry
        · exact .error (hone.2 fault rfl)
        · exact hfailed entry hentry
      · rw [hpump] at hone
        rw [pumpEach, hpump]
        exact ih hone.1

end World

/-- Whether something that came in is no answer that tells of being late. -/
def Incoming.IsTimely : Incoming → Prop
  | .reply _ result => Timely result
  | _ => True

theorem timely_reportFailure {payload : Bytes} {fault : Fault}
    (h : Exchange.reportFailure payload = .ok (some fault)) : fault.isTimeout = false := by
  rw [Exchange.reportFailure, Report.ofBytes] at h
  split at h <;> rename_i hread <;> split at hread
  · split at h
    · cases h
    · obtain ⟨told, htold, hfault⟩ := map_eq_ok_iff.mp h
      obtain ⟨errno, -, rfl⟩ := map_eq_ok_iff.mp htold
      exact Option.some.inj hfault ▸ rfl
  · exact absurd hread (by simp)
  · exact absurd hread (by simp)
  · cases hread
    cases h
    rfl

theorem timely_endFailure {payload : Bytes} {fault : Fault}
    (h : Exchange.endFailure payload = .ok (some fault)) : fault.isTimeout = false := by
  rw [Exchange.endFailure] at h
  generalize (if payload.atLeast 4 = true then payload.i32At 0 else 0) = code at h
  split at h
  · obtain ⟨errno, -, hfault⟩ := map_eq_ok_iff.mp h
    exact Option.some.inj hfault ▸ rfl
  · exact absurd (Except.ok.inj h) (by simp)

namespace Exchange

theorem timely_conclude (exchange : Exchange) (seq : UInt32) {failure : Option Fault}
    (h : ∀ fault, failure = some fault → fault.isTimeout = false) {incoming : Incoming}
    (hincoming : (exchange.conclude seq failure).2 = some incoming) : incoming.IsTimely := by
  obtain rfl := Option.some.inj hincoming
  cases failure with
  | none => exact .ok _
  | some fault => exact .error (h fault rfl)

theorem timely_takeObject (exchange : Exchange) (header : Header) (change : Change)
    (object : Object) {incoming : Incoming}
    (h : (exchange.takeObject header change object).2 = some incoming) : incoming.IsTimely := by
  have htakes := takesObject exchange header change object
  generalize exchange.takeObject header change object = taken at htakes h
  cases htakes with
  | stray => exact absurd h (by simp)
  | held => exact absurd h (by simp)
  | handed =>
      obtain rfl := Option.some.inj h
      trivial
  | notice =>
      obtain rfl := Option.some.inj h
      trivial

theorem timely_take {exchange after : Exchange} {message : Message} {incoming : Incoming}
    (h : exchange.take message = .ok (after, some incoming)) : incoming.IsTimely := by
  rw [take] at h
  split at h
  · cases h
    trivial
  · split at h
    · split at h
      · obtain ⟨failure, hfailure, hended⟩ := map_eq_ok_iff.mp h
        exact timely_conclude exchange _
          (fun fault hfault => timely_reportFailure (hfault ▸ hfailure)) (congrArg Prod.snd hended)
      · exact absurd h (by simp)
    · split at h
      · split at h
        · obtain ⟨failure, hfailure, hended⟩ := map_eq_ok_iff.mp h
          exact timely_conclude _ _ (fun fault hfault => timely_endFailure (hfault ▸ hfailure))
            (congrArg Prod.snd hended)
        · exact absurd h (by simp)
      · split at h
        · exact absurd h (by simp)
        · split at h
          · exact timely_takeObject _ _ _ _ (congrArg Prod.snd (Except.ok.inj h))
          all_goals exact absurd h (by simp)

theorem timely_add {before : List Incoming} {next : Incoming}
    (h : ∀ incoming ∈ before, incoming.IsTimely) (hnext : next.IsTimely) :
    ∀ incoming ∈ Incoming.add before next, incoming.IsTimely := by
  intro incoming hmem
  cases incoming with
  | reply seq result =>
      rcases Incoming.mem_of_mem_add ⟨result, rfl⟩ hmem with hbefore | rfl
      · exact h _ hbefore
      · exact hnext
  | _ => trivial

theorem timely_takeAll {exchange : Exchange} {before : List Incoming} {messages : List Message}
    {taken : Exchange × List Incoming} (htake : exchange.takeAll before messages = .ok taken)
    (h : ∀ incoming ∈ before, incoming.IsTimely) : ∀ incoming ∈ taken.2, incoming.IsTimely := by
  induction messages generalizing exchange before with
  | nil =>
      cases htake
      exact h
  | cons message rest ih =>
      obtain ⟨next, incoming, hnext, hrest⟩ := takeAll_cons_eq_ok_iff.mp htake
      refine ih hrest ?_
      cases incoming with
      | none => exact h
      | some incoming => exact timely_add h (timely_take hnext)

theorem timely_receive {exchange after : Exchange} {received : Except Fault Bytes}
    {incoming : List Incoming} (h : exchange.receive received = .ok (after, incoming)) :
    ∀ element ∈ incoming, element.IsTimely := by
  rw [receive.eq_def] at h
  split at h
  · exact timely_takeAll h fun _ hmem => absurd hmem List.not_mem_nil
  · split at h
    · cases h
      intro element hmem
      exact List.mem_singleton.mp hmem ▸ trivial
    · exact absurd h (by simp)

end Exchange

end NetState
