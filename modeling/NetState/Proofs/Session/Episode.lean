import NetState.Proofs.Session.Dealing
import NetState.Proofs.Session.Dispatch
import NetState.Proofs.Session.Outcome

namespace NetState

/-- A moment, with the requests that are sent in it and the number of the reply that comes in. -/
structure Episode where
  moment : Moment
  dispatches : List Dispatch
  number : Option UInt32

namespace Episode

/-- The datagrams that are sent for operations in an episode. -/
def datagrams (episode : Episode) : List Bytes :=
  episode.dispatches.flatMap Dispatch.datagrams

/-- What passes between an operation and the kernel's side in an episode. -/
def dealt (episode : Episode) (id : Nat) : List Dealing :=
  (episode.dispatches.filter (·.id == id)).map
      (fun dispatch => .asked episode.moment.now dispatch.seq dispatch.left) ++
    (episode.number.bind fun seq =>
      (episode.moment.answerTo? id).map (.answered episode.moment.now seq)).toList

def dealings (episodes : List Episode) (id : Nat) : List Dealing :=
  episodes.flatMap (·.dealt id)

end Episode

/-- The ways in which a world changes, each with the episode that tells of it unless nothing happens
to operations. -/
inductive World.Occurs : Option Nat → World → List Episode → Option Nat → World → Prop where
  /-- Nothing passes between operations and the kernel's side. -/
  | quiet {reserved next : Option Nat} {world after : World} {log : List Moment}
      (hchange : Happens reserved world log next after)
      (hasked : ∀ moment ∈ log, moment.asked = [])
      (hanswered : ∀ moment ∈ log, moment.answered = none) :
      Occurs reserved world (log.map (⟨·, [], none⟩)) next after
  /-- A reply comes in. -/
  | reply {reserved : Option Nat} {world : World} {seq : UInt32} {answer : Except Fault Reply}
      {turn : Session.Turn} (hturn : turn = .taken (.reply seq answer)) (htimely : turn.IsTimely) :
      Occurs reserved world
        [⟨{ world.moment with
              after := (world.session.turn world.now turn).inventory
              answered := world.session.answeredBy turn
              ended := world.added (world.mapSession (·.turn world.now turn)) }, [], some seq⟩]
        reserved (world.mapSession (·.turn world.now turn))
  /-- The requests that are due are sent. -/
  | pump {reserved : Option Nat} {world : World} :
      Occurs reserved world
        [⟨{ world.moment with asked := world.due, ended := world.added world.pump },
          world.dispatches, none⟩]
        reserved world.pump

namespace World

variable {reserved next : Option Nat} {world after : World} {log : List Moment}
  {episodes : List Episode}

theorem Occurs.happens (h : Occurs reserved world episodes next after) :
    Happens reserved world (episodes.map Episode.moment) next after := by
  cases h with
  | quiet hchange =>
      rw [List.map_map]
      exact (List.map_id _).symm ▸ hchange
  | reply _ htimely => exact .turn _ htimely
  | pump => exact .pump

theorem Happens.exists_occurs (h : Happens reserved world log next after) :
    ∃ episodes, Occurs reserved world episodes next after := by
  have hquiet (hasked : ∀ moment ∈ log, moment.asked = [])
      (hanswered : ∀ moment ∈ log, moment.answered = none) :
      ∃ episodes, Occurs reserved world episodes next after :=
    ⟨_, .quiet h hasked hanswered⟩
  cases h with
  | aside => exact hquiet (by simp) (by simp)
  | reserve => exact hquiet (by simp) (by simp)
  | lapse => exact hquiet (by simp) (by simp)
  | turn turn hturn =>
      cases hanswered : world.session.answeredBy turn with
      | none =>
          exact hquiet (List.forall_mem_singleton.mpr rfl) (List.forall_mem_singleton.mpr hanswered)
      | some entry =>
          unfold Session.answeredBy at hanswered
          split at hanswered
          · exact ⟨_, .reply rfl hturn⟩
          · exact absurd hanswered (by simp)
  | pump => exact ⟨_, .pump⟩
  | expire => exact hquiet (List.forall_mem_singleton.mpr rfl) (List.forall_mem_singleton.mpr rfl)
  | submit => exact hquiet (List.forall_mem_singleton.mpr rfl) (List.forall_mem_singleton.mpr rfl)
  | hand => exact hquiet (List.forall_mem_singleton.mpr rfl) (List.forall_mem_singleton.mpr rfl)

end World

namespace Operation

/-- The dealings that an operation can have in one episode. -/
inductive Deals (op : Operation) : List Dealing → Prop where
  | nothing : Deals op []
  | asked {now : Nat} {seq : UInt32} (hasking : op.isAsking now = true) :
      Deals op [.asked now seq op.steps]
  | answered {now : Nat} {seq : UInt32} {answer : Except Fault Reply}
      (hseq : op.seq? = some seq) : Deals op [.answered now seq answer]

/-- How an operation goes on after its dealings in one episode. -/
inductive Continues (config : Config) (op : Operation) : List Dealing → Operation → Prop where
  | rest : Continues config op [] op
  | ask {now : Nat} (hasking : op.isAsking now = true) (seq : UInt32) (deadline : Nat) :
      Continues config op [.asked now seq op.steps] { op with stage := .submitted seq deadline }
  | answer {now : Nat} {seq : UInt32} {answer : Except Fault Reply} {new : Operation}
      (hseq : op.seq? = some seq) (hnew : op.answered? config now answer = some new) :
      Continues config op [.answered now seq answer] new

theorem filter_id_eq {operations : List Operation} (hids : (operations.map Operation.id).Nodup)
    {op : Operation} (hop : op ∈ operations) : operations.filter (·.id == op.id) = [op] := by
  obtain ⟨before, after, rfl⟩ := List.append_of_mem hop
  rw [List.map_append, List.map_cons, List.nodup_middle, ← List.map_append] at hids
  have hothers : (before ++ after).filter (·.id == op.id) = [] :=
    List.filter_eq_nil_iff.mpr fun other hother hid =>
      hids.notMem (beq_iff_eq.mp hid ▸ List.mem_map_of_mem hother)
  rw [List.filter_append, List.append_eq_nil_iff] at hothers
  simp [hothers.1, hothers.2]

theorem id_answered? {config : Config} {now : Nat} {op new : Operation}
    {answer : Except Fault Reply} (h : op.answered? config now answer = some new) :
    new.id = op.id := by
  cases answer with
  | ok reply => rw [← Option.some.inj h]; rfl
  | error fault =>
      rw [answered?] at h
      split at h
      · obtain ⟨-, hsome⟩ := Option.ite_none_left_eq_some.mp h
        rw [← Option.some.inj hsome]
        rfl
      · obtain ⟨-, hsome⟩ := Option.ite_none_right_eq_some.mp h
        rw [← Option.some.inj hsome]

theorem Continues.id {config : Config} {op new : Operation} {dealings : List Dealing}
    (h : op.Continues config dealings new) : new.id = op.id := by
  cases h with
  | rest => rfl
  | ask => rfl
  | answer hseq hnew => exact id_answered? hnew

end Operation

namespace Session

variable {session : Session} {now : Nat} {seq : UInt32} {op : Operation}

theorem Replied.operations_eq {after : Session} {answer : Except Fault Reply}
    (h : session.Replied now seq answer after)
    (hfind : session.operations.find? (fun op => op.seq? == some seq) = some op) :
    after.operations = match op.answered? session.config now answer with
      | some new => (session.update new).operations
      | none => session.operations.filter (·.id != op.id) := by
  have hsame {other : Operation}
      (hother : session.operations.find? (fun op => op.seq? == some seq) = some other) :
      other = op := Option.some.inj (hother.symm.trans hfind)
  cases h with
  | ignored hnone => exact absurd (hnone.symm.trans hfind) (by simp)
  | acked hother =>
      obtain rfl := hsame hother
      rfl
  | gone hother hmoot hlast =>
      obtain rfl := hsame hother
      rw [Operation.answered?, if_pos hmoot, if_pos (List.isEmpty_iff.mpr hlast)]
      rfl
  | skipped hother hmoot hmore =>
      obtain rfl := hsame hother
      rw [Operation.answered?, if_pos hmoot, if_neg (mt List.isEmpty_iff.mp hmore)]
  | postponed hother hmoot hagain =>
      obtain rfl := hsame hother
      rw [Operation.answered?, if_neg (Bool.eq_false_iff.mp hmoot), if_pos hagain]
  | failed hother hmoot hfinal =>
      obtain rfl := hsame hother
      rw [Operation.answered?, if_neg (Bool.eq_false_iff.mp hmoot),
        if_neg (Bool.eq_false_iff.mp hfinal)]
      rfl

theorem Replied.config_eq {after : Session} {answer : Except Fault Reply}
    (h : session.Replied now seq answer after) : after.config = session.config := by
  cases h <;> rfl

theorem config_turn (turn : Turn) : (session.turn now turn).config = session.config := by
  cases turn with
  | reconciled kind objects =>
      obtain ⟨ended, hdrops⟩ := drops_foldl_abandon
        ({ session with watched := (session.watched.reconcile kind objects).2 } : Session).confirm _
      exact hdrops.config
  | taken incoming =>
      cases incoming with
      | notice kind change object =>
          cases change with
          | new => rfl
          | del =>
              rw [Session.turn, take]
              rcases session.takeRemoval_cases ⟨kind, object.key⟩ with ⟨-, hkept⟩ | ⟨l, -, hgone⟩
              · rw [hkept]
                rfl
              · rw [hgone]
                rfl
      | reply seq answer => exact (session.replied_takeReply now seq answer).config_eq
      | part seq objects => rfl
      | overrun => rfl

theorem mem_of_mem_turn {turn : Turn} (hquiet : ∀ seq answer, turn ≠ .taken (.reply seq answer))
    (hop : op ∈ (session.turn now turn).operations) : op ∈ session.operations := by
  have hconfirm {watched : Watched}
      (hop : op ∈ ({ session with watched } : Session).confirm.operations) :
      op ∈ session.operations := (closes_confirm { session with watched }).kept op hop
  cases turn with
  | reconciled kind objects =>
      obtain ⟨hcloses, -⟩ := closes_foldl_abandon (hidden_confirm
        { session with watched := (session.watched.reconcile kind objects).2 }) _
      exact hconfirm (hcloses.kept op hop)
  | taken incoming =>
      cases incoming with
      | notice kind change object =>
          cases change with
          | new => exact @hconfirm (session.watched.upsert object).2 hop
          | del =>
              refine @hconfirm (session.watched.remove ⟨kind, object.key⟩).2 ?_
              rw [turn, take] at hop
              rcases session.takeRemoval_cases ⟨kind, object.key⟩ with ⟨-, hkept⟩ | ⟨l, -, hgone⟩
              · exact hkept ▸ hop
              · rw [hgone] at hop
                exact (mem_operations_abandon.mp hop).1
      | reply seq answer => exact absurd rfl (hquiet seq answer)
      | part seq objects => exact (closes_confirm session).kept op hop
      | overrun => exact (closes_confirm { session with stale := true }).kept op hop

theorem exists_of_mem_turn {turn : Turn} {new : Operation}
    (hnew : new ∈ (session.turn now turn).operations) :
    ∃ op ∈ session.operations,
      (∀ answer, session.answeredBy turn ≠ some (op.id, answer)) ∧ new = op ∨
      ∃ answer seq, session.answeredBy turn = some (op.id, answer) ∧ op.seq? = some seq ∧
        op.answered? session.config now answer = some new := by
  by_cases hreply : ∃ seq answer, turn = .taken (.reply seq answer)
  · obtain ⟨seq, answer, rfl⟩ := hreply
    have htake : new ∈ (session.takeReply now seq answer).operations :=
      (closes_confirm _).kept new hnew
    rw [answeredBy]
    cases hfind : session.operations.find? (fun op => op.seq? == some seq) with
    | none =>
        rw [takeReply, hfind] at htake
        exact ⟨new, htake, Or.inl ⟨fun _ => by simp, rfl⟩⟩
    | some op =>
        have hop := List.mem_of_find?_eq_some hfind
        have hseq := seq?_of_find? hfind
        rw [(session.replied_takeReply now seq answer).operations_eq hfind] at htake
        have hother {old : Operation} (hold : old ∈ session.operations) (hid : old.id ≠ op.id) :
            (∀ other, some (op.id, answer) ≠ some (old.id, other)) ∧ old = old :=
          ⟨fun other hsame => hid (congrArg Prod.fst (Option.some.inj hsame)).symm, rfl⟩
        split at htake
        · rename_i after hafter
          obtain ⟨old, hold, rfl⟩ := List.mem_map.mp htake
          split
          · exact ⟨op, hop, Or.inr ⟨answer, seq, rfl, hseq, hafter⟩⟩
          · rename_i hid
            rw [Operation.id_answered? hafter] at hid
            exact ⟨old, hold, Or.inl (hother hold hid)⟩
        · obtain ⟨hold, hid⟩ := List.mem_filter.mp htake
          exact ⟨new, hold, Or.inl (hother hold (bne_iff_ne.mp hid))⟩
  · rw [not_exists] at hreply
    refine ⟨new, mem_of_mem_turn (fun seq answer hturn => hreply seq ⟨answer, hturn⟩) hnew, ?_⟩
    refine Or.inl ⟨fun answer hanswered => ?_, rfl⟩
    unfold answeredBy at hanswered
    split at hanswered
    · exact hreply _ ⟨_, rfl⟩
    · exact absurd hanswered (by simp)

theorem exists_of_answeredBy_eq_some {turn : Turn} {answer : Except Fault Reply}
    (hids : (session.operations.map Operation.id).Nodup) (hop : op ∈ session.operations)
    (hanswered : session.answeredBy turn = some (op.id, answer)) :
    ∃ seq, turn = .taken (.reply seq answer) ∧ op.seq? = some seq ∧
      session.operations.find? (fun op => op.seq? == some seq) = some op := by
  unfold answeredBy at hanswered
  split at hanswered
  · rename_i seq result
    obtain ⟨found, hfind, hsame⟩ := Option.map_eq_some_iff.mp hanswered
    obtain ⟨hid, rfl⟩ := Prod.mk.inj hsame
    obtain rfl := Operation.eq_of_id hids (List.mem_of_find?_eq_some hfind) hop hid
    exact ⟨seq, rfl, seq?_of_find? hfind, hfind⟩
  · exact absurd hanswered (by simp)

theorem results_turn_of_refused {fault : Fault} {turn : Turn}
    (hids : (session.operations.map Operation.id).Nodup) (hop : op ∈ session.operations)
    (hanswered : session.answeredBy turn = some (op.id, .error fault))
    (hmoot : op.isMoot fault = false)
    (hfinal : (fault.isTransient && op.attempt < session.config.maxRetries) = false) :
    ∃ more, (session.turn now turn).results =
      session.results ++ (op.id, .error (fault.during op.text)) :: more := by
  obtain ⟨seq, rfl, -, hfind⟩ := exists_of_answeredBy_eq_some hids hop hanswered
  have htake : session.takeReply now seq (.error fault) =
      session.finish op (.error (fault.during op.text)) := by
    rw [takeReply, hfind]
    simp only
    rw [takeRefusal, hmoot, hfinal]
    rfl
  obtain ⟨more, hmore⟩ := drops_confirm (session.takeReply now seq (.error fault))
  refine ⟨more, hmore.results.trans ?_⟩
  rw [htake, finish, List.append_assoc]
  rfl

end Session

namespace World

variable {reserved next : Option Nat} {world after : World} {moment : Moment} {seq : UInt32}
  {op : Operation}

/-- What an episode does to operations: one dealing at most for each, after which those that go on
stand as it demands; an end for each that is refused for good; and what is sent in it. -/
structure Deals (world : World) (episode : Episode) (after : World) : Prop where
  config : after.session.config = world.session.config
  known : ∀ id, episode.dealt id ≠ [] → ∃ op ∈ world.session.operations, op.id = id
  deals : ∀ op ∈ world.session.operations, op.Deals (episode.dealt op.id)
  kept : ∀ new ∈ after.session.operations,
    (∃ op ∈ world.session.operations,
      op.Continues world.session.config (episode.dealt op.id) new) ∨
    ∃ planning, episode.moment.planned = some planning ∧ new = planning.start
  refused : ∀ id fault, episode.moment.answerTo? id = some (.error fault) →
    ∃ op ∈ world.session.operations, op.id = id ∧ (∃ seq, op.seq? = some seq) ∧
      (op.isMoot fault = false →
        (fault.isTransient && op.attempt < world.session.config.maxRetries) = false →
          (id, .error (fault.during op.text)) ∈ episode.moment.ended)
  written : after.channel.sent = episode.datagrams.reverse ++ world.channel.sent
  sent : ∀ dispatch ∈ episode.dispatches,
    (∃ op ∈ world.session.operations, op.id = dispatch.id) ∧
      (∃ place step rest, world.Sends place ∧ dispatch.left = step :: rest ∧
        place.Writes dispatch.seq step dispatch.datagrams) ∧
      (dispatch.datagrams = [] →
        ∃ fault, (dispatch.id, .error fault) ∈ episode.moment.ended)

theorem Writes.asksForChange {step : Step} {datagrams : List Bytes}
    (h : world.Writes seq step datagrams) :
    ∀ datagram ∈ datagrams, Exchange.asksForChange datagram = true := by
  rcases h with rfl | ⟨draft, hrequest, -, rfl⟩
  · exact fun _ hdatagram => absurd hdatagram List.not_mem_nil
  · obtain ⟨fields, -, -, hdraft⟩ := requestOf_eq_ok hrequest
    refine List.forall_mem_singleton.mpr ?_
    rw [Exchange.asksForChange_toBytes (isMeasured_requestOf hrequest), hdraft]
    show (Object.changeOf? (step.object.requestType step.verb)).isSome = true
    rw [Object.requestType]
    split
    · rw [Object.changeOf?_delType]
      rfl
    · rw [Object.changeOf?_newType]
      rfl

theorem Deals.changes {episode : Episode} (h : world.Deals episode after) :
    after.channel.changes = world.channel.changes ++ episode.datagrams := by
  have hkept : episode.datagrams.filter Exchange.asksForChange = episode.datagrams := by
    refine List.filter_eq_self.mpr fun datagram hdatagram => ?_
    obtain ⟨dispatch, hdispatch, hmem⟩ := List.mem_flatMap.mp hdatagram
    obtain ⟨-, ⟨place, step, rest, -, -, hwrites⟩, -⟩ := h.sent dispatch hdispatch
    exact hwrites.asksForChange datagram hmem
  rw [Channel.changes, h.written, List.filter_append, List.filter_reverse, hkept,
    List.reverse_append, List.reverse_reverse]
  rfl

theorem Deals.quiet (hanswered : moment.answered = none)
    (hconfig : after.session.config = world.session.config)
    (hchannel : after.channel = world.channel)
    (hkept : ∀ new ∈ after.session.operations, new ∈ world.session.operations ∨
      ∃ planning, moment.planned = some planning ∧ new = planning.start) :
    world.Deals ⟨moment, [], none⟩ after where
  config := hconfig
  known _ hid := absurd rfl hid
  deals _ _ := .nothing
  kept new hnew := (hkept new hnew).imp_left fun hold => ⟨new, hold, .rest⟩
  refused id _ hfault :=
    absurd ((Moment.answerTo?_of_none hanswered id).symm.trans hfault) (by simp)
  written := congrArg Channel.sent hchannel
  sent _ hdispatch := absurd hdispatch List.not_mem_nil

section

variable {turn : Session.Turn} {answer : Except Fault Reply}

theorem exists_of_answerTo? (hids : (world.session.operations.map Operation.id).Nodup)
    (hturn : turn = .taken (.reply seq answer))
    (hanswered : moment.answered = world.session.answeredBy turn) {id : Nat}
    {other : Except Fault Reply} (h : moment.answerTo? id = some other) :
    world.session.answeredBy turn = some (id, other) ∧
      ∃ op ∈ world.session.operations, op.id = id ∧ op.seq? = some seq := by
  have hthis := hanswered ▸ Moment.answerTo?_eq_some_iff.mp h
  obtain ⟨op, hop, rfl⟩ := Session.exists_of_answeredBy hthis
  obtain ⟨number, hsame, hseq, -⟩ := Session.exists_of_answeredBy_eq_some hids hop hthis
  rw [hturn, Session.Turn.taken.injEq, Incoming.reply.injEq] at hsame
  exact ⟨hthis, op, hop, rfl, hsame.1 ▸ hseq⟩

theorem continues_reply (hids : (world.session.operations.map Operation.id).Nodup)
    (hturn : turn = .taken (.reply seq answer)) (hnow : moment.now = world.now)
    (hanswered : moment.answered = world.session.answeredBy turn) {new : Operation}
    (hnew : new ∈ (world.session.turn world.now turn).operations) :
    ∃ op ∈ world.session.operations,
      op.Continues world.session.config (Episode.dealt ⟨moment, [], some seq⟩ op.id) new := by
  have hdealt (id : Nat) : Episode.dealt ⟨moment, [], some seq⟩ id =
      ((moment.answerTo? id).map (.answered moment.now seq)).toList := rfl
  obtain ⟨op, hop, hcases⟩ := Session.exists_of_mem_turn hnew
  refine ⟨op, hop, ?_⟩
  rw [hdealt]
  rcases hcases with ⟨hother, rfl⟩ | ⟨other, -, hthis, -, hafter⟩
  · cases hanswer : moment.answerTo? new.id with
    | none => exact .rest
    | some answer =>
        exact absurd (exists_of_answerTo? hids hturn hanswered hanswer).1 (hother answer)
  · have hanswer := Moment.answerTo?_of_some (hanswered.trans hthis)
    obtain ⟨-, found, hfound, hsame, hnumber⟩ := exists_of_answerTo? hids hturn hanswered hanswer
    obtain rfl := Operation.eq_of_id hids hfound hop hsame
    rw [hanswer, hnow]
    exact .answer hnumber hafter

/-- The one operation that is answered goes on as the answer demands, or ends. -/
theorem deals_reply (hids : (world.session.operations.map Operation.id).Nodup)
    (hturn : turn = .taken (.reply seq answer)) (hnow : moment.now = world.now)
    (hanswered : moment.answered = world.session.answeredBy turn)
    (hended : moment.ended = world.added (world.mapSession (·.turn world.now turn))) :
    world.Deals ⟨moment, [], some seq⟩ (world.mapSession (·.turn world.now turn)) where
  config := Session.config_turn turn
  known id hid := by
    cases hanswer : moment.answerTo? id with
    | none => exact absurd (by rw [Episode.dealt, hanswer]; rfl) hid
    | some answer =>
        obtain ⟨-, op, hop, hsame, -⟩ := exists_of_answerTo? hids hturn hanswered hanswer
        exact ⟨op, hop, hsame⟩
  deals op hop := by
    show op.Deals ((moment.answerTo? op.id).map (.answered moment.now seq)).toList
    cases hanswer : moment.answerTo? op.id with
    | none => exact .nothing
    | some answer =>
        obtain ⟨-, other, hother, hsame, hseq⟩ := exists_of_answerTo? hids hturn hanswered hanswer
        obtain rfl := Operation.eq_of_id hids hother hop hsame
        exact .answered hseq
  kept new hnew := Or.inl (continues_reply hids hturn hnow hanswered hnew)
  refused id fault hfault := by
    obtain ⟨hthis, op, hop, rfl, hseq⟩ := exists_of_answerTo? hids hturn hanswered hfault
    refine ⟨op, hop, rfl, ⟨seq, hseq⟩, fun hmoot hfinal => ?_⟩
    obtain ⟨more, hmore⟩ :=
      @Session.results_turn_of_refused _ world.now _ _ _ hids hop hthis hmoot hfinal
    show _ ∈ moment.ended
    rw [hended, added, mapSession, hmore, List.drop_left]
    exact List.mem_cons_self
  written := rfl
  sent _ hdispatch := absurd hdispatch List.not_mem_nil

end

theorem dispatches_eq_nil (h : world.due = []) : world.dispatches = [] := by
  have hidle : world.session.operations.filter (·.isAsking world.now) = [] := by
    rw [due, List.map_eq_nil_iff, List.filter_eq_nil_iff] at h
    exact List.filter_eq_nil_iff.mpr fun op hop hasking =>
      h op hop (Bool.and_eq_true_iff.mp hasking).1
  have hdispatches := world.map_dispatchEach world.session.operations
  rw [hidle] at hdispatches
  exact List.map_eq_nil_iff.mp hdispatches

theorem exists_of_mem_dispatches {dispatch : Dispatch} (h : dispatch ∈ world.dispatches) :
    ∃ op ∈ world.session.operations, op.id = dispatch.id := by
  have hentry : (dispatch.id, dispatch.left) ∈
      (world.session.operations.filter (·.isAsking world.now)).map
        fun op => (op.id, op.steps) := by
    rw [← world.map_dispatchEach]
    exact List.mem_map_of_mem h
  obtain ⟨op, hop, hsame⟩ := List.mem_map.mp hentry
  exact ⟨op, List.mem_of_mem_filter hop, congrArg Prod.fst hsame⟩

theorem filter_dispatches (hids : (world.session.operations.map Operation.id).Nodup)
    (hop : op ∈ world.session.operations) :
    (world.dispatches.filter (·.id == op.id)).map (fun dispatch => (dispatch.id, dispatch.left)) =
      if op.isAsking world.now then [(op.id, op.steps)] else [] := by
  have hdispatches := congrArg (List.filter fun entry : Nat × List Step => entry.1 == op.id)
    (world.map_dispatchEach world.session.operations)
  rw [List.filter_map, List.filter_map] at hdispatches
  refine hdispatches.trans ?_
  show List.map _ (List.filter (fun other : Operation => other.id == op.id) _) = _
  rw [List.filter_comm, Operation.filter_id_eq hids hop, List.filter_singleton]
  cases op.isAsking world.now <;> rfl

theorem dealt_dispatches (id : Nat) : Episode.dealt ⟨moment, world.dispatches, none⟩ id =
    (world.dispatches.filter (·.id == id)).map
      fun dispatch => .asked moment.now dispatch.seq dispatch.left :=
  List.append_nil _

theorem dealt_of_not_asking (hids : (world.session.operations.map Operation.id).Nodup)
    (hop : op ∈ world.session.operations) (h : op.isAsking world.now = false) :
    Episode.dealt ⟨moment, world.dispatches, none⟩ op.id = [] := by
  have hfilter := filter_dispatches hids hop
  rw [h, if_neg Bool.false_ne_true, List.map_eq_nil_iff] at hfilter
  rw [dealt_dispatches, hfilter]
  rfl

theorem exists_dealt_of_asking (hids : (world.session.operations.map Operation.id).Nodup)
    (hop : op ∈ world.session.operations) (h : op.isAsking world.now = true) :
    ∃ dispatch, world.dispatches.filter (·.id == op.id) = [dispatch] ∧
      Episode.dealt ⟨moment, world.dispatches, none⟩ op.id =
        [.asked moment.now dispatch.seq op.steps] := by
  have hfilter := filter_dispatches hids hop
  rw [if_pos h, List.map_eq_singleton_iff] at hfilter
  obtain ⟨dispatch, hdispatch, hsame⟩ := hfilter
  obtain ⟨-, hleft⟩ := Prod.mk.inj hsame
  refine ⟨dispatch, hdispatch, ?_⟩
  rw [dealt_dispatches, hdispatch, ← hleft]
  rfl

theorem continues_pump (hids : (world.session.operations.map Operation.id).Nodup)
    (hnow : moment.now = world.now) {new : Operation} (hnew : new ∈ world.pump.session.operations) :
    ∃ op ∈ world.session.operations, op.Continues world.session.config
      (Episode.dealt ⟨moment, world.dispatches, none⟩ op.id) new := by
  obtain ⟨op, hop, hcases⟩ := world.exists_of_mem_pumpEach world.session.operations new hnew
  refine ⟨op, hop, ?_⟩
  rcases hcases with ⟨hasking, rfl⟩ | ⟨hasking, dispatch, hdispatch, hid, deadline, rfl⟩
  · rw [dealt_of_not_asking hids hop hasking]
    exact .rest
  · obtain ⟨only, honly, hasked⟩ := @exists_dealt_of_asking _ moment _ hids hop hasking
    have hmem : dispatch ∈ world.dispatches.filter (·.id == op.id) :=
      List.mem_filter.mpr ⟨hdispatch, beq_iff_eq.mpr hid⟩
    rw [honly, List.mem_singleton] at hmem
    rw [hasked, ← hmem]
    exact .ask (hnow ▸ hasking) dispatch.seq deadline

/-- Each operation that asks waits for the answer, or ends. -/
theorem deals_pump (hids : (world.session.operations.map Operation.id).Nodup)
    (hnow : moment.now = world.now) (hanswered : moment.answered = none)
    (hended : moment.ended = world.added world.pump) :
    world.Deals ⟨moment, world.dispatches, none⟩ world.pump where
  config := by
    obtain ⟨exchange, results, hsession⟩ := session_pump world
    rw [hsession]
  known id hid := by
    rw [dealt_dispatches, Ne, List.map_eq_nil_iff] at hid
    obtain ⟨dispatch, hdispatch⟩ := List.exists_mem_of_ne_nil _ hid
    obtain ⟨hdispatch, hsame⟩ := List.mem_filter.mp hdispatch
    exact beq_iff_eq.mp hsame ▸ exists_of_mem_dispatches hdispatch
  deals op hop := by
    cases hasking : op.isAsking world.now with
    | false =>
        rw [dealt_of_not_asking hids hop hasking]
        exact .nothing
    | true =>
        obtain ⟨dispatch, -, hasked⟩ := @exists_dealt_of_asking _ moment _ hids hop hasking
        rw [hasked]
        exact .asked (hnow ▸ hasking)
  kept new hnew := Or.inl (continues_pump hids hnow hnew)
  refused id fault hfault :=
    absurd ((Moment.answerTo?_of_none hanswered id).symm.trans hfault) (by simp)
  written := world.sent_pumpEach world.session.operations
  sent dispatch hdispatch := by
    obtain ⟨hwritten, hunsent⟩ :=
      world.writes_dispatchEach world.session.operations dispatch hdispatch
    refine ⟨exists_of_mem_dispatches hdispatch, hwritten, fun hnil => ?_⟩
    have hsends := (exists_pumped world world.session.operations).1.session
    show ∃ fault, _ ∈ moment.ended
    rw [hended, added, pump_eq, mapSession, hsends, List.drop_left]
    exact hunsent hnil

/-- Whatever occurs is nothing to operations, or an episode. -/
theorem Occurs.deals {episodes : List Episode} (h : Occurs reserved world episodes next after)
    (hids : (world.session.operations.map Operation.id).Nodup) :
    (episodes = [] ∧ after.session.config = world.session.config ∧
      after.session.operations = world.session.operations ∧
      after.channel.changes = world.channel.changes) ∨
    ∃ episode, episodes = [episode] ∧ world.Deals episode after := by
  cases h with
  | reply hturn => exact Or.inr ⟨_, rfl, deals_reply hids hturn rfl rfl rfl⟩
  | pump => exact Or.inr ⟨_, rfl, deals_pump hids rfl rfl rfl⟩
  | quiet hchange hasked hanswered =>
      cases hchange with
      | aside _ _ hchanges hconfig _ hoperations =>
          exact Or.inl ⟨rfl, hconfig, hoperations, hchanges⟩
      | reserve => exact Or.inl ⟨rfl, rfl, rfl, rfl⟩
      | lapse => exact Or.inl ⟨rfl, rfl, rfl, rfl⟩
      | turn turn =>
          have hnone := List.forall_mem_singleton.mp hanswered
          refine Or.inr ⟨_, rfl, .quiet hnone (Session.config_turn turn) rfl fun new hnew => ?_⟩
          obtain ⟨op, hop, ⟨-, rfl⟩ | ⟨answer, seq, hthis, -⟩⟩ := Session.exists_of_mem_turn hnew
          · exact Or.inl hop
          · exact absurd (hnone.symm.trans hthis) (by simp)
      | pump =>
          have hdue : world.due = [] := hasked _ List.mem_cons_self
          have hdeals := @deals_pump world
            { world.moment with asked := world.due, ended := world.added world.pump } hids rfl rfl
            rfl
          rw [dispatches_eq_nil hdue] at hdeals
          exact Or.inr ⟨_, rfl, hdeals⟩
      | expire =>
          refine Or.inr ⟨_, rfl, .quiet rfl rfl rfl fun op hop => Or.inl ?_⟩
          exact (Session.mem_operations_conclude.mp hop).1
      | @submit _ planning =>
          refine Or.inr ⟨_, rfl, .quiet rfl ?_ rfl fun op hop => ?_⟩
          · rw [mapSession, Session.undertake]
            split <;> rfl
          · rw [mapSession, Session.undertake] at hop
            split at hop
            · exact Or.inl hop
            · rcases List.mem_append.mp hop with hold | hnew
              · exact Or.inl hold
              · exact Or.inr ⟨planning, rfl, List.mem_singleton.mp hnew⟩
      | hand => exact Or.inr ⟨_, rfl, .quiet rfl rfl rfl fun op hop => Or.inl hop⟩

end World

end NetState
