import NetState.Session.Run

namespace NetState.Flow

variable {α β : Type}

/-- What a call comes to: its result or the reason why there is none, and the world it leaves. -/
def result (flow : Flow α) (world : World) : Except Halt α × World :=
  flow.run world

theorem result_bind (flow : Flow α) (next : α → Flow β) (world : World) :
    result (flow >>= next) world =
      match result flow world with
      | (.ok value, after) => result (next value) after
      | (.error halt, after) => (.error halt, after) := by
  show (match result flow world with
    | (ended, after) => ExceptT.bindCont next ended after) = _
  rcases result flow world with ⟨halt | value, after⟩ <;> rfl

theorem result_bind_ok_iff {flow : Flow α} {next : α → Flow β} {world after : World} {value : β} :
    result (flow >>= next) world = (.ok value, after) ↔
      ∃ found middle, result flow world = (.ok found, middle) ∧
        result (next found) middle = (.ok value, after) := by
  rw [result_bind]
  rcases result flow world with ⟨halt | found, middle⟩
  · simp
  · constructor
    · intro h
      exact ⟨found, middle, rfl, h⟩
    · rintro ⟨other, place, h, hnext⟩
      obtain ⟨hfound, rfl⟩ := Prod.mk.inj h
      rw [Except.ok.inj hfound]
      exact hnext

theorem result_pure (value : α) (world : World) :
    result (pure value : Flow α) world = (.ok value, world) :=
  rfl

theorem result_get (world : World) : result (get : Flow World) world = (.ok world, world) :=
  rfl

theorem result_set (other world : World) :
    result (set other : Flow PUnit) world = (.ok ⟨⟩, other) :=
  rfl

theorem result_throw (halt : Halt) (world : World) :
    result (throw halt : Flow α) world = (.error halt, world) :=
  rfl

theorem result_change (update : World → World) (world : World) :
    result (change update) world = (.ok (), update world) :=
  rfl

theorem result_session (update : Session → Session) (world : World) :
    result (session update) world = (.ok (), world.mapSession update) :=
  rfl

theorem result_ofExcept (ended : Except Fault α) (world : World) :
    result (ofExcept ended) world = (ended.mapError .fault, world) := by
  cases ended <;> rfl

theorem result_ofFailing_of_crash {ended : Except Failure α} (h : ended = .error .crash)
    (world : World) : result (ofFailing ended) world = (.error .crash, world) := by
  rw [h]
  rfl

theorem result_sending (update : World → World × Except Fault α) (world : World) :
    result (sending update) world =
      (if (update world).1.channel.peer.crashed then .error .crash
        else (update world).2.mapError .fault, (update world).1) := by
  rw [sending]
  simp only [result_bind, result_get, result_set]
  by_cases hcrashed : (update world).1.channel.peer.crashed
  · rw [if_pos hcrashed, if_pos hcrashed, result_bind, result_throw]
  · rw [if_neg hcrashed, if_neg hcrashed]
    exact result_ofExcept _ _

theorem result_pump (world : World) :
    result pump world = (if world.pump.channel.peer.crashed then .error .crash else .ok (),
      world.pump) :=
  result_sending _ world

theorem of_result_pump {world after : World} (h : result pump world = (.ok (), after)) :
    world.pump.channel.peer.crashed = false ∧ after = world.pump := by
  rw [result_pump] at h
  obtain ⟨hended, rfl⟩ := Prod.mk.inj h
  refine ⟨Bool.eq_false_iff.mpr fun hcrashed => ?_, rfl⟩
  rw [if_pos hcrashed] at hended
  exact absurd hended (by simp)

theorem result_tryCatch (flow : Flow α) (handle : Halt → Flow α) (world : World) :
    result (tryCatch flow handle) world =
      match result flow world with
      | (.error halt, after) => result (handle halt) after
      | ended => ended := by
  simp only [tryCatch, tryCatchThe, MonadExceptOf.tryCatch, ExceptT.tryCatch, ExceptT.mk, result,
    ExceptT.run, bind, StateT.bind]
  rcases flow world with ⟨halt | value, after⟩ <;> rfl

theorem result_recover (flow : Flow α) (handle : Fault → Flow α) (world : World) :
    result (recover flow handle) world =
      match result flow world with
      | (.error (.fault fault), after) => result (handle fault) after
      | ended => ended := by
  rw [recover, result_tryCatch]
  rcases result flow world with ⟨(fault | _ | _) | value, after⟩ <;> rfl

/-- Whether a call that ends with a result leaves a world as told, and so does one that ends with a
fault. A call that stalls or ends the program never returns, so nothing is asked of what it
leaves. -/
def Ends (flow : Flow α) (world : World) (done : α → World → Prop)
    (failed : Fault → World → Prop) : Prop :=
  match result flow world with
  | (.ok value, after) => done value after
  | (.error (.fault fault), after) => failed fault after
  | (.error .stalled, _) => True
  | (.error .crash, _) => True

namespace Ends

variable {flow : Flow α} {world after : World} {done : α → World → Prop}
  {failed : Fault → World → Prop}

theorem of_ok (h : Ends flow world done failed) {value : α}
    (hresult : result flow world = (.ok value, after)) : done value after := by
  rw [Ends, hresult] at h
  exact h

theorem of_fault (h : Ends flow world done failed) {fault : Fault}
    (hresult : result flow world = (.error (.fault fault), after)) : failed fault after := by
  rw [Ends, hresult] at h
  exact h

theorem of_result_eq {other : Flow α} (hsame : result flow world = result other after)
    (h : Ends other after done failed) : Ends flow world done failed := by
  rw [Ends, hsame]
  exact h

theorem mono (h : Ends flow world done failed) {other : α → World → Prop}
    {otherFailed : Fault → World → Prop}
    (hdone : ∀ value after, done value after → other value after)
    (hfailed : ∀ fault after, failed fault after → otherFailed fault after) :
    Ends flow world other otherFailed := by
  rw [Ends] at h ⊢
  rcases hresult : result flow world with ⟨(fault | _ | _) | value, after⟩
  · rw [hresult] at h
    exact hfailed fault after h
  · trivial
  · trivial
  · rw [hresult] at h
    exact hdone value after h

theorem bind {next : α → Flow β} {done : β → World → Prop}
    (h : Ends flow world (fun value after => Ends (next value) after done failed) failed) :
    Ends (flow >>= next) world done failed := by
  rw [Ends] at h ⊢
  rw [result_bind]
  rcases hresult : result flow world with ⟨(fault | _ | _) | value, after⟩
  · rw [hresult] at h
    exact h
  · trivial
  · trivial
  · rw [hresult] at h
    exact h

theorem pure {value : α} (h : done value world) : Ends (Pure.pure value) world done failed :=
  h

theorem get {done : World → World → Prop} (h : done world world) :
    Ends MonadState.get world done failed :=
  h

theorem set {other : World} {done : PUnit → World → Prop} (h : done ⟨⟩ other) :
    Ends (MonadStateOf.set other) world done failed :=
  h

theorem session {update : Session → Session} {done : Unit → World → Prop}
    (h : done () (world.mapSession update)) : Ends (Flow.session update) world done failed :=
  h

theorem change {update : World → World} {done : Unit → World → Prop}
    (h : done () (update world)) : Ends (Flow.change update) world done failed :=
  h

theorem throw_fault {fault : Fault} (h : failed fault world) :
    Ends (throw (.fault fault) : Flow α) world done failed :=
  h

theorem throw_stalled : Ends (throw .stalled : Flow α) world done failed :=
  trivial

theorem ofExcept {ended : Except Fault α} (hok : ∀ value, ended = .ok value → done value world)
    (herror : ∀ fault, ended = .error fault → failed fault world) :
    Ends (Flow.ofExcept ended) world done failed := by
  cases ended with
  | ok value => exact hok value rfl
  | error fault => exact herror fault rfl

theorem sending {update : World → World × Except Fault α}
    (hok : ∀ value after, update world = (after, .ok value) →
      after.channel.peer.crashed = false → done value after)
    (herror : ∀ fault after, update world = (after, .error fault) →
      after.channel.peer.crashed = false → failed fault after) :
    Ends (Flow.sending update) world done failed := by
  rw [Ends, result_sending]
  rcases hupdate : update world with ⟨after, fault | value⟩
  all_goals
    simp only
    cases hcrashed : after.channel.peer.crashed
  · exact herror fault after hupdate hcrashed
  · trivial
  · exact hok value after hupdate hcrashed
  · trivial

theorem pump {done : Unit → World → Prop}
    (h : world.pump.channel.peer.crashed = false → done () world.pump) :
    Ends Flow.pump world done failed := by
  refine sending ?_ fun fault after hpumped => absurd (Prod.mk.inj hpumped).2 (by simp)
  intro _ after hpumped hcalm
  obtain ⟨rfl, -⟩ := Prod.mk.inj hpumped
  exact h hcalm

theorem ofFailing {ended : Except Failure α} (hok : ∀ value, ended = .ok value → done value world)
    (herror : ∀ fault, ended = .error (.fault fault) → failed fault world) :
    Ends (Flow.ofFailing ended) world done failed := by
  rcases ended with (fault | _) | value
  · exact herror fault rfl
  · trivial
  · exact hok value rfl

theorem discard {done : Unit → World → Prop}
    (h : Ends flow world (fun _ after => done () after) failed) :
    Ends (Functor.discard flow) world done failed :=
  show Ends (flow >>= fun _ => Pure.pure ()) world done failed from
    bind (h.mono (fun _ _ => id) fun _ _ => id)

theorem recover {handle : Fault → Flow α}
    (h : Ends flow world done fun fault after => Ends (handle fault) after done failed) :
    Ends (Flow.recover flow handle) world done failed := by
  rw [Ends] at h ⊢
  rw [result_recover]
  rcases hresult : result flow world with ⟨(fault | _ | _) | value, after⟩
  · rw [hresult] at h
    exact h
  · trivial
  · trivial
  · rw [hresult] at h
    exact h

end Ends

/-- Whether a call that ends well comes to a result and a world as told, and fails for no other
reason than that it has waited for too long. -/
def Ensures (flow : Flow α) (world : World) (post : α → World → Prop) : Prop :=
  match result flow world with
  | (.ok value, after) => post value after
  | (.error (.fault fault), _) => ∃ text span, fault = .timeout text span
  | (.error .stalled, _) => True
  | (.error .crash, _) => True

theorem ensures_iff_ends {flow : Flow α} {world : World} {post : α → World → Prop} :
    Ensures flow world post ↔
      Ends flow world post fun fault _ => ∃ text span, fault = .timeout text span :=
  Iff.rfl

namespace Ensures

variable {flow : Flow α} {world : World} {post : α → World → Prop}

theorem of_result (h : Ensures flow world post) {value : α} {after : World}
    (hresult : result flow world = (.ok value, after)) : post value after :=
  (ensures_iff_ends.mp h).of_ok hresult

theorem mono (h : Ensures flow world post) {other : α → World → Prop}
    (himplies : ∀ value after, post value after → other value after) :
    Ensures flow world other :=
  (ensures_iff_ends.mp h).mono himplies fun _ _ => id

theorem bind {next : α → Flow β} {post : β → World → Prop}
    (h : Ensures flow world fun value after => Ensures (next value) after post) :
    Ensures (flow >>= next) world post :=
  ensures_iff_ends.mpr (Ends.bind (ensures_iff_ends.mp h))

theorem pure {value : α} (h : post value world) : Ensures (Pure.pure value) world post :=
  h

theorem get {post : World → World → Prop} (h : post world world) :
    Ensures MonadState.get world post :=
  h

theorem session {update : Session → Session} {post : Unit → World → Prop}
    (h : post () (world.mapSession update)) : Ensures (Flow.session update) world post :=
  h

theorem change {update : World → World} {post : Unit → World → Prop} (h : post () (update world)) :
    Ensures (Flow.change update) world post :=
  h

theorem discard {post : Unit → World → Prop}
    (h : Ensures flow world fun _ after => post () after) :
    Ensures (Functor.discard flow) world post :=
  show Ensures (flow >>= fun _ => Pure.pure ()) world post from bind (h.mono fun _ _ => id)

theorem throw_stalled : Ensures (throw .stalled : Flow α) world post :=
  trivial

theorem sending {update : World → World × Except Fault α} {value : α} {after : World}
    (hupdate : update world = (after, .ok value)) (hpost : post value after) :
    Ensures (Flow.sending update) world post := by
  refine ensures_iff_ends.mpr (Ends.sending ?_ fun fault other hother => ?_)
  · intro found other hother _
    obtain ⟨rfl, hvalue⟩ := Prod.mk.inj (hupdate.symm.trans hother)
    rwa [← Except.ok.inj hvalue]
  · exact absurd (Prod.mk.inj (hupdate.symm.trans hother)).2 (by simp)

theorem throw_timeout (text : String) (span : Span) :
    Ensures (throw (.fault (.timeout text span)) : Flow α) world post :=
  ⟨text, span, rfl⟩

theorem recover {handle : Fault → Flow α} (h : Ensures flow world post)
    (hhandle : ∀ text span after, result (handle (.timeout text span)) after =
      (.error (.fault (.timeout text span)), after)) :
    Ensures (Flow.recover flow handle) world post := by
  refine ensures_iff_ends.mpr (Ends.recover ((ensures_iff_ends.mp h).mono (fun _ _ => id) ?_))
  rintro fault after ⟨text, span, rfl⟩
  rw [Ends, hhandle]
  exact ⟨text, span, rfl⟩

theorem mapM {each : β → Flow α} {invariant : World → Prop} {found : β → α} {list : List β}
    (heach : ∀ element ∈ list, ∀ world, invariant world →
      Ensures (each element) world fun value after => value = found element ∧ invariant after)
    (hworld : invariant world) :
    Ensures (list.mapM each) world fun values after =>
      values = list.map found ∧ invariant after := by
  induction list generalizing world with
  | nil =>
      rw [List.mapM_nil]
      exact ⟨rfl, hworld⟩
  | cons first rest ih =>
      rw [List.mapM_cons]
      refine bind ((heach first List.mem_cons_self world hworld).mono ?_)
      rintro value middle ⟨rfl, hmiddle⟩
      have hrest := ih (fun element hmem => heach element (List.mem_cons_of_mem _ hmem)) hmiddle
      refine bind (hrest.mono ?_)
      rintro values after ⟨rfl, hafter⟩
      exact ⟨rfl, hafter⟩

end Ensures

end NetState.Flow
