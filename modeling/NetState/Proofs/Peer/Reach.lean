import NetState.Proofs.Peer.Deed

namespace NetState.Peer

theorem forall_of_put {α κ : Type} {key : α → κ} {value : α} {list after : List α}
    {property : α → Prop} (hput : IsPut key value list after) (hvalue : property value)
    (hlist : ∀ element ∈ list, property element) : ∀ element ∈ after, property element := by
  intro element hmem
  rcases hput.mem_iff.mp hmem with rfl | ⟨hmem, -⟩
  · exact hvalue
  · exact hlist element hmem

theorem Sound.isPut_default {peer : Peer} (h : peer.Sound) {index : UInt32}
    (hindex : index = peer.nextIndex) :
    IsPut disciplineKey (defaultDiscipline index) peer.disciplines
      (peer.disciplines ++ [defaultDiscipline index]) := by
  refine isPut_append h.disciplines_distinct ?_
  intro d hd heq
  obtain ⟨other, hother⟩ := h.disciplines_based d hd
  have hlt := (h.numbered hother).2
  rw [show d.interface = peer.nextIndex from (congrArg Prod.fst heq).trans hindex] at hlt
  exact UInt32.lt_irrefl _ hlt

theorem Sound.newLink_withDefault {peer : Peer} (h : peer.Sound) {l : Link}
    (hindex : l.index = peer.nextIndex) (hnext : peer.nextIndex < peer.nextIndex + 1)
    (hname : ∀ {index other}, peer.links.get? index = some other → other.name ≠ l.name) :
    ({ peer with
      nextIndex := peer.nextIndex + 1
      links := peer.links.insert l.index l
      disciplines := peer.disciplines ++ [defaultDiscipline l.index] } : Peer).Sound := by
  have hnew := h.newLink hindex hnext hname
  have hput := h.isPut_default hindex
  refine hnew.setTraffic (forall_of_put hput ?_ hnew.disciplines_based) hnew.filters_based
    hput.nodup hnew.filters_distinct
    (forall_of_put hput (isRegular_default _) hnew.disciplines_regular) ?_
  · exact ⟨l, Table.get?_insert_self _ _ _⟩
  · intro f hf
    obtain ⟨d, hd, hhangs⟩ := hasFilterParent_iff.mp (h.filters_hung f hf)
    exact ⟨d, List.mem_append_left _ hd, hhangs⟩

theorem Sound.bare {peer : Peer} (h : peer.Sound) (index : UInt32) : (peer.bare index).Sound := by
  have haddresses := h.setAddresses (peer.addresses.filter (·.interface != index))
    (fun a ha => h.addresses_based a (List.mem_of_mem_filter ha))
    (h.addresses_distinct.sublist (List.filter_sublist.map _))
  have hroutes := haddresses.setRoutes (peer.routes.filter (·.interface != index))
    (fun r hr => h.routes_based r (List.mem_of_mem_filter hr))
    (h.routes_distinct.sublist (List.filter_sublist.map _))
  refine hroutes.setTraffic (fun d hd => h.disciplines_based d (List.mem_of_mem_filter hd))
    (fun f hf => h.filters_based f (List.mem_of_mem_filter hf))
    (h.disciplines_distinct.sublist (List.filter_sublist.map _))
    (h.filters_distinct.sublist (List.filter_sublist.map _))
    (fun d hd => h.disciplines_regular d (List.mem_of_mem_filter hd)) ?_
  intro f hf
  obtain ⟨hmem, hother⟩ := List.mem_filter.mp hf
  obtain ⟨d, hd, hinterface, hhangs⟩ := hasFilterParent_iff.mp (h.filters_hung f hmem)
  refine ⟨d, List.mem_filter.mpr ⟨hd, ?_⟩, hinterface, hhangs⟩
  rw [hinterface]
  exact hother

theorem Sound.dropLink {peer : Peer} (h : peer.Sound) (index : UInt32) :
    ({ peer.bare index with links := peer.links.erase index } : Peer).Sound := by
  have hother {α : Type} {interface : α → UInt32} {list : List α} :
      ∀ element ∈ list.filter (interface · != index), interface element ≠ index := by
    intro element hmem
    simpa using (List.mem_filter.mp hmem).2
  exact (h.bare index).eraseLink hother hother hother hother

theorem exists_parent_without {peer : Peer} (h : peer.Sound) {old : Discipline}
    (hold : old ∈ peer.disciplines) {f : Filter} (hf : f ∈ peer.filtersWithout old) :
    ∃ d ∈ peer.disciplines, disciplineKey d ≠ disciplineKey old ∧
      d.interface = f.interface ∧ d.isDefault = false ∧ d.handle.major = f.parent.major := by
  obtain ⟨hmem, hstays⟩ := List.mem_filter.mp hf
  obtain ⟨d, hd, hinterface, hdefault, hmajor⟩ := hasFilterParent_iff.mp (h.filters_hung f hmem)
  refine ⟨d, hd, ?_, hinterface, hdefault, hmajor⟩
  intro hkey
  rw [eq_of_disciplineKey h hold hd hkey] at hinterface hmajor
  simp [hinterface, hmajor] at hstays

theorem filters_based_without {peer : Peer} (h : peer.Sound) (d : Discipline) :
    ∀ f ∈ peer.filtersWithout d, peer.HasLink f.interface :=
  fun f hf => h.filters_based f (List.mem_of_mem_filter hf)

theorem filters_distinct_without {peer : Peer} (h : peer.Sound) (d : Discipline) :
    ((peer.filtersWithout d).map filterKey).Nodup :=
  h.filters_distinct.sublist (List.filter_sublist.map _)

theorem Sound.putDiscipline {peer : Peer} (h : peer.Sound) {d : Discipline}
    {disciplines : List Discipline} (hlink : peer.HasLink d.interface)
    (hsame : ∀ old ∈ peer.disciplines, disciplineKey old = disciplineKey d →
      old.isDefault = true ∨ old.handle = d.handle)
    (hregular : IsRegular d) (hput : IsPut disciplineKey d peer.disciplines disciplines) :
    ({ peer with disciplines } : Peer).Sound := by
  refine h.setTraffic (forall_of_put hput hlink h.disciplines_based) h.filters_based hput.nodup
    h.filters_distinct (forall_of_put hput hregular h.disciplines_regular) ?_
  intro f hf
  obtain ⟨old, hold, hinterface, hdefault, hmajor⟩ := hasFilterParent_iff.mp (h.filters_hung f hf)
  by_cases hkey : disciplineKey old = disciplineKey d
  · rcases hsame old hold hkey with hdef | hhandle
    · exact absurd (hdef.symm.trans hdefault) (by simp)
    · refine ⟨d, hput.mem, ?_, ?_, ?_⟩
      · exact (congrArg Prod.fst hkey).symm.trans hinterface
      · rw [Discipline.isDefault, ← hhandle]
        exact hdefault
      · rw [← hhandle]
        exact hmajor
  · exact ⟨old, hput.mem_iff.mpr (Or.inr ⟨hold, hkey⟩), hinterface, hdefault, hmajor⟩

theorem Sound.dropDiscipline {peer : Peer} (h : peer.Sound) {old : Discipline}
    {disciplines : List Discipline} (hold : old ∈ peer.disciplines)
    (hbased : ∀ d ∈ disciplines, peer.HasLink d.interface)
    (hdistinct : (disciplines.map disciplineKey).Nodup)
    (hregular : ∀ d ∈ disciplines, IsRegular d)
    (hleft : ∀ d ∈ peer.disciplines, disciplineKey d ≠ disciplineKey old → d ∈ disciplines) :
    ({ peer with disciplines, filters := peer.filtersWithout old } : Peer).Sound := by
  refine h.setTraffic hbased (filters_based_without h old) hdistinct
    (filters_distinct_without h old) hregular ?_
  intro f hf
  obtain ⟨d, hd, hkey, hhangs⟩ := exists_parent_without h hold hf
  exact ⟨d, hleft d hd hkey, hhangs⟩

theorem Sound.uproot {peer : Peer} (h : peer.Sound) {d : Discipline}
    {disciplines : List Discipline} (hdefault : d.isDefault = true)
    (htaken : IsTaken disciplineKey d peer.disciplines disciplines) :
    ({ peer with disciplines } : Peer).Sound := by
  refine h.setTraffic (fun other hother => h.disciplines_based other (htaken.mem_iff.mp hother).1)
    h.filters_based htaken.nodup h.filters_distinct
    (fun other hother => h.disciplines_regular other (htaken.mem_iff.mp hother).1) ?_
  intro f hf
  obtain ⟨other, hother, hinterface, hset, hmajor⟩ := hasFilterParent_iff.mp (h.filters_hung f hf)
  refine ⟨other, htaken.mem_iff.mpr ⟨hother, ?_⟩, hinterface, hset, hmajor⟩
  intro hkey
  rw [eq_of_disciplineKey h htaken.mem hother hkey] at hset
  exact absurd (hdefault.symm.trans hset) (by simp)

theorem Sound.deed {peer after : Peer} {news : List News} (h : peer.Sound)
    (hdeed : Deed peer news after) : after.Sound := by
  cases hdeed with
  | stay => exact h
  | putLink hold hname => exact h.setLink hold hname
  | newLink hindex hnext hname => exact h.newLink_withDefault hindex hnext hname
  | dropLink hl => exact h.dropLink _
  | putAddress hlink hput =>
      exact h.setAddresses _ (forall_of_put hput hlink h.addresses_based) hput.nodup
  | dropAddress htaken =>
      exact h.setAddresses _ (fun a ha => h.addresses_based a (htaken.mem_iff.mp ha).1) htaken.nodup
  | putRoute hlink hput => exact h.setRoutes _ (forall_of_put hput hlink h.routes_based) hput.nodup
  | dropRoute htaken =>
      exact h.setRoutes _ (fun r hr => h.routes_based r (htaken.mem_iff.mp hr).1) htaken.nodup
  | putDiscipline hlink hsame hregular hput =>
      exact (h.putDiscipline hlink hsame hregular hput).of_holdings rfl
  | dropDiscipline hdefault htaken =>
      exact h.dropDiscipline htaken.mem
        (fun d hd => h.disciplines_based d (htaken.mem_iff.mp hd).1) htaken.nodup
        (fun d hd => h.disciplines_regular d (htaken.mem_iff.mp hd).1)
        fun d hd hkey => htaken.mem_iff.mpr ⟨hd, hkey⟩
  | graftDiscipline hold hdefault hkey hregular hput =>
      rename_i old d disciplines nextMajor
      have hlink : peer.HasLink d.interface := by
        rw [show d.interface = old.interface from congrArg Prod.fst hkey]
        exact h.disciplines_based old hold
      refine (h.dropDiscipline hold (forall_of_put hput hlink h.disciplines_based) hput.nodup
        (forall_of_put hput hregular h.disciplines_regular) ?_).of_holdings rfl
      intro other hother hne
      exact hput.mem_iff.mpr (Or.inr ⟨hother, fun heq => hne (heq.trans hkey)⟩)
  | putFilter hlink hparent hput =>
      refine h.setTraffic h.disciplines_based (forall_of_put hput hlink h.filters_based)
        h.disciplines_distinct hput.nodup h.disciplines_regular ?_
      intro f hf
      rcases hput.mem_iff.mp hf with rfl | ⟨hmem, -⟩
      · exact hasFilterParent_iff.mp hparent
      · exact hasFilterParent_iff.mp (h.filters_hung f hmem)
  | dropFilters gone =>
      refine h.setTraffic h.disciplines_based
        (fun f hf => h.filters_based f (List.mem_of_mem_filter hf)) h.disciplines_distinct
        (h.filters_distinct.sublist (List.filter_sublist.map _)) h.disciplines_regular ?_
      intro f hf
      exact hasFilterParent_iff.mp (h.filters_hung f (List.mem_of_mem_filter hf))

theorem Sound.course {peer : Peer} {origin : Origin} {effect : Effect} (h : peer.Sound)
    (hcourse : Course peer origin effect) : effect.peer.Sound := by
  cases hcourse with
  | done hdeed refusal => exact (h.deed hdeed).tellAll origin _
  | uprooted hdefault htaken errno => exact h.uproot hdefault htaken

/-- A change as it is asked for by a request, which `decoded` tells. -/
def carryOut (peer : Peer) (request : Header)
    (decoded : Except Failure (Option (Change × Object))) : Effect :=
  let goal : Goal := if Object.delTypes.contains request.kind then .absent else .present
  match decoded with
  | .ok (some (_, object)) => peer.apply ⟨request.seq, request.pid, false⟩ request.flags goal object
  | .ok none => refuse peer Errno.notSupported
  | .error _ => refuse peer Errno.invalid

theorem answerChange_eq (peer : Peer) (request : Header)
    (decoded : Except Failure (Option (Change × Object))) :
    peer.answerChange request decoded =
      match (peer.carryOut request decoded).refusal with
      | some errno =>
        (peer.carryOut request decoded).peer.report request (Int32.ofInt (-errno))
      | none =>
        if hasFlag request.flags Flag.ack then (peer.carryOut request decoded).peer.report request 0
        else (peer.carryOut request decoded).peer :=
  rfl

@[simp]
theorem holdings_report (peer : Peer) (request : Header) (code : Int32) :
    (peer.report request code).holdings = peer.holdings := by
  rw [report]
  split <;> rfl

theorem holdings_answerChange (peer : Peer) (request : Header)
    (decoded : Except Failure (Option (Change × Object))) :
    (peer.answerChange request decoded).holdings =
      (peer.carryOut request decoded).peer.holdings := by
  rw [answerChange_eq]
  split
  · exact holdings_report _ _ _
  · split
    · exact holdings_report _ _ _
    · rfl

theorem holdings_answerListing (peer : Peer) (request : Message) :
    (peer.answerListing request).holdings = peer.holdings := by
  rw [answerListing]
  split
  · exact holdings_report _ _ _
  · rfl

theorem nextIndex_of_holdings {peer other : Peer} (h : other.holdings = peer.holdings) :
    other.nextIndex = peer.nextIndex :=
  congrArg (fun held => held.2.2.2.2.2) h

theorem Sound.apply {peer : Peer} (h : peer.Sound) (origin : Origin) (flags : UInt16) (goal : Goal)
    (object : Object)
    (hnext : peer.nextIndex ≤ (peer.apply origin flags goal object).peer.nextIndex) :
    (peer.apply origin flags goal object).peer.Sound :=
  h.course (course_apply h origin flags goal object hnext)

/-- What a change from outside comes to. -/
def interference (peer : Peer) (object : Object) (goal : Goal) (silent : Bool) : Effect :=
  let flags := match goal with
    | .present => Flag.create ||| Flag.replace
    | .absent => 0
  peer.apply (.outside silent) flags goal object

theorem intervene_eq (peer : Peer) (object : Object) (goal : Goal) (silent : Bool) :
    peer.intervene object goal silent =
      ((peer.interference object goal silent).peer,
        match (peer.interference object goal silent).refusal with
        | none => .ok ()
        | some errno => .error (.kernel errno none)) := by
  show (match (peer.interference object goal silent).refusal with
    | none => ((peer.interference object goal silent).peer, _)
    | some errno => ((peer.interference object goal silent).peer, _)) = _
  cases (peer.interference object goal silent).refusal <;> rfl

theorem Sound.intervene {peer : Peer} (h : peer.Sound) (object : Object) (goal : Goal)
    (silent : Bool) (hnext : peer.nextIndex ≤ (peer.intervene object goal silent).1.nextIndex) :
    (peer.intervene object goal silent).1.Sound := by
  rw [intervene_eq] at hnext ⊢
  exact h.apply _ _ goal object hnext

theorem course_carryOut {peer : Peer} (h : peer.Sound) (request : Header)
    (decoded : Except Failure (Option (Change × Object)))
    (hnext : peer.nextIndex ≤ (peer.carryOut request decoded).peer.nextIndex) :
    Course peer ⟨request.seq, request.pid, false⟩ (peer.carryOut request decoded) := by
  cases decoded with
  | error fault => exact Course.refuse peer _ _
  | ok found =>
      cases found with
      | none => exact Course.refuse peer _ _
      | some told => exact course_apply h _ _ _ told.2 hnext

theorem Sound.answerChange {peer : Peer} (h : peer.Sound) (request : Header)
    (decoded : Except Failure (Option (Change × Object)))
    (hnext : peer.nextIndex ≤ (peer.answerChange request decoded).nextIndex) :
    (peer.answerChange request decoded).Sound := by
  have hsame := holdings_answerChange peer request decoded
  rw [nextIndex_of_holdings hsame] at hnext
  exact Sound.of_holdings (h.course (course_carryOut h request decoded hnext)) hsame

def noted (peer : Peer) (request : Message) : Peer :=
  let object := match Object.decode request.header.kind request.payload with
    | .ok (some (_, object)) => if asksForListing request.header then none else some object
    | _ => none
  { peer with
    requests :=
      ⟨request.header.kind, request.header.flags, request.header.seq, object⟩ :: peer.requests }

theorem respond_eq (peer : Peer) (request : Message) :
    peer.respond request =
      match takeFailure request.header.kind peer.failures with
      | some (errno, left) =>
        ({ peer.noted request with failures := left } : Peer).report request.header (-errno)
      | none =>
        if asksForListing request.header then (peer.noted request).answerListing request
        else (peer.noted request).answerChange request.header
          (Object.decode request.header.kind request.payload) :=
  rfl

theorem answer_of_calm {peer : Peer} {request : Message} (h : peer.crashes request = false) :
    peer.answer request = peer.respond request :=
  if_neg (by rw [h]; exact Bool.false_ne_true)

/-- A request ends the program, and leaves all else as it is, or it is responded to. -/
theorem answer_cases (peer : Peer) (request : Message) :
    peer.answer request = { peer with crashed := true } ∨
      peer.answer request = peer.respond request := by
  rw [answer]
  split
  · exact Or.inl rfl
  · exact Or.inr rfl

theorem crashed_answer {peer : Peer} {request : Message} (h : peer.crashes request = true) :
    (peer.answer request).crashed = true := by
  rw [answer, if_pos h]

theorem crashes_eq_false {peer : Peer} {request : Message} (hfailures : peer.failures = [])
    (hdecode : Failure.isCrash (Object.decode request.header.kind request.payload) = false)
    (hfilter : request.header.kind = MessageType.getFilter →
      (Filter.ofPayload? request.payload).isSome = true) : peer.crashes request = false := by
  simp only [crashes, hdecode, hfailures, takeFailure, Bool.false_or]
  by_cases hkind : request.header.kind = MessageType.getFilter
  · simp [Option.isNone_iff_eq_none, Option.isSome_iff_ne_none.mp (hfilter hkind)]
  · simp [hkind]

theorem crashed_answer_of_failure {peer : Peer} {request : Message} {errno : Int32}
    {left : List (UInt16 × Int32)}
    (hfailure : takeFailure request.header.kind peer.failures = some (errno, left))
    (hdecode : Failure.isCrash (Object.decode request.header.kind request.payload) = false)
    (herrno : errno ≠ Int32.minValue) : (peer.answer request).crashed = peer.crashed := by
  have hcalm : peer.crashes request = false := by
    simp [crashes, hdecode, hfailure, herrno]
  rw [answer_of_calm hcalm, respond_eq, hfailure]
  simp only [report]
  split <;> rfl

theorem Sound.respond {peer : Peer} (h : peer.Sound) (request : Message)
    (hnext : peer.nextIndex ≤ (peer.respond request).nextIndex) :
    (peer.respond request).Sound := by
  have hnoted : (peer.noted request).Sound := h.of_holdings rfl
  rw [respond_eq] at hnext ⊢
  cases hfailure : takeFailure request.header.kind peer.failures with
  | some failure => exact hnoted.of_holdings (holdings_report _ _ _)
  | none =>
      rw [hfailure] at hnext
      simp only at hnext ⊢
      split
      · exact hnoted.of_holdings (holdings_answerListing _ request)
      · rename_i hchange
        rw [if_neg hchange] at hnext
        exact hnoted.answerChange request.header _ hnext

theorem Sound.answer {peer : Peer} (h : peer.Sound) (request : Message)
    (hnext : peer.nextIndex ≤ (peer.answer request).nextIndex) : (peer.answer request).Sound := by
  rcases peer.answer_cases request with hanswer | hanswer
  · rw [hanswer]
    exact h.of_holdings rfl
  · rw [hanswer] at hnext ⊢
    exact h.respond request hnext

/-- The states that the peer comes to by changes from outside, by requests, by what is received from
it and by what is set for trying it out. The numbers for links do not run out. -/
inductive Reachable : Peer → Prop where
  | initial : Reachable initial
  | intervene {peer : Peer} (h : Reachable peer) (object : Object) (goal : Goal) (silent : Bool)
      (hnext : peer.nextIndex ≤ (peer.intervene object goal silent).1.nextIndex) :
      Reachable (peer.intervene object goal silent).1
  | answer {peer : Peer} (h : Reachable peer) (request : Message)
      (hnext : peer.nextIndex ≤ (peer.answer request).nextIndex) :
      Reachable (peer.answer request)
  | receive {peer rest : Peer} (h : Reachable peer) {received : Except Fault Bytes}
      (hreceived : peer.receive? = some (received, rest)) : Reachable rest
  | control {peer : Peer} (h : Reachable peer) (requests : List SeenRequest)
      (failures : List (UInt16 × Int32)) (overruns interruptions chunk : Nat)
      (muted repliesDropped ipv6 : Bool) :
      Reachable
        { peer with
          requests, failures, overruns, interruptions, chunk, muted, repliesDropped, ipv6 }

theorem Reachable.sound {peer : Peer} (h : peer.Reachable) : peer.Sound := by
  induction h with
  | initial => exact sound_initial
  | intervene _ object goal silent hnext ih => exact ih.intervene object goal silent hnext
  | answer _ request hnext ih => exact ih.answer request hnext
  | receive _ hreceived ih => exact ih.of_holdings (holdings_receive? hreceived)
  | control => rename_i ih; exact ih.of_holdings rfl

end NetState.Peer
