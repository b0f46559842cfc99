import NetState.Proofs.Inventory.Replay

namespace NetState

/-- The entries after an event, whatever they were before. -/
def Event.settle (entries : Table Slot Object) (event : Event) : Table Slot Object :=
  match event.alteration with
  | .added | .updated => entries.insert event.object.slot event.object
  | .removed => entries.erase event.object.slot

/-- The entries after events in order, whatever they were before. -/
def rebuild (entries : Table Slot Object) (events : List Event) : Table Slot Object :=
  events.foldl Event.settle entries

theorem rebuild_snoc (entries : Table Slot Object) (events : List Event) (event : Event) :
    rebuild entries (events ++ [event]) = event.settle (rebuild entries events) :=
  List.foldl_append

/-- What a link owns, each object in its slot. -/
def Inventory.share (inventory : Inventory) (interface : UInt32) : Table Slot Object :=
  .ofList ((inventory.ofInterface interface).map fun object => (object.slot, object))

/-- An object that a link owned was replaced by one that it does not own, and nothing that the link
owns has been in its slot since. -/
def Strays (interface : UInt32) (known : Table Slot Object) (events : List Event) (slot : Slot)
    (object : Object) : Prop :=
  ∃ before moved after entries, events = before ++ ⟨.updated, moved⟩ :: after ∧
    replay? known before = some entries ∧ entries.get? slot = some object ∧
    object.owner? = some interface ∧ moved.slot = slot ∧ moved.owner? ≠ some interface ∧
    ∀ event ∈ after, event.object.slot = slot → event.object.owner? ≠ some interface

theorem Inventory.Consistent.get?_share {inventory : Inventory} (h : inventory.Consistent)
    {interface : UInt32} {slot : Slot} {object : Object} :
    (inventory.share interface).get? slot = some object ↔
      inventory.lookup slot = some object ∧ object.owner? = some interface := by
  constructor
  · intro hshare
    obtain ⟨found, hfound, hentry⟩ := List.mem_map.mp (Table.mem_of_get?_ofList hshare)
    obtain ⟨rfl, rfl⟩ := Prod.mk.inj hentry
    exact h.mem_ofInterface_iff.mp hfound
  · rintro ⟨hobject, howner⟩
    have hslot := h.placed hobject
    subst hslot
    have hmem := List.mem_map_of_mem (f := fun object => (Object.slot object, object))
      (h.mem_ofInterface_iff.mpr ⟨hobject, howner⟩)
    obtain ⟨found, hfound⟩ := Table.exists_get?_ofList hmem
    obtain ⟨other, hother, hentry⟩ := List.mem_map.mp (Table.mem_of_get?_ofList hfound)
    obtain ⟨hsame, rfl⟩ := Prod.mk.inj hentry
    have hlookup := (h.mem_ofInterface_iff.mp hother).1
    rw [hsame, hobject] at hlookup
    rw [Inventory.share, hfound, ← Option.some.inj hlookup]

theorem get?_settle (entries : Table Slot Object) (event : Event) (slot : Slot) :
    (event.settle entries).get? slot =
      if event.object.slot = slot then
        if event.alteration = .removed then none else some event.object
      else entries.get? slot := by
  obtain ⟨alteration, object⟩ := event
  cases alteration with
  | added => exact Table.get?_insert entries object.slot slot object
  | updated => exact Table.get?_insert entries object.slot slot object
  | removed => exact Table.get?_erase entries object.slot slot

theorem eq_settle_of_carry? {entries after : Table Slot Object} {event : Event}
    (h : Event.carry? entries event = some after) : after = event.settle entries := by
  obtain ⟨object, rfl, -, rfl⟩ | ⟨object, previous, rfl, -, -, rfl⟩ | ⟨object, rfl, -, rfl⟩ :=
    carry?_cases h
  all_goals rfl

theorem replay?_snoc {known after : Table Slot Object} {events : List Event} {event : Event}
    (h : replay? known (events ++ [event]) = some after) :
    ∃ between, replay? known events = some between ∧ Event.carry? between event = some after := by
  cases hevents : replay? known events with
  | none =>
      rw [replay?, List.foldlM_append] at h
      rw [replay?] at hevents
      rw [hevents] at h
      exact absurd h (by simp)
  | some between =>
      rw [replay?_append hevents, replay?_single] at h
      exact ⟨between, rfl, h⟩

theorem isPlaced_replay? {known after : Table Slot Object} (hknown : IsPlaced known)
    {events : List Event} (h : replay? known events = some after) : IsPlaced after := by
  induction events generalizing known with
  | nil => exact Option.some.inj h ▸ hknown
  | cons first rest ih =>
      rw [replay?_cons, Option.bind_eq_some_iff] at h
      obtain ⟨between, hfirst, hrest⟩ := h
      exact ih (isPlaced_carry? hknown hfirst) hrest

section

variable {interface : UInt32} {known entries after : Table Slot Object} {events : List Event}
  {event : Event} {slot : Slot} {object : Object}

/-- An object is astray after one more event if it was and the event is not of something that the
link owns in its slot, or if the event takes it from the link. -/
theorem strays_snoc_iff (h : replay? known events = some entries) :
    Strays interface known (events ++ [event]) slot object ↔
      (Strays interface known events slot object ∧
        ¬(event.object.slot = slot ∧ event.object.owner? = some interface)) ∨
      (event.alteration = .updated ∧ event.object.slot = slot ∧
        event.object.owner? ≠ some interface ∧ entries.get? slot = some object ∧
        object.owner? = some interface) := by
  constructor
  · rintro ⟨before, moved, after, between, hevents, hbefore, hobject, howner, hslot, hmoved, hafter⟩
    rcases List.eq_nil_or_concat after with rfl | ⟨more, last, rfl⟩
    · obtain ⟨rfl, hlast⟩ := List.append_inj' hevents rfl
      obtain rfl := List.singleton_inj.mp hlast
      obtain rfl := Option.some.inj (hbefore.symm.trans h)
      exact Or.inr ⟨rfl, hslot, hmoved, hobject, howner⟩
    · rw [List.concat_eq_append] at hevents hafter
      rw [← List.cons_append, ← List.append_assoc] at hevents
      obtain ⟨rfl, hlast⟩ := List.append_inj' hevents rfl
      obtain rfl := List.singleton_inj.mp hlast
      refine Or.inl
        ⟨⟨before, moved, more, between, rfl, hbefore, hobject, howner, hslot, hmoved, ?_⟩,
        fun hhere => hafter event (by simp) hhere.1 hhere.2⟩
      exact fun other hother => hafter other (List.mem_append_left _ hother)
  · rintro (⟨⟨before, moved, more, between, rfl, hbefore, hobject, howner, hslot, hmoved, hmore⟩,
      helse⟩ | ⟨hupdated, hslot, hmoved, hobject, howner⟩)
    · refine ⟨before, moved, more ++ [event], between, by simp, hbefore, hobject, howner, hslot,
        hmoved, ?_⟩
      intro other hother
      rcases List.mem_append.mp hother with hother | hother
      · exact hmore other hother
      · obtain rfl := List.mem_singleton.mp hother
        exact fun hhere hsame => helse ⟨hhere, hsame⟩
    · obtain ⟨alteration, moved⟩ := event
      obtain rfl : alteration = .updated := hupdated
      exact ⟨events, moved, [], entries, rfl, h, hobject, howner, hslot, hmoved, by simp⟩

theorem Object.exists_route_of_slot {object moved : Object} (hslot : object.slot = moved.slot)
    (howner : object.owner? ≠ moved.owner?) : ∃ r, object = .route r := by
  have hkey : object.key = moved.key := congrArg Slot.key hslot
  have hinterface (hsame : object.interface = moved.interface) : False := by
    rw [Object.owner?, Object.owner?, hsame] at howner
    exact howner rfl
  cases object with
  | route r => exact ⟨r, rfl⟩
  | link l =>
      cases moved <;> first
        | exact (hinterface (Key.link.inj hkey)).elim
        | exact absurd hkey (by simp [Object.key])
  | address a =>
      cases moved <;> first
        | exact (hinterface (Key.address.inj hkey).1).elim
        | exact absurd hkey (by simp [Object.key])
  | discipline d =>
      cases moved <;> first
        | exact (hinterface (Key.discipline.inj hkey).1).elim
        | exact absurd hkey (by simp [Object.key])
  | filter f =>
      cases moved <;> first
        | exact (hinterface (Key.filter.inj hkey).1).elim
        | exact absurd hkey (by simp [Object.key])

theorem Strays.exists_route (hplaced : IsPlaced known)
    (h : Strays interface known events slot object) : ∃ r, object = .route r := by
  obtain ⟨before, moved, more, between, -, hbefore, hobject, howner, hslot, hmoved, -⟩ := h
  have hsame : object.slot = moved.slot := by
    rw [hslot, isPlaced_replay? hplaced hbefore hobject]
  refine Object.exists_route_of_slot hsame ?_
  rw [howner]
  exact hmoved.symm

/-- What a subscriber to a link has, told the events of the link alone, beside the entries after all
events: the entries that the link owns, and those astray. -/
structure Attends (interface : UInt32) (known : Table Slot Object) (events : List Event)
    (entries told : Table Slot Object) : Prop where
  told_iff : ∀ {slot object}, told.get? slot = some object ↔
    (entries.get? slot = some object ∧ object.owner? = some interface) ∨
      Strays interface known events slot object
  away : ∀ {slot object}, Strays interface known events slot object →
    ∀ present, entries.get? slot = some present → present.owner? ≠ some interface

theorem not_strays_nil : ¬ Strays interface known [] slot object := by
  rintro ⟨before, moved, more, between, hevents, -⟩
  exact absurd hevents (by simp)

theorem attends_nil {told : Table Slot Object} (htold : ∀ {slot object},
    told.get? slot = some object ↔
      known.get? slot = some object ∧ object.owner? = some interface) :
    Attends interface known [] known told where
  told_iff := by
    intro slot object
    rw [htold]
    exact ⟨Or.inl, fun h => h.resolve_right not_strays_nil⟩
  away h := absurd h not_strays_nil

theorem Scope.covers_interface_iff :
    (Scope.interface interface).covers event = true ↔ event.object.owner? = some interface := by
  rw [Scope.covers, beq_iff_eq]

theorem updated_of_carry? (hevent : Event.carry? entries event = some after)
    (helse : event.object.owner? ≠ some interface)
    (hobject : entries.get? event.object.slot = some object)
    (howner : object.owner? = some interface) : event.alteration = .updated := by
  obtain ⟨fresh, rfl, hnone, -⟩ | ⟨fresh, previous, rfl, -, -, -⟩ | ⟨gone, rfl, hgone, -⟩ :=
    carry?_cases hevent
  · exact absurd (hobject.symm.trans hnone) (by simp)
  · rfl
  · rw [Option.some.inj (hobject.symm.trans hgone)] at howner
    exact absurd howner helse

theorem Attends.heard {told : Table Slot Object} (h : Attends interface known events entries told)
    (hevents : replay? known events = some entries)
    (howner : event.object.owner? = some interface) :
    Attends interface known (events ++ [event]) (event.settle entries) (event.settle told) where
  told_iff := by
    intro slot object
    rw [get?_settle, get?_settle, strays_snoc_iff hevents]
    by_cases hslot : event.object.slot = slot
    · simp only [hslot, howner, and_self, if_true, not_true, and_false, false_and, ne_eq, or_false]
      by_cases hremoved : event.alteration = .removed
      · simp [hremoved]
      · simp only [if_neg hremoved, Option.some.injEq]
        exact ⟨fun heq => ⟨heq, heq ▸ howner⟩, And.left⟩
    · simp only [hslot, false_and, if_false, not_false_eq_true, and_true, and_false, or_false]
      exact h.told_iff
  away := by
    intro slot object hstrays present hpresent
    obtain ⟨hstrays, hslot⟩ | ⟨-, -, helse, -⟩ := (strays_snoc_iff hevents).mp hstrays
    · rw [get?_settle, if_neg (fun hhere => hslot ⟨hhere, howner⟩)] at hpresent
      exact h.away hstrays present hpresent
    · exact absurd howner helse

theorem Attends.unheard {told : Table Slot Object} (h : Attends interface known events entries told)
    (hevents : replay? known events = some entries)
    (hevent : Event.carry? entries event = some after)
    (helse : event.object.owner? ≠ some interface) :
    Attends interface known (events ++ [event]) (event.settle entries) told := by
  have hforeign {slot : Slot} {present : Object} (hslot : event.object.slot = slot)
      (hpresent : (event.settle entries).get? slot = some present) :
      present.owner? ≠ some interface := by
    rw [get?_settle, if_pos hslot] at hpresent
    split at hpresent
    · exact absurd hpresent (by simp)
    · exact Option.some.inj hpresent ▸ helse
  refine ⟨?_, ?_⟩
  · intro slot object
    rw [h.told_iff, strays_snoc_iff hevents]
    by_cases hslot : event.object.slot = slot
    · have hgone : ¬((event.settle entries).get? slot = some object ∧
          object.owner? = some interface) := fun hown => hforeign hslot hown.1 hown.2
      have hupdated : entries.get? slot = some object ∧ object.owner? = some interface →
          event.alteration = .updated := by
        rintro ⟨hobject, howner⟩
        exact updated_of_carry? hevent helse (hslot ▸ hobject) howner
      simp only [hgone, hslot, helse, and_false, not_false_eq_true, and_true, true_and, ne_eq,
        false_or]
      rw [or_comm, and_iff_right_of_imp hupdated]
    · rw [get?_settle, if_neg hslot]
      simp only [hslot, false_and, not_false_eq_true, and_true, and_false, or_false]
  · intro slot object hstrays present hpresent
    by_cases hslot : event.object.slot = slot
    · exact hforeign hslot hpresent
    · obtain ⟨hstrays, -⟩ | ⟨-, hhere, -⟩ := (strays_snoc_iff hevents).mp hstrays
      · rw [get?_settle, if_neg hslot] at hpresent
        exact h.away hstrays present hpresent
      · exact absurd hhere hslot

theorem attends_rebuild {start : Table Slot Object} (hstart : ∀ {slot object},
    start.get? slot = some object ↔
      known.get? slot = some object ∧ object.owner? = some interface)
    (h : replay? known events = some entries) :
    Attends interface known events entries
      (rebuild start (events.filter (Scope.interface interface).covers)) := by
  -- The log grows at its end, so the induction is on the log read backwards.
  induction hlength : events.length generalizing events entries with
  | zero =>
      obtain rfl := List.eq_nil_of_length_eq_zero hlength
      obtain rfl := Option.some.inj h
      exact attends_nil hstart
  | succ count ih =>
      obtain rfl | ⟨before, last, rfl⟩ := List.eq_nil_or_concat events
      · exact absurd hlength (by simp)
      · rw [List.concat_eq_append] at h hlength ⊢
        obtain ⟨between, hbefore, hlast⟩ := replay?_snoc h
        have hattends := ih hbefore (by simpa using hlength)
        obtain rfl := eq_settle_of_carry? hlast
        rw [List.filter_append]
        by_cases howner : last.object.owner? = some interface
        · rw [List.filter_cons_of_pos (Scope.covers_interface_iff.mpr howner), List.filter_nil,
            rebuild_snoc]
          exact hattends.heard hbefore howner
        · rw [List.filter_cons_of_neg
              (fun hcovers => howner (Scope.covers_interface_iff.mp hcovers)),
            List.filter_nil, List.append_nil]
          exact hattends.unheard hbefore hlast howner

end

namespace Watched

/-- A subscriber to a link gets just the events of what the link owns, in the order in which they
are published. Whoever applies them to what the link owned at first has all that the link owns, and
besides just what went astray, which are routes. -/
theorem rebuild_waiting {watched : Watched} (h : watched.inventory.Consistent)
    (interface : UInt32) (commands : List Inventory.Command) :
    let history := watched.inventory.history commands
    let (number, subscribed) := watched.subscribe (.interface interface)
    let share := (subscribed.run commands).inventory.share interface
    ∃ subscriber, (subscribed.run commands).subscriber? number = some subscriber ∧
      subscriber.waiting = history.filter (Scope.interface interface).covers ∧
      let told := rebuild (watched.inventory.share interface) subscriber.waiting
      let astray := Strays interface watched.inventory.entries history
      (∀ slot object, told.get? slot = some object ↔
        share.get? slot = some object ∨ astray slot object) ∧
      (told = share ↔ ∀ slot object, ¬ astray slot object) ∧
      ∀ slot object, astray slot object → ∃ r, object = .route r := by
  intro history
  have hfinal : ((watched.subscribe (.interface interface)).2.run commands).inventory =
      watched.inventory.run commands := inventory_run _ commands
  -- The log replays to the inventory, and the subscriber hears just the part of it that is covered.
  have hattends : Attends interface watched.inventory.entries history
      (watched.inventory.run commands).entries
      (rebuild (watched.inventory.share interface)
        (history.filter (Scope.interface interface).covers)) :=
    attends_rebuild h.get?_share (Inventory.replay?_history h commands)
  have hshare {slot : Slot} {object : Object} :
      ((watched.inventory.run commands).share interface).get? slot = some object ↔
        (watched.inventory.run commands).lookup slot = some object ∧
          object.owner? = some interface :=
    (h.run commands).get?_share
  have htold (slot : Slot) (object : Object) :
      (rebuild (watched.inventory.share interface)
          (history.filter (Scope.interface interface).covers)).get? slot = some object ↔
        ((watched.inventory.run commands).share interface).get? slot = some object ∨
          Strays interface watched.inventory.entries history slot object :=
    hattends.told_iff.trans (or_congr_left hshare.symm)
  simp only
  rw [hfinal]
  refine ⟨⟨.interface interface, history.filter (Scope.interface interface).covers⟩, ?_, rfl,
    htold, ⟨?_, ?_⟩, fun slot object hstrays => hstrays.exists_route h.placed⟩
  · refine (subscriber?_run _ commands _).trans ?_
    exact congrArg (Option.map _) (subscriber?_subscribe watched (.interface interface))
  · intro hsame slot object hstrays
    have hpresent := (htold slot object).mpr (Or.inr hstrays)
    obtain ⟨hlookup, howner⟩ := hshare.mp ((congrArg (Table.get? · slot) hsame).symm.trans hpresent)
    exact hattends.away hstrays object hlookup howner
  · intro hnone
    refine Table.ext_get? fun slot => Option.ext fun object => ?_
    exact (htold slot object).trans (or_iff_left (hnone slot object))

def wayBy (interface : UInt32) : Object :=
  .route {
    table := Route.mainTable
    tos := 0
    destination := .v4 0x0A000000
    length := 8
    metric := 0
    interface
    gateway := none
    source := none
    protocol := Route.staticProtocol
    scope := Route.linkScope
    kind := Route.unicast
    flags := 0
  }

theorem rebuild_waiting_rerouted :
    let watched : Watched := ⟨Inventory.empty.run [.upsert (wayBy 1)], []⟩
    let (number, subscribed) := watched.subscribe (.interface 1)
    let final := subscribed.run [.upsert (wayBy 2)]
    watched.inventory.Consistent ∧ ∃ subscriber, final.subscriber? number = some subscriber ∧
      ∀ slot object,
        (rebuild (watched.inventory.share 1) subscriber.waiting).get? slot = some object →
        (final.inventory.share 1).get? slot = none → ∃ r, object = .route r := by
  have hconsistent :
      (Watched.mk (Inventory.empty.run [.upsert (wayBy 1)]) []).inventory.Consistent :=
    Inventory.consistent_empty.run [.upsert (wayBy 1)]
  refine ⟨hconsistent, ?_⟩
  obtain ⟨subscriber, hsubscriber, -, htold, -, hroutes⟩ :=
    rebuild_waiting hconsistent 1 [.upsert (wayBy 2)]
  refine ⟨subscriber, hsubscriber, fun slot object hobject hshare => ?_⟩
  refine hroutes slot object (((htold slot object).mp hobject).resolve_left ?_)
  exact fun hown => absurd (hshare.symm.trans hown) (by simp)

/-- A subscriber to a link that a route left has the route, and the link does not own it. -/
theorem exists_rebuild_ne_share :
    ∃ (watched : Watched) (commands : List Inventory.Command) (interface : UInt32),
      watched.inventory.Consistent ∧ interface ≠ 0 ∧
      let (number, subscribed) := watched.subscribe (.interface interface)
      let final := subscribed.run commands
      ∃ subscriber, final.subscriber? number = some subscriber ∧
        rebuild (watched.inventory.share interface) subscriber.waiting ≠
          final.inventory.share interface := by
  let watched : Watched := ⟨Inventory.empty.run [.upsert (wayBy 1)], []⟩
  refine ⟨watched, [.upsert (wayBy 2)], 1, Inventory.consistent_empty.run _, by decide,
    ⟨.interface 1, []⟩, rfl, ?_⟩
  intro hsame
  have hslot := congrArg (fun table : Table Slot Object => table.get? (wayBy 1).slot) hsame
  revert hslot
  decide +kernel

end Watched

end NetState
