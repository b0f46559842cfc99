import NetState.Inventory.Subscription
import NetState.Proofs.Inventory.Run

/-!
The events of an inventory as a log: who has the entries of some moment and applies all later events
to them has the entries of now.

An event is applied only where it fits: what is added was not there, what is updated was there and
different, what is removed was there just so. A scope that goes by the slots of objects cuts entries
and events alike, so its subscribers can replay its part of the entries.
-/

namespace NetState

/-- The entries after an event, unless it does not fit them. -/
def Event.carry? (entries : Table Slot Object) (event : Event) : Option (Table Slot Object) :=
  match event.alteration, entries.get? event.object.slot with
  | .added, none => some (entries.insert event.object.slot event.object)
  | .updated, some previous =>
    if previous = event.object then none
    else some (entries.insert event.object.slot event.object)
  | .removed, some previous =>
    if previous = event.object then some (entries.erase event.object.slot) else none
  | _, _ => none

/-- The entries after events in order, unless one of them does not fit. -/
def replay? (entries : Table Slot Object) (events : List Event) : Option (Table Slot Object) :=
  events.foldlM Event.carry? entries

theorem replay?_cons (entries : Table Slot Object) (event : Event) (events : List Event) :
    replay? entries (event :: events) =
      (Event.carry? entries event).bind fun after => replay? after events := by
  rw [replay?, List.foldlM_cons]
  rfl

theorem replay?_append {entries after : Table Slot Object} {events : List Event}
    (h : replay? entries events = some after) (later : List Event) :
    replay? entries (events ++ later) = replay? after later := by
  rw [replay?, List.foldlM_append]
  rw [replay?] at h
  rw [h]
  rfl

theorem replay?_single (entries : Table Slot Object) (event : Event) :
    replay? entries [event] = Event.carry? entries event := by
  rw [replay?_cons]
  cases Event.carry? entries event <;> rfl

section

variable {entries : Table Slot Object} {object previous : Object}

theorem carry?_added (h : entries.get? object.slot = none) :
    Event.carry? entries ⟨.added, object⟩ = some (entries.insert object.slot object) := by
  simp only [Event.carry?, h]

theorem carry?_updated (h : entries.get? object.slot = some previous) (hne : previous ≠ object) :
    Event.carry? entries ⟨.updated, object⟩ = some (entries.insert object.slot object) := by
  simp only [Event.carry?, h, if_neg hne]

theorem carry?_removed (h : entries.get? object.slot = some object) :
    Event.carry? entries ⟨.removed, object⟩ = some (entries.erase object.slot) := by
  simp only [Event.carry?, h, if_true]

end

namespace Revision

/-- The events lead from known entries to those of a consistent inventory. -/
def TellsFrom (known : Table Slot Object) (revision : Revision) : Prop :=
  revision.inventory.Consistent ∧ replay? known revision.events = some revision.inventory.entries

theorem keptByDrop_tellsFrom (known : Table Slot Object) : KeptByDrop (TellsFrom known) := by
  rintro revision slot ⟨hconsistent, hreplay⟩
  refine ⟨keptByDrop_consistent revision slot hconsistent, ?_⟩
  rw [drop]
  split
  · exact hreplay
  · rename_i object hobject
    have hslot := hconsistent.placed hobject
    rw [replay?_append hreplay, replay?_single]
    subst hslot
    exact carry?_removed hobject

end Revision

namespace Inventory

theorem tellsFrom_upsert {inventory : Inventory} (h : inventory.Consistent) (object : Object) :
    (inventory.upsert object).2.TellsFrom inventory.entries := by
  rw [upsert_revision]
  split
  · rename_i hnone
    refine ⟨h.store ?_, ?_⟩
    · intro previous hprevious
      rw [hnone] at hprevious
      exact absurd hprevious (by simp)
    · rw [replay?_single, carry?_added hnone]
      rfl
  · rename_i previous hprevious
    split
    · exact ⟨h, rfl⟩
    · rename_i hne
      refine (Revision.keptByDrop_tellsFrom inventory.entries).dropAtAll _ ?_
      refine ⟨consistent_replace h hprevious, ?_⟩
      rw [replay?_single, carry?_updated hprevious hne]
      split <;> rfl

theorem tellsFrom_remove {inventory : Inventory} (h : inventory.Consistent) (slot : Slot) :
    (inventory.remove slot).2.TellsFrom inventory.entries := by
  have hstart : Revision.TellsFrom inventory.entries ⟨inventory, []⟩ := ⟨h, rfl⟩
  cases hslot : inventory.lookup slot with
  | none =>
      rw [remove_of_eq_none hslot]
      exact hstart
  | some object =>
      rw [remove_of_eq_some hslot]
      have hkept := Revision.keptByDrop_tellsFrom inventory.entries
      exact hkept.cascade object (hkept ⟨inventory, []⟩ slot hstart)

theorem replay?_newsOf (inventory : Inventory) {fresh : List (Slot × Object)}
    (hkeys : (fresh.map (·.1)).Nodup) (hplaced : ∀ entry ∈ fresh, entry.2.slot = entry.1)
    (known : Table Slot Object)
    (hknown : ∀ entry ∈ fresh, known.get? entry.1 = inventory.lookup entry.1) :
    replay? known (fresh.filterMap fun entry => inventory.newsOf? entry.1 entry.2) =
      some (fresh.foldl (fun table entry => table.insert entry.1 entry.2) known) := by
  induction fresh generalizing known with
  | nil => rfl
  | cons first rest ih =>
      obtain ⟨place, object⟩ := first
      obtain ⟨hfirst, hrest⟩ := List.nodup_cons.mp hkeys
      have hplace : object.slot = place := hplaced (place, object) List.mem_cons_self
      have hhere : known.get? place = inventory.lookup place :=
        hknown (place, object) List.mem_cons_self
      -- The keys are different, so what is still to come finds the inventory's entries where they
      -- were.
      have hleft : ∀ entry ∈ rest,
          (known.insert place object).get? entry.1 = inventory.lookup entry.1 := by
        intro entry hentry
        rw [Table.get?_insert, if_neg]
        · exact hknown entry (List.mem_cons_of_mem _ hentry)
        · rintro rfl
          exact hfirst (List.mem_map.mpr ⟨entry, hentry, rfl⟩)
      have hlater := ih hrest (fun entry hentry => hplaced entry (List.mem_cons_of_mem _ hentry))
        _ hleft
      rw [List.foldl_cons, ← hlater]
      subst hplace
      cases hprevious : inventory.lookup object.slot with
      | none =>
          rw [hprevious] at hhere
          simp only [List.filterMap_cons, newsOf?_of_eq_none hprevious]
          rw [replay?_cons, carry?_added hhere]
          rfl
      | some previous =>
          rw [hprevious] at hhere
          by_cases hsame : previous = object
          · rw [hsame] at hhere hprevious
            simp only [List.filterMap_cons, newsOf?_self hprevious]
            rw [Table.insert_eq_self hhere]
          · simp only [List.filterMap_cons, newsOf?_of_ne hprevious hsame]
            rw [replay?_cons, carry?_updated hhere hsame]
            rfl

theorem replay?_removed {gone : List Object} (hslots : (gone.map Object.slot).Nodup)
    {known : Table Slot Object} (hknown : ∀ object ∈ gone, known.get? object.slot = some object) :
    ∃ after, replay? known (gone.map fun object => ⟨.removed, object⟩) = some after ∧
      ∀ slot, after.get? slot =
        if slot ∈ gone.map Object.slot then none else known.get? slot := by
  induction gone generalizing known with
  | nil => exact ⟨known, rfl, fun _ => rfl⟩
  | cons first rest ih =>
      obtain ⟨hfirst, hrest⟩ := List.nodup_cons.mp hslots
      have hleft : ∀ object ∈ rest,
          (known.erase first.slot).get? object.slot = some object := by
        intro object hobject
        rw [Table.get?_erase, if_neg]
        · exact hknown object (List.mem_cons_of_mem _ hobject)
        · intro hsame
          exact hfirst (hsame ▸ List.mem_map_of_mem hobject)
      obtain ⟨after, hafter, hlookup⟩ := ih hrest hleft
      refine ⟨after, ?_, ?_⟩
      · rw [List.map_cons, replay?_cons, carry?_removed (hknown first List.mem_cons_self)]
        exact hafter
      · intro slot
        rw [hlookup, Table.get?_erase, List.map_cons]
        by_cases hmem : slot ∈ rest.map Object.slot
        · simp [hmem]
        · by_cases hsame : first.slot = slot
          · simp [hsame]
          · simp [hmem, hsame, Ne.symm hsame]

theorem nodup_slots_missing {inventory : Inventory} (h : inventory.Consistent) (kind : Kind)
    (objects : List Object) : ((inventory.missing kind objects).map Object.slot).Nodup := by
  have hslots : (inventory.missing kind objects).map Object.slot =
      ((inventory.entriesOf kind).filter fun entry =>
        !(listed kind objects).contains entry.1).map (·.1) := by
    rw [missing, List.map_map]
    refine List.map_congr_left ?_
    intro entry hentry
    exact h.placed (mem_entriesOf_iff.mp (List.mem_filter.mp hentry).1).1
  rw [hslots]
  exact inventory.entries.nodup_keys.sublist
    ((List.filter_sublist.trans List.filter_sublist).map _)

theorem mem_slots_missing_iff {inventory : Inventory} (h : inventory.Consistent) {kind : Kind}
    {objects : List Object} {slot : Slot} :
    slot ∈ (inventory.missing kind objects).map Object.slot ↔
      slot.kind = kind ∧ (listed kind objects).get? slot = none ∧
        ∃ object, inventory.lookup slot = some object := by
  rw [List.mem_map]
  constructor
  · rintro ⟨object, hobject, rfl⟩
    obtain ⟨place, hplace, hkind, hnone⟩ := mem_missing_iff.mp hobject
    rw [h.placed hplace]
    exact ⟨hkind, hnone, object, hplace⟩
  · rintro ⟨hkind, hnone, object, hobject⟩
    exact ⟨object, mem_missing_iff.mpr ⟨slot, hobject, hkind, hnone⟩, h.placed hobject⟩

theorem tellsFrom_refilled {inventory : Inventory} (h : inventory.Consistent) (kind : Kind)
    (objects : List Object) :
    Revision.TellsFrom inventory.entries ⟨inventory.refilled kind objects,
      inventory.listedNews kind objects ++
        (inventory.missing kind objects).map fun object => ⟨.removed, object⟩⟩ := by
  obtain ⟨hconsistent, hrefilled⟩ := h.refilled kind objects
  refine ⟨hconsistent, ?_⟩
  have hplaced : ∀ entry ∈ (listed kind objects).entries, entry.2.slot = entry.1 :=
    fun entry hentry => (mem_listed (Table.get?_eq_some_iff.mpr hentry)).2.2
  have hnews := replay?_newsOf inventory (listed kind objects).nodup_keys hplaced
    inventory.entries fun _ _ => rfl
  -- First the news put what is listed over the entries; then what is missing is taken out of them.
  have hput : ∀ slot, ((listed kind objects).entries.foldl
      (fun table entry => table.insert entry.1 entry.2) inventory.entries).get? slot =
        ((listed kind objects).get? slot).or (inventory.lookup slot) := by
    intro slot
    rw [Table.get?_foldl_insert, Table.lookup_reverse]
    rfl
  have hgone : ∀ object ∈ inventory.missing kind objects,
      ((listed kind objects).entries.foldl (fun table entry => table.insert entry.1 entry.2)
        inventory.entries).get? object.slot = some object := by
    intro object hobject
    obtain ⟨slot, hslot, -, hnone⟩ := mem_missing_iff.mp hobject
    rw [h.placed hslot, hput, hnone, hslot]
    rfl
  obtain ⟨after, hafter, hlookup⟩ := replay?_removed (nodup_slots_missing h kind objects) hgone
  rw [listedNews, replay?_append hnews, hafter, Option.some.injEq]
  refine Table.ext_get? ?_
  intro slot
  rw [hlookup, hput]
  refine Eq.trans ?_ (hrefilled slot).symm
  by_cases hmissing : slot ∈ (inventory.missing kind objects).map Object.slot
  · obtain ⟨hkind, hnone, -⟩ := (mem_slots_missing_iff h).mp hmissing
    rw [if_pos hmissing, if_pos hkind, hnone]
  · rw [if_neg hmissing]
    rw [mem_slots_missing_iff h] at hmissing
    cases hlisted : (listed kind objects).get? slot with
    | none =>
        split
        · rename_i hkind
          cases hobject : inventory.lookup slot with
          | none => rfl
          | some object => exact absurd ⟨hkind, hlisted, object, hobject⟩ hmissing
        · rfl
    | some object =>
        obtain ⟨-, hkind, hslot⟩ := mem_listed hlisted
        rw [if_pos (hslot ▸ hkind)]
        rfl

theorem tellsFrom_reconcile {inventory : Inventory} (h : inventory.Consistent) (kind : Kind)
    (objects : List Object) :
    (inventory.reconcile kind objects).2.TellsFrom inventory.entries := by
  have hkept := Revision.keptByDrop_tellsFrom inventory.entries
  rw [reconcile_revision]
  exact hkept.dropAtAll _ (hkept.foldl_cascade _ (tellsFrom_refilled h kind objects))

theorem tellsFrom_perform {inventory : Inventory} (h : inventory.Consistent) (command : Command) :
    (inventory.perform command).TellsFrom inventory.entries := by
  cases command with
  | upsert object => exact tellsFrom_upsert h object
  | remove slot => exact tellsFrom_remove h slot
  | reconcile kind objects => exact tellsFrom_reconcile h kind objects

def history (inventory : Inventory) : List Command → List Event
  | [] => []
  | first :: rest =>
    (inventory.perform first).events ++ (inventory.perform first).inventory.history rest

theorem replay?_history {inventory : Inventory} (h : inventory.Consistent)
    (commands : List Command) :
    replay? inventory.entries (inventory.history commands) =
      some (inventory.run commands).entries := by
  induction commands generalizing inventory with
  | nil => rfl
  | cons first rest ih =>
      obtain ⟨hconsistent, hreplay⟩ := tellsFrom_perform h first
      rw [history, replay?_append hreplay, ih hconsistent]
      rfl

end Inventory

namespace Scope

/-- The entries that a scope is about: whether an event is covered depends on its object alone. -/
def part (scope : Scope) (entries : Table Slot Object) : Table Slot Object :=
  entries.filter fun _ object => scope.covers ⟨.added, object⟩

/-- A scope that goes by slots: an object does not leave it or come to it by a change. -/
def IsSteady (scope : Scope) : Prop :=
  ∃ includes : Slot → Bool, ∀ event, scope.covers event = includes event.object.slot

theorem isSteady_all : IsSteady .all :=
  ⟨fun _ => true, fun _ => rfl⟩

theorem isSteady_ofKind (kind : Kind) : IsSteady (.ofKind kind) :=
  ⟨fun slot => slot.kind == kind, fun _ => rfl⟩

theorem isSteady_link {index : UInt32} (hindex : index ≠ 0) : IsSteady (.link index) := by
  refine ⟨fun slot => slot == ⟨.link, .link index⟩, ?_⟩
  rintro ⟨alteration, object⟩
  rw [Bool.eq_iff_iff, covers, Bool.and_eq_true, beq_iff_eq, beq_iff_eq, beq_iff_eq,
    Object.owner?_eq_some_iff, Event.kind]
  constructor
  · rintro ⟨hkind, hindex, -⟩
    obtain ⟨l, rfl⟩ := Object.exists_link_of_kind hkind
    rw [← hindex]
    rfl
  · intro hslot
    obtain ⟨l, rfl⟩ := Object.exists_link_of_kind (congrArg Slot.kind hslot)
    have hkey : Key.link l.index = .link index := congrArg Slot.key hslot
    rw [Key.link.injEq] at hkey
    exact ⟨rfl, hkey, hindex⟩

end Scope

theorem carry?_cases {entries after : Table Slot Object} {event : Event}
    (h : Event.carry? entries event = some after) :
    (∃ object, event = ⟨.added, object⟩ ∧ entries.get? object.slot = none ∧
        after = entries.insert object.slot object) ∨
      (∃ object previous, event = ⟨.updated, object⟩ ∧
        entries.get? object.slot = some previous ∧ previous ≠ object ∧
        after = entries.insert object.slot object) ∨
      ∃ object, event = ⟨.removed, object⟩ ∧ entries.get? object.slot = some object ∧
        after = entries.erase object.slot := by
  obtain ⟨alteration, object⟩ := event
  simp only [Event.carry?] at h
  split at h
  · rename_i hnone
    exact Or.inl ⟨object, rfl, hnone, (Option.some.inj h).symm⟩
  · rename_i previous hprevious
    split at h
    · exact absurd h (by simp)
    · rename_i hne
      exact Or.inr (Or.inl ⟨object, previous, rfl, hprevious, hne, (Option.some.inj h).symm⟩)
  · rename_i previous hprevious
    split at h
    · rename_i hsame
      rw [hsame] at hprevious
      exact Or.inr (Or.inr ⟨object, rfl, hprevious, (Option.some.inj h).symm⟩)
    · exact absurd h (by simp)
  · exact absurd h (by simp)

def IsPlaced (entries : Table Slot Object) : Prop :=
  ∀ {slot object}, entries.get? slot = some object → object.slot = slot

theorem isPlaced_insert {entries : Table Slot Object} (h : IsPlaced entries) (object : Object) :
    IsPlaced (entries.insert object.slot object) := by
  intro slot stored hstored
  rw [Table.get?_insert] at hstored
  split at hstored
  · rename_i hslot
    rw [← Option.some.inj hstored, hslot]
  · exact h hstored

theorem isPlaced_erase {entries : Table Slot Object} (h : IsPlaced entries) (place : Slot) :
    IsPlaced (entries.erase place) := by
  intro slot stored hstored
  rw [Table.get?_erase] at hstored
  split at hstored
  · exact absurd hstored (by simp)
  · exact h hstored

theorem isPlaced_carry? {entries after : Table Slot Object} (hplaced : IsPlaced entries)
    {event : Event} (h : Event.carry? entries event = some after) : IsPlaced after := by
  obtain ⟨object, rfl, -, rfl⟩ | ⟨object, previous, rfl, -, -, rfl⟩ | ⟨object, rfl, -, rfl⟩ :=
    carry?_cases h
  · exact isPlaced_insert hplaced object
  · exact isPlaced_insert hplaced object
  · exact isPlaced_erase hplaced object.slot

namespace Scope

section

variable {scope : Scope} {includes : Slot → Bool}
  (hscope : ∀ event, scope.covers event = includes event.object.slot)

include hscope

theorem get?_part {entries : Table Slot Object} (hplaced : IsPlaced entries) (slot : Slot) :
    (scope.part entries).get? slot = if includes slot then entries.get? slot else none := by
  rw [part, Table.get?_filter]
  cases hobject : entries.get? slot with
  | none => rw [Option.filter_none, ite_self]
  | some object =>
      rw [Option.filter_some, hscope]
      simp only [hplaced hobject]

theorem part_insert {entries : Table Slot Object} (hplaced : IsPlaced entries) (object : Object) :
    scope.part (entries.insert object.slot object) =
      if includes object.slot then (scope.part entries).insert object.slot object
      else scope.part entries := by
  refine Table.ext_get? ?_
  intro slot
  rw [get?_part hscope (isPlaced_insert hplaced object), Table.get?_insert]
  by_cases hslot : object.slot = slot
  · subst hslot
    split
    · rw [if_pos rfl, Table.get?_insert_self]
    · rename_i hincludes
      rw [get?_part hscope hplaced, if_neg hincludes]
  · rw [if_neg hslot, ← get?_part hscope hplaced]
    split
    · rw [Table.get?_insert, if_neg hslot]
    · rfl

theorem part_erase {entries : Table Slot Object} (hplaced : IsPlaced entries) (place : Slot) :
    scope.part (entries.erase place) =
      if includes place then (scope.part entries).erase place else scope.part entries := by
  refine Table.ext_get? ?_
  intro slot
  rw [get?_part hscope (isPlaced_erase hplaced place), Table.get?_erase]
  by_cases hslot : place = slot
  · subst hslot
    split
    · rw [if_pos rfl, Table.get?_erase_self]
    · rename_i hincludes
      rw [get?_part hscope hplaced, if_neg hincludes]
  · rw [if_neg hslot, ← get?_part hscope hplaced]
    split
    · rw [Table.get?_erase, if_neg hslot]
    · rfl

/-- An event that fits entries fits the part of them that it is about, and leaves the others. -/
theorem part_carry? {entries after : Table Slot Object} (hplaced : IsPlaced entries)
    {event : Event} (h : Event.carry? entries event = some after) :
    (if scope.covers event then Event.carry? (scope.part entries) event
      else some (scope.part entries)) = some (scope.part after) := by
  have hbefore := get?_part hscope hplaced
  rw [hscope]
  obtain ⟨object, rfl, hnone, rfl⟩ | ⟨object, previous, rfl, hprevious, hne, rfl⟩ |
    ⟨object, rfl, hobject, rfl⟩ := carry?_cases h
  · rw [part_insert hscope hplaced]
    split
    · rename_i hincludes
      exact carry?_added (by rw [hbefore, if_pos hincludes, hnone])
    · rfl
  · rw [part_insert hscope hplaced]
    split
    · rename_i hincludes
      exact carry?_updated (by rw [hbefore, if_pos hincludes, hprevious]) hne
    · rfl
  · rw [part_erase hscope hplaced]
    split
    · rename_i hincludes
      exact carry?_removed (by rw [hbefore, if_pos hincludes, hobject])
    · rfl

theorem replay?_part {events : List Event} {entries after : Table Slot Object}
    (hplaced : IsPlaced entries) (h : replay? entries events = some after) :
    replay? (scope.part entries) (events.filter scope.covers) = some (scope.part after) := by
  induction events generalizing entries with
  | nil =>
      rw [← Option.some.inj h]
      rfl
  | cons first rest ih =>
      rw [replay?_cons, Option.bind_eq_some_iff] at h
      obtain ⟨between, hfirst, hrest⟩ := h
      have hlater := ih (isPlaced_carry? hplaced hfirst) hrest
      have hstep := part_carry? hscope hplaced hfirst
      rw [List.filter_cons]
      split
      · rename_i hcovers
        rw [if_pos hcovers] at hstep
        rw [replay?_cons, hstep]
        exact hlater
      · rename_i hcovers
        rw [if_neg hcovers, Option.some.injEq] at hstep
        rw [hstep]
        exact hlater

end

end Scope

namespace Watched

def run (watched : Watched) (commands : List Inventory.Command) : Watched :=
  commands.foldl (fun state command => state.publish (state.inventory.perform command)) watched

theorem upsert_eq_publish (watched : Watched) (object : Object) :
    (watched.upsert object).2 = watched.run [.upsert object] := rfl

theorem remove_eq_publish (watched : Watched) (slot : Slot) :
    (watched.remove slot).2 = watched.run [.remove slot] := rfl

theorem reconcile_eq_publish (watched : Watched) (kind : Kind) (objects : List Object) :
    (watched.reconcile kind objects).2 = watched.run [.reconcile kind objects] := rfl

theorem inventory_run (watched : Watched) (commands : List Inventory.Command) :
    (watched.run commands).inventory = watched.inventory.run commands := by
  induction commands generalizing watched with
  | nil => rfl
  | cons first rest ih => exact ih (watched.publish (watched.inventory.perform first))

theorem subscriber?_publish (watched : Watched) (revision : Revision) (number : Nat) :
    (watched.publish revision).subscriber? number =
      (watched.subscriber? number).map (·.receive revision.events) := by
  rw [subscriber?, subscriber?, publish, List.getElem?_map]
  cases watched.subscribers[number]? with
  | none => rfl
  | some entry => rfl

theorem subscriber?_run (watched : Watched) (commands : List Inventory.Command) (number : Nat) :
    (watched.run commands).subscriber? number =
      (watched.subscriber? number).map (·.receive (watched.inventory.history commands)) := by
  induction commands generalizing watched with
  | nil =>
      rw [run, List.foldl_nil]
      cases watched.subscriber? number with
      | none => rfl
      | some subscriber => simp [Inventory.history, Subscriber.receive]
  | cons first rest ih =>
      refine (ih (watched.publish (watched.inventory.perform first))).trans ?_
      rw [subscriber?_publish, Option.map_map]
      cases watched.subscriber? number with
      | none => rfl
      | some subscriber =>
          simp [publish, Inventory.history, Subscriber.receive, List.append_assoc]

theorem subscriber?_subscribe (watched : Watched) (scope : Scope) :
    (watched.subscribe scope).2.subscriber? (watched.subscribe scope).1 = some ⟨scope, []⟩ := by
  simp [subscribe, subscriber?]

/-- A subscriber to everything, to a kind or to a numbered link gets just the events of its scope,
in the order in which they are published, and can replay its part of the entries with them. -/
theorem waiting_run_subscribe {watched : Watched} (h : watched.inventory.Consistent)
    {scope : Scope} (hscope : scope = .all ∨ (∃ kind, scope = .ofKind kind) ∨
      ∃ index, index ≠ 0 ∧ scope = .link index) (commands : List Inventory.Command) :
    let (number, subscribed) := watched.subscribe scope
    let final := subscribed.run commands
    ∃ subscriber, final.subscriber? number = some subscriber ∧
      subscriber.waiting = (watched.inventory.history commands).filter scope.covers ∧
      replay? (scope.part watched.inventory.entries) subscriber.waiting =
        some (scope.part final.inventory.entries) := by
  have hsteady : scope.IsSteady := by
    obtain rfl | ⟨kind, rfl⟩ | ⟨index, hindex, rfl⟩ := hscope
    · exact Scope.isSteady_all
    · exact Scope.isSteady_ofKind kind
    · exact Scope.isSteady_link hindex
  obtain ⟨includes, hincludes⟩ := hsteady
  refine ⟨⟨scope, (watched.inventory.history commands).filter scope.covers⟩, ?_, rfl, ?_⟩
  · refine (subscriber?_run _ commands _).trans ?_
    exact congrArg (Option.map _) (subscriber?_subscribe watched scope)
  · rw [inventory_run]
    exact Scope.replay?_part hincludes h.placed (Inventory.replay?_history h commands)

theorem waiting_run_subscribe_vanishing :
    let link := { Link.new "eth0" .unknown with index := 1 }
    let known := Inventory.empty.run [.upsert (.link link),
      .upsert (.discipline (.new 1 "htb" (.ofParts 1 0) .root)),
      .upsert (.filter ⟨1, Filter.matchAllKind, ⟨1⟩, .ofParts 1 0, 10, Filter.anyProtocol, none⟩)]
    let (number, subscribed) := (Watched.mk known []).subscribe (.link 1)
    let commands : List Inventory.Command :=
      [.upsert (.link (link.setUp true)), .reconcile .link []]
    known.Consistent ∧ (1 : UInt32) ≠ 0 ∧
      ∃ subscriber, (subscribed.run commands).subscriber? number = some subscriber ∧
        subscriber.waiting = (known.history commands).filter (Scope.link 1).covers ∧
        replay? ((Scope.link 1).part known.entries) subscriber.waiting =
          some ((Scope.link 1).part (subscribed.run commands).inventory.entries) :=
  ⟨Inventory.consistent_empty.run _, by decide,
    waiting_run_subscribe (Inventory.consistent_empty.run _)
      (Or.inr (Or.inr ⟨1, by decide, rfl⟩)) _⟩

end Watched

end NetState
