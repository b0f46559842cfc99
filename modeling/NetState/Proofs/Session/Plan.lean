import NetState.Proofs.Object
import NetState.Proofs.Result
import NetState.Session.Plan

namespace NetState.Plan

variable {inventory : Inventory} {support : Support} {existing desired target : Object}
  {plan : Plan} {steps : List Step} {outcome : Outcome}

theorem adapt_cases (h : adapt support existing desired = .ok steps) :
    (∃ known wanted, existing = .link known ∧ desired = .link wanted ∧
      known.changeableTo wanted = true ∧
      steps = [⟨.link { wanted with index := known.index }, .change⟩]) ∨
    (existing.kind ≠ .link ∨ desired.kind ≠ .link) ∧
      (steps = [⟨desired, .create⟩] ∨ steps = [⟨desired, .replace⟩] ∨
        steps = substitute existing desired) := by
  have hreplacement (h : (if support.contains Support.replace then [⟨desired, .replace⟩]
      else substitute existing desired) = steps) :
      steps = [⟨desired, .replace⟩] ∨ steps = substitute existing desired := by
    split at h
    · exact Or.inl h.symm
    · exact Or.inr h.symm
  simp only [adapt] at h
  split at h
  · rename_i known wanted
    split at h
    · rename_i hchangeable
      exact Or.inl ⟨known, wanted, rfl, rfl, hchangeable, (Except.ok.inj h).symm⟩
    · exact absurd h nofun
  · refine Or.inr ⟨Or.inl nofun, ?_⟩
    split at h
    · exact Or.inl (Except.ok.inj h).symm
    · exact Or.inr (hreplacement (Except.ok.inj h))
  · exact Or.inr ⟨Or.inl nofun, Or.inr (Or.inr (Except.ok.inj h).symm)⟩
  · rename_i hother
    refine Or.inr ⟨Decidable.not_and_iff_or_not.mp ?_, Or.inr (hreplacement (Except.ok.inj h))⟩
    rintro ⟨hexisting, hdesired⟩
    obtain ⟨known, rfl⟩ := Object.exists_link_of_kind hexisting
    obtain ⟨wanted, rfl⟩ := Object.exists_link_of_kind hdesired
    exact hother known wanted rfl rfl

theorem toAdd_cases (h : toAdd inventory support desired = .ok plan) :
    (inventory.find? desired = none ∧ plan = .steps [⟨desired, .create⟩]) ∨
    ∃ existing, inventory.find? desired = some existing ∧
      ((existing.satisfies desired = true ∧ plan = .done (.unchanged existing)) ∨
        ∃ steps, adapt support existing desired = .ok steps ∧ plan = .steps steps) := by
  rw [toAdd] at h
  split at h
  · rename_i hfound
    exact Or.inl ⟨hfound, (Except.ok.inj h).symm⟩
  · rename_i existing hfound
    refine Or.inr ⟨existing, hfound, ?_⟩
    split at h
    · rename_i hsatisfies
      exact Or.inl ⟨hsatisfies, (Except.ok.inj h).symm⟩
    · obtain ⟨steps, hadapt, rfl⟩ := map_eq_ok_iff.mp h
      exact Or.inr ⟨steps, hadapt, rfl⟩

theorem toDelete_cases (inventory : Inventory) (desired : Object) :
    toDelete inventory desired = (desired, .done .alreadyAbsent) ∨
    ∃ target, toDelete inventory desired = (target, .steps [⟨target, .delete⟩]) ∧
      (inventory.find? desired = some target ∨ target = desired ∧
        inventory.find? desired = none ∧ isSurelyAbsent inventory desired = false) := by
  rw [toDelete]
  split
  · rename_i existing hfound
    split
    · exact Or.inl rfl
    · exact Or.inr ⟨existing, rfl, Or.inl hfound⟩
  · rename_i hfound
    split
    · exact Or.inl rfl
    · rename_i habsent
      exact Or.inr ⟨desired, rfl, Or.inr ⟨rfl, hfound, Bool.eq_false_iff.mpr habsent⟩⟩

theorem adapt_ne_nil (h : adapt support existing desired = .ok steps) : steps ≠ [] := by
  rcases adapt_cases h with ⟨known, wanted, -, -, -, rfl⟩ | ⟨-, rfl | rfl | rfl⟩ <;>
    simp [substitute]

theorem toAdd_ne_nil (h : toAdd inventory support desired = .ok (.steps steps)) : steps ≠ [] := by
  rcases toAdd_cases h with ⟨-, hplan⟩ | ⟨existing, -, ⟨-, hplan⟩ | ⟨found, hadapt, hplan⟩⟩
  · cases hplan
    simp
  · cases hplan
  · cases hplan
    exact adapt_ne_nil hadapt

theorem verb_getLast?_adapt (h : adapt support existing desired = .ok steps) {step : Step}
    (hlast : steps.getLast? = some step) : step.verb ≠ .delete := by
  rcases adapt_cases h with ⟨known, wanted, -, -, -, rfl⟩ | ⟨-, rfl | rfl | rfl⟩ <;>
    rw [← Option.some.inj hlast] <;> simp

theorem verb_getLast?_toAdd (h : toAdd inventory support desired = .ok (.steps steps)) {step : Step}
    (hlast : steps.getLast? = some step) : step.verb ≠ .delete := by
  rcases toAdd_cases h with ⟨-, hplan⟩ | ⟨existing, -, ⟨-, hplan⟩ | ⟨found, hadapt, hplan⟩⟩
  · cases hplan
    rw [← Option.some.inj hlast]
    simp
  · cases hplan
  · cases hplan
    exact verb_getLast?_adapt hadapt hlast

theorem eq_of_toDelete (h : toDelete inventory desired = (target, .steps steps)) :
    steps = [⟨target, .delete⟩] := by
  rcases toDelete_cases inventory desired with hplan | ⟨found, hplan, -⟩ <;>
    cases hplan.symm.trans h
  rfl

theorem toDelete_ne_nil (h : toDelete inventory desired = (target, .steps steps)) : steps ≠ [] := by
  rw [eq_of_toDelete h]
  exact List.cons_ne_nil _ _

theorem toAdd_of_shown {found : Object} (hfound : inventory.find? desired = some found)
    (hsatisfies : found.satisfies desired = true) :
    toAdd inventory support desired = .ok (.done (.unchanged found)) := by
  simp only [toAdd, hfound, hsatisfies, if_true]

/-- Nothing is planned for what is wanted only if it is shown. -/
theorem shown_of_toAdd (h : toAdd inventory support desired = .ok (.done outcome)) :
    ∃ found, outcome = .unchanged found ∧ inventory.find? desired = some found ∧
      found.satisfies desired = true := by
  rcases toAdd_cases h with ⟨-, hplan⟩ | ⟨found, hfound, ⟨hsatisfies, hplan⟩ | ⟨steps, -, hplan⟩⟩
  · cases hplan
  · exact ⟨found, Plan.done.inj hplan, hfound, hsatisfies⟩
  · cases hplan

theorem done_of_toDelete (h : toDelete inventory desired = (target, .done outcome)) :
    outcome = .alreadyAbsent := by
  rcases toDelete_cases inventory desired with hplan | ⟨found, hplan, -⟩ <;>
    cases hplan.symm.trans h
  rfl

end NetState.Plan
