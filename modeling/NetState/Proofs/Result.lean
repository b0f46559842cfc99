

namespace NetState

variable {ε α β : Type} {first : Except ε α}

theorem bind_eq_ok_iff {next : α → Except ε β} {result : β} :
    first >>= next = .ok result ↔ ∃ value, first = .ok value ∧ next value = .ok result := by
  cases first with
  | error fault => exact ⟨nofun, nofun⟩
  | ok value =>
      constructor
      · intro h
        exact ⟨value, rfl, h⟩
      · rintro ⟨other, hother, h⟩
        rw [Except.ok.inj hother]
        exact h

theorem map_eq_ok_iff {f : α → β} {result : β} :
    first.map f = .ok result ↔ ∃ value, first = .ok value ∧ f value = result := by
  cases first with
  | error fault => exact ⟨nofun, nofun⟩
  | ok value =>
      constructor
      · intro h
        exact ⟨value, rfl, Except.ok.inj h⟩
      · rintro ⟨other, hother, rfl⟩
        rw [Except.ok.inj hother]
        rfl

theorem map_eq_error_iff {f : α → β} {failure : ε} :
    first.map f = .error failure ↔ first = .error failure := by
  cases first with
  | error fault => simp [Except.map]
  | ok value => exact ⟨nofun, nofun⟩

end NetState
