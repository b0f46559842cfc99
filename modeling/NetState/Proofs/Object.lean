import NetState.Object.Basic

namespace NetState.Object

theorem owner?_eq_some_iff {object : Object} {interface : UInt32} :
    object.owner? = some interface ↔ object.interface = interface ∧ interface ≠ 0 := by
  rw [owner?]
  split
  · rename_i hzero
    rw [hzero]
    constructor
    · intro h
      exact absurd h (by simp)
    · rintro ⟨rfl, hne⟩
      exact absurd rfl hne
  · rename_i hne
    rw [Option.some.injEq]
    constructor
    · rintro rfl
      exact ⟨rfl, hne⟩
    · exact And.left

theorem form_of_kind (object : Object) : match object.kind with
    | .link => ∃ l, object = .link l
    | .address4 | .address6 => ∃ a, object = .address a
    | .route4 | .route6 => ∃ r, object = .route r
    | .discipline => ∃ d, object = .discipline d
    | .filter => ∃ f, object = .filter f := by
  cases object with
  | link l => exact ⟨l, rfl⟩
  | address a =>
      rw [kind]
      cases a.ip.isV6 <;> exact ⟨a, rfl⟩
  | route r =>
      rw [kind]
      cases r.isV6 <;> exact ⟨r, rfl⟩
  | discipline d => exact ⟨d, rfl⟩
  | filter f => exact ⟨f, rfl⟩

theorem exists_link_of_kind {object : Object} (h : object.kind = .link) :
    ∃ l, object = .link l := by
  have hform := form_of_kind object
  rwa [h] at hform

end NetState.Object
