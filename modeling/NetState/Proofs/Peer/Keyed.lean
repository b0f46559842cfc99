import Mathlib.Data.List.Nodup
import NetState.Peer.Change

namespace NetState.Peer

variable {α κ : Type} {key : α → κ} {fits : α → Bool} {list after : List α} {old value other : α}

/-- A list with a value under its key, in the place of what was there. -/
structure IsPut (key : α → κ) (value : α) (list after : List α) : Prop where
  mem_iff : ∀ {other}, other ∈ after ↔ other = value ∨ other ∈ list ∧ key other ≠ key value
  nodup : (after.map key).Nodup

theorem IsPut.mem (h : IsPut key value list after) : value ∈ after :=
  h.mem_iff.mpr (Or.inl rfl)

/-- A list without one of its elements. -/
structure IsTaken (key : α → κ) (value : α) (list after : List α) : Prop where
  mem : value ∈ list
  mem_iff : ∀ {other}, other ∈ after ↔ other ∈ list ∧ key other ≠ key value
  nodup : (after.map key).Nodup

/-- A list with a value that is stored: in the place of the first element that fits, or else at the
end. -/
inductive IsStored (fits : α → Bool) (value : α) (list : List α) : List α → Prop where
  | replaced {old : α} (hold : list.find? fits = some old) :
      IsStored fits value list (replaceFirst fits value list)
  | added (hfree : list.find? fits = none) : IsStored fits value list (list ++ [value])

theorem exists_of_find? (hkeys : (list.map key).Nodup) (h : list.find? fits = some old) :
    ∃ before rest, list = before ++ old :: rest ∧
      (∀ element, element ∈ before ∨ element ∈ rest → key element ≠ key old) ∧
      (∀ value, replaceFirst fits value list = before ++ value :: rest) ∧
      list.eraseP fits = before ++ rest := by
  induction list with
  | nil => exact absurd h (by simp)
  | cons first rest ih =>
      obtain ⟨hfirst, hrest⟩ := List.nodup_cons.mp hkeys
      -- The first that fits is taken; the keys are all different, so nothing before or after it has
      -- its key.
      by_cases hfits : fits first = true
      · rw [List.find?_cons_of_pos hfits] at h
        rw [← Option.some.inj h]
        refine ⟨[], rest, rfl, ?_, ?_, List.eraseP_cons_of_pos hfits⟩
        · intro element hmem heq
          rcases hmem with hmem | hmem
          · exact absurd hmem (by simp)
          · exact hfirst (heq ▸ List.mem_map_of_mem hmem)
        · intro value
          rw [replaceFirst, if_pos hfits]
          rfl
      · rw [List.find?_cons_of_neg hfits] at h
        obtain ⟨before, last, hlist, hother, hreplaced, herased⟩ := ih hrest h
        refine ⟨first :: before, last, ?_, ?_, ?_, ?_⟩
        · rw [hlist]
          rfl
        · intro element hmem
          rw [List.mem_cons, or_assoc] at hmem
          rcases hmem with rfl | hmem
          · intro heq
            exact hfirst (heq ▸ List.mem_map_of_mem (List.mem_of_find?_eq_some h))
          · exact hother element hmem
        · intro value
          rw [replaceFirst, if_neg hfits, hreplaced]
          rfl
        · rw [List.eraseP_cons_of_neg hfits, herased]
          rfl

theorem isPut_replaceFirst (hkeys : (list.map key).Nodup) (h : list.find? fits = some old)
    (hkey : key value = key old) : IsPut key value list (replaceFirst fits value list) := by
  obtain ⟨before, rest, hlist, hother, hreplaced, -⟩ := exists_of_find? hkeys h
  rw [hreplaced]
  constructor
  · intro other
    rw [hlist, hkey]
    simp only [List.mem_append, List.mem_cons]
    constructor
    · rintro (hmem | rfl | hmem)
      · exact Or.inr ⟨Or.inl hmem, hother other (Or.inl hmem)⟩
      · exact Or.inl rfl
      · exact Or.inr ⟨Or.inr (Or.inr hmem), hother other (Or.inr hmem)⟩
    · rintro (rfl | ⟨hmem | rfl | hmem, hne⟩)
      · exact Or.inr (Or.inl rfl)
      · exact Or.inl hmem
      · exact absurd rfl hne
      · exact Or.inr (Or.inr hmem)
  · rw [hlist] at hkeys
    rw [List.map_append, List.map_cons, hkey, ← List.map_cons, ← List.map_append]
    exact hkeys

theorem isTaken_eraseP (hkeys : (list.map key).Nodup) (h : list.find? fits = some old) :
    IsTaken key old list (list.eraseP fits) := by
  obtain ⟨before, rest, hlist, hother, -, herased⟩ := exists_of_find? hkeys h
  refine ⟨List.mem_of_find?_eq_some h, ?_, hkeys.sublist (List.eraseP_sublist.map key)⟩
  intro other
  rw [herased, hlist]
  simp only [List.mem_append, List.mem_cons]
  constructor
  · intro hmem
    exact ⟨hmem.imp id Or.inr, hother other hmem⟩
  · rintro ⟨hmem | rfl | hmem, hne⟩
    · exact Or.inl hmem
    · exact absurd rfl hne
    · exact Or.inr hmem

theorem isPut_append (hkeys : (list.map key).Nodup)
    (h : ∀ element ∈ list, key element ≠ key value) : IsPut key value list (list ++ [value]) := by
  constructor
  · intro other
    rw [List.mem_append, List.mem_singleton, or_comm]
    exact or_congr_right ⟨fun hmem => ⟨hmem, h other hmem⟩, And.left⟩
  · rw [List.map_append, List.map_singleton, List.nodup_append]
    refine ⟨hkeys, List.nodup_singleton _, ?_⟩
    intro one hone two htwo
    obtain ⟨element, helement, rfl⟩ := List.mem_map.mp hone
    rw [List.mem_singleton.mp htwo]
    exact h element helement

theorem IsStored.isPut (h : IsStored fits value list after) (hkeys : (list.map key).Nodup)
    (hfits : ∀ {element}, fits element = true ↔ key element = key value) :
    IsPut key value list after := by
  cases h with
  | replaced hold =>
      exact isPut_replaceFirst hkeys hold (hfits.mp (List.find?_some hold)).symm
  | added hfree =>
      refine isPut_append hkeys ?_
      intro element hmem heq
      exact List.find?_eq_none.mp hfree element hmem (hfits.mpr heq)

theorem IsTaken.isPut_append (h : IsTaken key old list after) (hkey : key value = key old) :
    IsPut key value list (after ++ [value]) := by
  have hput : IsPut key value after (after ++ [value]) := by
    refine Peer.isPut_append h.nodup ?_
    intro element hmem
    rw [hkey]
    exact (h.mem_iff.mp hmem).2
  refine ⟨?_, hput.nodup⟩
  intro other
  rw [hput.mem_iff, h.mem_iff, hkey, and_assoc, and_self]

end NetState.Peer
