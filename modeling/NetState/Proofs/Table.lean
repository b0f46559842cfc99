import Mathlib.Data.List.Nodup
import NetState.Inventory.Table

namespace NetState.Table

variable {κ ν : Type} [Coded κ]

theorem code_irrefl (key : κ) : ¬ Coded.code key < Coded.code key :=
  List.lt_irrefl _

theorem nodup_keys (table : Table κ ν) : table.keys.Nodup := by
  rw [keys, List.nodup_iff_pairwise_ne, List.pairwise_map]
  refine table.sorted.imp ?_
  intro a b hlt heq
  rw [heq] at hlt
  exact code_irrefl b.1 hlt

theorem nodup_entries (table : Table κ ν) : table.entries.Nodup :=
  List.Nodup.of_map Prod.fst table.nodup_keys

theorem ext_entries {first second : Table κ ν}
    (h : ∀ entry, entry ∈ first.entries ↔ entry ∈ second.entries) : first = second := by
  have hperm : first.entries.Perm second.entries :=
    (List.perm_ext_iff_of_nodup first.nodup_entries second.nodup_entries).mpr h
  have heq : first.entries = second.entries := by
    refine hperm.eq_of_pairwise ?_ first.sorted second.sorted
    intro a b _ _ hab hba
    exact absurd (List.lt_trans hab hba) (code_irrefl a.1)
  cases first
  cases second
  cases heq
  rfl

variable [DecidableEq κ]

omit [Coded κ] in
theorem lookup_eq_some_iff {key : κ} {value : ν} {entries : List (κ × ν)}
    (hkeys : (entries.map (·.1)).Nodup) :
    lookup key entries = some value ↔ (key, value) ∈ entries := by
  induction entries with
  | nil => simp [lookup]
  | cons first rest ih =>
      obtain ⟨found, other⟩ := first
      obtain ⟨hfound, hrest⟩ := List.nodup_cons.mp hkeys
      by_cases hkey : found = key
      · subst hkey
        have hlookup : lookup found ((found, other) :: rest) = some other := by simp [lookup]
        rw [hlookup, List.mem_cons]
        constructor
        · intro h
          left
          rw [Option.some.inj h]
        · rintro (h | h)
          · cases h
            rfl
          · exact absurd (List.mem_map_of_mem h) hfound
      · have hlookup : lookup key ((found, other) :: rest) = lookup key rest := by
          simp [lookup, hkey]
        rw [hlookup, ih hrest, List.mem_cons]
        constructor
        · exact Or.inr
        · rintro (h | h)
          · cases h
            exact absurd rfl hkey
          · exact h

theorem get?_eq_some_iff {table : Table κ ν} {key : κ} {value : ν} :
    table.get? key = some value ↔ (key, value) ∈ table.entries :=
  lookup_eq_some_iff table.nodup_keys

theorem ext_get? {first second : Table κ ν} (h : ∀ key, first.get? key = second.get? key) :
    first = second := by
  refine ext_entries ?_
  rintro ⟨key, value⟩
  rw [← get?_eq_some_iff, ← get?_eq_some_iff, h]

theorem mem_keys_iff {table : Table κ ν} {key : κ} :
    key ∈ table.keys ↔ ∃ value, table.get? key = some value := by
  simp only [keys, List.mem_map, get?_eq_some_iff]
  constructor
  · rintro ⟨⟨_, value⟩, hmem, rfl⟩
    exact ⟨value, hmem⟩
  · rintro ⟨value, hmem⟩
    exact ⟨(key, value), hmem, rfl⟩

theorem mem_values_iff {table : Table κ ν} {value : ν} :
    value ∈ table.values ↔ ∃ key, table.get? key = some value := by
  simp only [values, List.mem_map, get?_eq_some_iff]
  constructor
  · rintro ⟨⟨key, _⟩, hmem, rfl⟩
    exact ⟨key, hmem⟩
  · rintro ⟨key, hmem⟩
    exact ⟨(key, value), hmem, rfl⟩

theorem contains_iff {table : Table κ ν} {key : κ} :
    table.contains key = true ↔ ∃ value, table.get? key = some value := by
  rw [contains, Option.isSome_iff_exists]

theorem entries_eq_nil_iff {table : Table κ ν} :
    table.entries = [] ↔ ∀ key, table.get? key = none := by
  constructor
  · intro h key
    simp [get?, lookup, h]
  · intro h
    rw [List.eq_nil_iff_forall_not_mem]
    rintro ⟨key, value⟩ hmem
    rw [← get?_eq_some_iff, h] at hmem
    exact absurd hmem (by simp)

theorem get?_insert_self (table : Table κ ν) (key : κ) (value : ν) :
    (table.insert key value).get? key = some value := by
  rw [get?_insert, if_pos rfl]

theorem get?_erase_self (table : Table κ ν) (key : κ) : (table.erase key).get? key = none := by
  rw [get?_erase, if_pos rfl]

theorem get?_filter (table : Table κ ν) (keep : κ → ν → Bool) (key : κ) :
    (table.filter keep).get? key = (table.get? key).filter (keep key) := by
  ext value
  rw [Option.filter_eq_some_iff, get?_eq_some_iff, get?_eq_some_iff, filter]
  simp [List.mem_filter]

theorem insert_eq_self {table : Table κ ν} {key : κ} {value : ν}
    (h : table.get? key = some value) : table.insert key value = table := by
  refine ext_get? ?_
  intro other
  rw [get?_insert]
  split
  · rename_i heq
    rw [← heq, h]
  · rfl

theorem get?_foldl_insert (entries : List (κ × ν)) (table : Table κ ν) (key : κ) :
    (entries.foldl (fun table entry => table.insert entry.1 entry.2) table).get? key =
      (lookup key entries.reverse).or (table.get? key) := by
  induction entries generalizing table with
  | nil => simp [lookup]
  | cons first rest ih =>
      rw [List.foldl_cons, ih, get?_insert, List.reverse_cons]
      simp only [lookup, List.find?_append, List.find?_singleton]
      by_cases hkey : first.1 = key
      · cases rest.reverse.find? (·.1 == key) <;> simp [hkey]
      · simp [hkey]

theorem lookup_reverse (table : Table κ ν) (key : κ) :
    lookup key table.entries.reverse = table.get? key := by
  ext value
  rw [get?_eq_some_iff, lookup_eq_some_iff, List.mem_reverse]
  rw [List.map_reverse, List.nodup_reverse]
  exact table.nodup_keys

theorem get?_ofList (entries : List (κ × ν)) (key : κ) :
    (ofList entries).get? key = lookup key entries.reverse := by
  rw [ofList, get?_foldl_insert, get?_empty, Option.or_none]

theorem mem_of_get?_ofList {entries : List (κ × ν)} {key : κ} {value : ν}
    (h : (ofList entries).get? key = some value) : (key, value) ∈ entries := by
  rw [get?_ofList, lookup, Option.map_eq_some_iff] at h
  obtain ⟨⟨found, _⟩, hfind, rfl⟩ := h
  have hkey : found = key := by simpa using List.find?_some hfind
  rw [← hkey]
  exact List.mem_reverse.mp (List.mem_of_find?_eq_some hfind)

theorem exists_get?_ofList {entries : List (κ × ν)} {entry : κ × ν} (h : entry ∈ entries) :
    ∃ value, (ofList entries).get? entry.1 = some value := by
  rw [get?_ofList, lookup]
  cases hfind : entries.reverse.find? (·.1 == entry.1) with
  | none =>
      rw [List.find?_eq_none] at hfind
      exact absurd (hfind entry (List.mem_reverse.mpr h)) (by simp)
  | some found => exact ⟨found.2, rfl⟩

end NetState.Table
