

namespace NetState

/-- Keys with an order: that of the lists of numbers they are coded as. -/
class Coded (κ : Type) where
  code : κ → List Nat
  code_injective : ∀ {a b : κ}, code a = code b → a = b

instance : Coded UInt32 where
  code n := [n.toNat]
  code_injective h := by simpa [UInt32.toNat_inj] using h

/-- A finite map, its entries in the order of their keys. -/
structure Table (κ ν : Type) [Coded κ] where
  entries : List (κ × ν)
  sorted : entries.Pairwise fun a b => Coded.code a.1 < Coded.code b.1

namespace Table

variable {κ ν : Type} [Coded κ]

def empty : Table κ ν := ⟨[], .nil⟩

def size (table : Table κ ν) : Nat :=
  table.entries.length

def keys (table : Table κ ν) : List κ :=
  table.entries.map (·.1)

def values (table : Table κ ν) : List ν :=
  table.entries.map (·.2)

theorem code_lt_of_not_lt {a b : κ} (hlt : ¬ Coded.code a < Coded.code b) (hne : a ≠ b) :
    Coded.code b < Coded.code a := by
  have hcode : Coded.code a ≠ Coded.code b := fun h => hne (Coded.code_injective h)
  rcases List.le_iff_lt_or_eq.mp (List.not_lt.mp hlt) with h | h
  · exact h
  · exact absurd h.symm hcode

variable [DecidableEq κ]

/-- The value of a key among entries. -/
def lookup (key : κ) (entries : List (κ × ν)) : Option ν :=
  (entries.find? (·.1 == key)).map (·.2)

def get? (table : Table κ ν) (key : κ) : Option ν :=
  lookup key table.entries

def contains (table : Table κ ν) (key : κ) : Bool :=
  (table.get? key).isSome

/-- Entries with one more put in its place, or put for the one with its key. -/
def insertEntry (key : κ) (value : ν) : List (κ × ν) → List (κ × ν)
  | [] => [(key, value)]
  | entry :: rest =>
    if Coded.code key < Coded.code entry.1 then (key, value) :: entry :: rest
    else if key = entry.1 then (key, value) :: rest
    else entry :: insertEntry key value rest

theorem mem_insertEntry {key : κ} {value : ν} {entry : κ × ν} {entries : List (κ × ν)}
    (h : entry ∈ insertEntry key value entries) : entry = (key, value) ∨ entry ∈ entries := by
  induction entries with
  | nil => simpa [insertEntry] using h
  | cons first rest ih =>
    simp only [insertEntry] at h
    grind

theorem sorted_insertEntry (key : κ) (value : ν) {entries : List (κ × ν)}
    (h : entries.Pairwise fun a b => Coded.code a.1 < Coded.code b.1) :
    (insertEntry key value entries).Pairwise fun a b => Coded.code a.1 < Coded.code b.1 := by
  induction entries with
  | nil => simp [insertEntry]
  | cons first rest ih =>
    have hfirst : ∀ {entry : κ × ν}, entry ∈ rest → Coded.code first.1 < Coded.code entry.1 :=
      fun hentry => List.rel_of_pairwise_cons h hentry
    simp only [insertEntry]
    split
    · rename_i hlt
      refine h.cons fun entry hentry => ?_
      rcases List.mem_cons.mp hentry with rfl | hmem
      · exact hlt
      · exact List.lt_trans hlt (hfirst hmem)
    · rename_i hlt
      split
      · rename_i heq
        subst heq
        exact h.of_cons.cons fun entry hentry => hfirst hentry
      · rename_i hne
        refine (ih h.of_cons).cons fun entry hentry => ?_
        rcases mem_insertEntry hentry with rfl | hmem
        · exact code_lt_of_not_lt hlt hne
        · exact hfirst hmem

/-- The table with a value for a key, in the place of the one there was. -/
def insert (table : Table κ ν) (key : κ) (value : ν) : Table κ ν :=
  ⟨insertEntry key value table.entries, sorted_insertEntry key value table.sorted⟩

/-- The table without a key. -/
def erase (table : Table κ ν) (key : κ) : Table κ ν :=
  ⟨table.entries.filter (·.1 != key), table.sorted.sublist List.filter_sublist⟩

/-- The table of the entries that a condition keeps. -/
def filter (table : Table κ ν) (keep : κ → ν → Bool) : Table κ ν :=
  ⟨table.entries.filter fun entry => keep entry.1 entry.2,
    table.sorted.sublist List.filter_sublist⟩

/-- The table of all entries of a list, of which the last one counts for each key. -/
def ofList (entries : List (κ × ν)) : Table κ ν :=
  entries.foldl (fun table entry => table.insert entry.1 entry.2) empty

theorem lookup_insertEntry (key other : κ) (value : ν) (entries : List (κ × ν)) :
    lookup other (insertEntry key value entries) =
      if key = other then some value else lookup other entries := by
  induction entries with
  | nil => by_cases h : key = other <;> simp [insertEntry, lookup, h]
  | cons first rest ih =>
    simp only [insertEntry, lookup] at ih ⊢
    split
    · by_cases h : key = other <;> simp [h]
    · split
      · rename_i heq
        subst heq
        by_cases h : first.1 = other <;> simp [h]
      · rename_i hne
        by_cases hfirst : first.1 = other
        · subst hfirst
          simp [hne]
        · simp [hfirst, ih]

theorem get?_insert (table : Table κ ν) (key other : κ) (value : ν) :
    (table.insert key value).get? other = if key = other then some value else table.get? other :=
  lookup_insertEntry key other value table.entries

theorem get?_erase (table : Table κ ν) (key other : κ) :
    (table.erase key).get? other = if key = other then none else table.get? other := by
  simp only [get?, lookup, erase]
  induction table.entries with
  | nil => simp
  | cons first rest ih =>
    by_cases hkey : first.1 = key <;> by_cases hother : first.1 = other
    · subst hkey hother
      simp
    · subst hkey
      simp [hother] at ih ⊢
      simp [ih]
    · subst hother
      simp [hkey, Ne.symm hkey]
    · simp [hkey, hother] at ih ⊢
      simp [ih]

theorem get?_empty (key : κ) : (empty : Table κ ν).get? key = none := rfl

end Table

end NetState
