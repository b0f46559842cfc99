import NetState.Proofs.Text.Words
import NetState.Text.Numeral

namespace NetState.Text

variable {radix : Nat}

theorem digit?_digitChar (hradix : radix ≤ 16) {value : Nat} (h : value < radix) :
    digit? radix (Nat.digitChar value) = some value := by
  have hsixteen : ∀ value < 16, digit? 16 (Nat.digitChar value) = some value := by decide
  have hvalue := hsixteen value (Nat.lt_of_lt_of_le h hradix)
  rw [digit?, Option.filter_eq_some_iff] at hvalue ⊢
  exact ⟨hvalue.1, by simpa using h⟩

theorem digitsAfter?_append (high : Nat) (front rest : List Char) :
    digitsAfter? radix high (front ++ rest) =
      (digitsAfter? radix high front).bind fun value => digitsAfter? radix value rest := by
  induction front generalizing high with
  | nil => rfl
  | cons c front ih =>
      rw [List.cons_append, digitsAfter?, digitsAfter?, Option.bind_assoc]
      simp only [ih]

variable (hsmall : 1 < radix) (hradix : radix ≤ 16)
include hsmall

theorem exists_of_mem_toDigits {n : Nat} {c : Char} (h : c ∈ Nat.toDigits radix n) :
    ∃ value < radix, c = Nat.digitChar value := by
  induction n using Nat.strongRecOn with
  | ind n ih =>
      rw [Nat.toDigits_eq_if hsmall] at h
      split at h
      · rename_i hless
        exact ⟨n, hless, List.mem_singleton.mp h⟩
      · rename_i hmore
        rcases List.mem_append.mp h with h | h
        · exact ih (n / radix) (Nat.div_lt_self (by omega) hsmall) h
        · exact ⟨n % radix, Nat.mod_lt n (by omega), List.mem_singleton.mp h⟩

include hradix

theorem plain_of_mem_toDigits {n : Nat} {c : Char} (h : c ∈ Nat.toDigits radix n) :
    isBlank c = false ∧ c ≠ '+' ∧ c ≠ ':' := by
  obtain ⟨value, hvalue, rfl⟩ := exists_of_mem_toDigits hsmall h
  have hsixteen : ∀ value < 16, isBlank (Nat.digitChar value) = false ∧
      Nat.digitChar value ≠ '+' ∧ Nat.digitChar value ≠ ':' := by decide
  exact hsixteen value (Nat.lt_of_lt_of_le hvalue hradix)

theorem not_mem_toDigits {mark : Char} (hmark : digit? radix mark = none) (n : Nat) :
    mark ∉ Nat.toDigits radix n := by
  intro hmem
  obtain ⟨value, hvalue, rfl⟩ := exists_of_mem_toDigits hsmall hmem
  rw [digit?_digitChar hradix hvalue] at hmark
  exact Option.some_ne_none value hmark

theorem isWord_toDigits (n : Nat) : IsWord (Nat.toDigits radix n) := by
  constructor
  · exact Nat.toDigits_ne_nil
  · intro c hc
    exact (plain_of_mem_toDigits hsmall hradix hc).1

theorem digitsAfter?_toDigits (n : Nat) : digitsAfter? radix 0 (Nat.toDigits radix n) = some n := by
  induction n using Nat.strongRecOn with
  | ind n ih =>
      have hlast (high value : Nat) (hvalue : value < radix) :
          digitsAfter? radix high [Nat.digitChar value] = some (high * radix + value) := by
        rw [digitsAfter?, digit?_digitChar hradix hvalue]
        rfl
      rw [Nat.toDigits_eq_if hsmall]
      split
      · rename_i hless
        rw [hlast 0 n hless, Nat.zero_mul, Nat.zero_add]
      · rename_i hmore
        rw [digitsAfter?_append, ih (n / radix) (Nat.div_lt_self (by omega) hsmall),
          Option.bind_some, hlast _ _ (Nat.mod_lt n (by omega)), Nat.div_add_mod']

theorem numeral?_toDigits {limit n : Nat} (h : n < limit) :
    numeral? radix limit (Nat.toDigits radix n) = some n := by
  have hdigits : digits? radix (Nat.toDigits radix n) = some n := by
    rw [digits?, if_neg (by simp), digitsAfter?_toDigits hsmall hradix]
  have hunsigned : ∀ rest, Nat.toDigits radix n ≠ '+' :: rest := by
    intro rest hrest
    have hsign : '+' ∈ Nat.toDigits radix n := by
      rw [hrest]
      exact List.mem_cons_self
    exact (plain_of_mem_toDigits hsmall hradix hsign).2.1 rfl
  rw [numeral?, hdigits, Option.filter_some, if_pos (by simpa using h)]
  exact hunsigned

omit hsmall hradix

theorem numeralUInt8?_decimal (value : UInt8) :
    numeralUInt8? (decimal value.toNat) = some value := by
  rw [numeralUInt8?, decimal, numeral?_toDigits (by decide) (by decide) value.toNat_lt,
    Option.map_some, UInt8.ofNat_toNat]

theorem numeralUInt32?_decimal (value : UInt32) :
    numeralUInt32? (decimal value.toNat) = some value := by
  rw [numeralUInt32?, decimal, numeral?_toDigits (by decide) (by decide) value.toNat_lt,
    Option.map_some, UInt32.ofNat_toNat]

theorem isWord_decimal (n : Nat) : IsWord (decimal n) :=
  isWord_toDigits (by decide) (by decide) n

theorem isWord_hexadecimal (n : Nat) : IsWord (hexadecimal n) :=
  isWord_toDigits (by decide) (by decide) n

theorem isWord_signed (n : Int) : IsWord (signed n) := by
  rw [signed]
  split
  · constructor
    · exact List.cons_ne_nil _ _
    · intro c hc
      rcases List.mem_cons.mp hc with rfl | hc
      · decide
      · exact (isWord_decimal n.natAbs).2 c hc
  · exact isWord_decimal n.natAbs

end NetState.Text
