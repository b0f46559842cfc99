import Mathlib.Data.List.TakeWhile
import NetState.Wire.Value

namespace NetState.Text

def untilZero (text : String) : String :=
  String.ofList (text.toList.takeWhile (· != '\x00'))

/-- Whether a text has no zero character. -/
def ZeroFree (text : String) : Prop :=
  '\x00' ∉ text.toList

theorem untilZero_eq_self_iff {text : String} : untilZero text = text ↔ ZeroFree text := by
  rw [untilZero, ← String.toList_inj, String.toList_ofList, ZeroFree, List.takeWhile_eq_self_iff]
  constructor
  · intro h hzero
    exact absurd (h _ hzero) (by simp)
  · intro h c hc
    rw [bne_iff_ne]
    rintro rfl
    exact h hc

namespace Utf8

variable {index : Nat} {seen : List Char} {b₀ b₁ b₂ b₃ : UInt8} {rest : Bytes}

theorem isContinuation_iff {octet : UInt8} :
    isContinuation octet = true ↔ 0x80 ≤ octet.toNat ∧ octet.toNat ≤ 0xBF := by
  simp [isContinuation, UInt8.le_iff_toNat_le]

theorem secondFits_iff : secondFits b₀ b₁ = true ↔ isContinuation b₁ = true ∧
    (b₀.toNat = 0xE0 → 0xA0 ≤ b₁.toNat) ∧ (b₀.toNat = 0xED → b₁.toNat ≤ 0x9F) ∧
      (b₀.toNat = 0xF0 → 0x90 ≤ b₁.toNat) ∧ (b₀.toNat = 0xF4 → b₁.toNat ≤ 0x8F) := by
  simp only [secondFits, Bool.and_eq_true, Bool.or_eq_true, bne_iff_ne, ne_eq, ← UInt8.toNat_inj,
    decide_eq_true_eq, UInt8.le_iff_toNat_le, UInt8.reduceToNat, and_assoc, ← imp_iff_not_or]

theorem decodeFrom_one (h : b₀.toNat < 0x80) : decodeFrom index seen (b₀ :: rest) =
    decodeFrom (index + 1) (assemble b₀ [] :: seen) rest := by
  have hfirst : b₀ < 0x80 := UInt8.lt_iff_toNat_lt.mpr h
  rw [decodeFrom.eq_def]
  simp only [hfirst, if_true]

theorem starts_longer (h : 0xC2 ≤ b₀.toNat) (hlast : b₀.toNat ≤ 0xF4) :
    ¬b₀ < 0x80 ∧ ¬(decide (b₀ < 0xC2) || decide (0xF4 < b₀)) = true := by
  simp only [UInt8.lt_iff_toNat_lt, UInt8.reduceToNat, Bool.or_eq_true, decide_eq_true_eq]
  omega

theorem decodeFrom_two (h : 0xC2 ≤ b₀.toNat) (hlast : b₀.toNat < 0xE0)
    (hsecond : isContinuation b₁ = true) : decodeFrom index seen (b₀ :: b₁ :: rest) =
      decodeFrom (index + 2) (assemble b₀ [b₁] :: seen) rest := by
  have hleads := starts_longer h (by omega)
  have hshort : b₀ < 0xE0 := UInt8.lt_iff_toNat_lt.mpr hlast
  have hfits : secondFits b₀ b₁ = true := secondFits_iff.mpr ⟨hsecond, by omega⟩
  rw [decodeFrom.eq_def]
  simp only [hleads, hfits, hshort, Bool.not_true, Bool.false_eq_true, if_false, if_true]

theorem decodeFrom_three (h : 0xE0 ≤ b₀.toNat) (hlast : b₀.toNat < 0xF0)
    (hsecond : secondFits b₀ b₁ = true) (hthird : isContinuation b₂ = true) :
    decodeFrom index seen (b₀ :: b₁ :: b₂ :: rest) =
      decodeFrom (index + 3) (assemble b₀ [b₁, b₂] :: seen) rest := by
  have hleads := starts_longer (Nat.le_trans (by decide) h) (by omega)
  have hlong : ¬b₀ < 0xE0 := fun hless => Nat.not_lt.mpr h (UInt8.lt_iff_toNat_lt.mp hless)
  have hshort : b₀ < 0xF0 := UInt8.lt_iff_toNat_lt.mpr hlast
  rw [decodeFrom.eq_def]
  simp only [hleads, hsecond, hthird, hlong, hshort, Bool.not_true, Bool.false_eq_true, if_false,
    if_true]

theorem decodeFrom_four (h : 0xF0 ≤ b₀.toNat) (hlast : b₀.toNat ≤ 0xF4)
    (hsecond : secondFits b₀ b₁ = true) (hthird : isContinuation b₂ = true)
    (hfourth : isContinuation b₃ = true) :
    decodeFrom index seen (b₀ :: b₁ :: b₂ :: b₃ :: rest) =
      decodeFrom (index + 4) (assemble b₀ [b₁, b₂, b₃] :: seen) rest := by
  have hleads := starts_longer (Nat.le_trans (by decide) h) hlast
  have hlong : ¬b₀ < 0xE0 ∧ ¬b₀ < 0xF0 := by
    simp only [UInt8.lt_iff_toNat_lt, UInt8.reduceToNat]
    omega
  rw [decodeFrom.eq_def]
  simp only [hleads, hsecond, hthird, hfourth, hlong, Bool.not_true, Bool.false_eq_true, if_false]

theorem toNat_ofNat {n : Nat} (h : n < 256) : (UInt8.ofNat n).toNat = n := by
  rw [UInt8.toNat_ofNat', Nat.mod_eq_of_lt h]

section

variable {v : Nat}

theorem assemble_one (h : v ≤ 0x7F) : assemble (UInt8.ofNat v) [] = Char.ofNat v := by
  simp only [assemble, List.length_nil, List.foldl_nil, toNat_ofNat (show v < 256 by omega)]
  congr 1
  omega

theorem assemble_two (h : v ≤ 0x7FF) :
    assemble (UInt8.ofNat (v / 64 % 32 + 192)) [UInt8.ofNat (v % 64 + 128)] = Char.ofNat v := by
  simp only [assemble, List.length_cons, List.length_nil, List.foldl_cons, List.foldl_nil,
    toNat_ofNat (show v / 64 % 32 + 192 < 256 by omega),
    toNat_ofNat (show v % 64 + 128 < 256 by omega)]
  congr 1
  omega

theorem assemble_three (h : v ≤ 0xFFFF) :
    assemble (UInt8.ofNat (v / 4096 % 16 + 224))
      [UInt8.ofNat (v / 64 % 64 + 128), UInt8.ofNat (v % 64 + 128)] = Char.ofNat v := by
  simp only [assemble, List.length_cons, List.length_nil, List.foldl_cons, List.foldl_nil,
    toNat_ofNat (show v / 4096 % 16 + 224 < 256 by omega),
    toNat_ofNat (show v / 64 % 64 + 128 < 256 by omega),
    toNat_ofNat (show v % 64 + 128 < 256 by omega)]
  congr 1
  omega

theorem assemble_four (h : v < 0x110000) :
    assemble (UInt8.ofNat (v / 262144 % 8 + 240))
      [UInt8.ofNat (v / 4096 % 64 + 128), UInt8.ofNat (v / 64 % 64 + 128),
        UInt8.ofNat (v % 64 + 128)] = Char.ofNat v := by
  simp only [assemble, List.length_cons, List.length_nil, List.foldl_cons, List.foldl_nil,
    toNat_ofNat (show v / 262144 % 8 + 240 < 256 by omega),
    toNat_ofNat (show v / 4096 % 64 + 128 < 256 by omega),
    toNat_ofNat (show v / 64 % 64 + 128 < 256 by omega),
    toNat_ofNat (show v % 64 + 128 < 256 by omega)]
  congr 1
  omega

end

theorem isContinuation_ofNat (digit : Nat) :
    isContinuation (UInt8.ofNat (digit % 64 + 128)) = true := by
  rw [isContinuation_iff, toNat_ofNat (by omega)]
  omega

/-- A character is read back from its octets, and then what follows it. -/
theorem decodeFrom_utf8EncodeChar (index : Nat) (seen : List Char) (c : Char) (rest : Bytes) :
    decodeFrom index seen (String.utf8EncodeChar c ++ rest) =
      decodeFrom (index + (String.utf8EncodeChar c).length) (c :: seen) rest := by
  have hvalid : c.val.toNat < 0xD800 ∨ 0xDFFF < c.val.toNat ∧ c.val.toNat < 0x110000 := c.valid
  have hsame : Char.ofNat c.val.toNat = c := Char.ofNat_toNat c
  rw [String.utf8EncodeChar]
  generalize c.val.toNat = v at hvalid hsame ⊢
  have hthree : (UInt8.ofNat (v / 4096 % 64 + 128)).toNat = v / 4096 % 64 + 128 :=
    toNat_ofNat (by omega)
  have htwo : (UInt8.ofNat (v / 64 % 64 + 128)).toNat = v / 64 % 64 + 128 := toNat_ofNat (by omega)
  split
  case isTrue hv =>
    have hfirst : (UInt8.ofNat v).toNat = v := toNat_ofNat (by omega)
    rw [List.singleton_append, decodeFrom_one (by omega), assemble_one hv, hsame]
    rfl
  split
  case isTrue hv =>
    have hfirst : (UInt8.ofNat (v / 64 % 32 + 192)).toNat = v / 64 % 32 + 192 :=
      toNat_ofNat (by omega)
    rw [List.cons_append, List.singleton_append, decodeFrom_two (by omega) (by omega)
      (isContinuation_ofNat v), assemble_two hv, hsame]
    rfl
  split
  case isTrue hv =>
    have hfirst : (UInt8.ofNat (v / 4096 % 16 + 224)).toNat = v / 4096 % 16 + 224 :=
      toNat_ofNat (by omega)
    rw [List.cons_append, List.cons_append, List.singleton_append, decodeFrom_three (by omega)
      (by omega) (secondFits_iff.mpr ⟨isContinuation_ofNat (v / 64), by omega⟩)
      (isContinuation_ofNat v), assemble_three hv, hsame]
    rfl
  case isFalse hv =>
    have hfirst : (UInt8.ofNat (v / 262144 % 8 + 240)).toNat = v / 262144 % 8 + 240 :=
      toNat_ofNat (by omega)
    rw [List.cons_append, List.cons_append, List.cons_append, List.singleton_append,
      decodeFrom_four (by omega) (by omega)
        (secondFits_iff.mpr ⟨isContinuation_ofNat (v / 4096), by omega⟩)
        (isContinuation_ofNat (v / 64)) (isContinuation_ofNat v), assemble_four (by omega), hsame]
    rfl

theorem ne_zero_of_mem_utf8EncodeChar {c : Char} (hc : c ≠ '\x00') {octet : UInt8}
    (h : octet ∈ String.utf8EncodeChar c) : octet ≠ 0 := by
  have hvalue : c.val.toNat ≠ 0 := by
    intro hzero
    refine hc ?_
    rw [← Char.ofNat_toNat c, show c.toNat = 0 from hzero]
  have hoctet {n : Nat} (hn : n % 256 ≠ 0) : UInt8.ofNat n ≠ 0 := by
    intro hzero
    refine hn ?_
    rw [← UInt8.toNat_ofNat', hzero]
    rfl
  rw [String.utf8EncodeChar] at h
  split at h
  · rw [List.mem_singleton.mp h]
    exact hoctet (by omega)
  split at h
  · rcases List.mem_cons.mp h with rfl | h
    · exact hoctet (by omega)
    · rw [List.mem_singleton.mp h]
      exact hoctet (by omega)
  split at h
  all_goals
    simp only [List.mem_cons, List.not_mem_nil, or_false] at h
    rcases h with rfl | rfl | rfl | rfl <;> exact hoctet (by omega)

theorem decodeFrom_flatMap (index : Nat) (seen text : List Char) :
    decodeFrom index seen (text.flatMap String.utf8EncodeChar) = .ok (seen.reverse ++ text) := by
  induction text generalizing index seen with
  | nil => rw [List.flatMap_nil, decodeFrom, List.append_nil]
  | cons c text ih =>
      rw [List.flatMap_cons, decodeFrom_utf8EncodeChar, ih, List.reverse_cons, List.append_assoc]
      rfl

theorem decode_encode (text : String) : decode (encode text) = .ok text := by
  rw [decode, encode, decodeFrom_flatMap]
  exact congrArg Except.ok String.ofList_toList

theorem takeWhile_flatMap (text : List Char) :
    (text.flatMap String.utf8EncodeChar ++ [0]).takeWhile (· != 0) =
      (text.takeWhile (· != '\x00')).flatMap String.utf8EncodeChar := by
  induction text with
  | nil => rfl
  | cons c text ih =>
      rw [List.flatMap_cons, List.append_assoc, List.takeWhile_cons]
      by_cases hc : c = '\x00'
      · subst hc
        rfl
      · have hoctets : ∀ octet ∈ String.utf8EncodeChar c, (octet != 0) = true :=
          fun octet hoctet => bne_iff_ne.mpr (ne_zero_of_mem_utf8EncodeChar hc hoctet)
        rw [List.takeWhile_append_of_pos hoctets, ih, if_pos (bne_iff_ne.mpr hc), List.flatMap_cons]

end Utf8

end Text

theorem Value.string_encode (text : String) :
    Value.string (Text.Utf8.encode text ++ [0]) = .ok (Text.untilZero text) := by
  have hoctets : (Text.Utf8.encode text ++ [0]).takeWhile (· != 0) =
      Text.Utf8.encode (Text.untilZero text) := by
    rw [Text.untilZero, Text.Utf8.encode, Text.Utf8.encode, String.toList_ofList]
    exact Text.Utf8.takeWhile_flatMap text.toList
  rw [Value.string, hoctets, Text.Utf8.decode_encode]

end NetState
