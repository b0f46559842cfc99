import NetState.Ip.Text
import NetState.Proofs.Text.Numeral

namespace NetState

namespace Text

variable {radix : Nat}

/-- What does not go on with a digit. -/
def EndsDigits (radix : Nat) (rest : List Char) : Prop :=
  ∀ c ∈ rest.head?, digit? radix c = none

theorem endsDigits_nil (radix : Nat) : EndsDigits radix [] := by
  intro c hc
  exact absurd hc (by simp)

theorem takeWhile_toDigits (hsmall : 1 < radix) (hradix : radix ≤ 16) (n : Nat) {rest : List Char}
    (h : EndsDigits radix rest) :
    (Nat.toDigits radix n ++ rest).takeWhile (fun c => (digit? radix c).isSome) =
      Nat.toDigits radix n := by
  have hrest : rest.takeWhile (fun c => (digit? radix c).isSome) = [] := by
    cases rest with
    | nil => rfl
    | cons c rest => rw [List.takeWhile_cons_of_neg (by simp [h c rfl])]
  rw [List.takeWhile_append_of_pos, hrest, List.append_nil]
  intro c hc
  obtain ⟨value, hvalue, rfl⟩ := exists_of_mem_toDigits hsmall hc
  rw [digit?_digitChar hradix hvalue]
  rfl

end Text

namespace Ip

open Text

theorem readDigits?_toDigits {radix most n : Nat} (hsmall : 1 < radix) (hradix : radix ≤ 16)
    (hmost : (Nat.toDigits radix n).length ≤ most) {rest : List Char}
    (hrest : EndsDigits radix rest) :
    readDigits? radix most (Nat.toDigits radix n ++ rest) =
      some (Nat.toDigits radix n, n, rest) := by
  have hsome : (Nat.toDigits radix n).isEmpty = false := by simp
  rw [readDigits?, takeWhile_toDigits hsmall hradix n hrest]
  simp only [hsome, Bool.false_or, decide_eq_true_eq, Nat.not_lt.mpr hmost, if_false]
  rw [digits?, if_neg (by simp [hsome]), digitsAfter?_toDigits hsmall hradix, List.drop_left]
  rfl

theorem append_of_readDigits? {radix most value : Nat} {text digits rest : List Char}
    (h : readDigits? radix most text = some (digits, value, rest)) :
    text = digits ++ rest ∧ ∀ c ∈ digits, (digit? radix c).isSome := by
  rw [readDigits?] at h
  split at h
  · exact absurd h (by simp)
  · obtain ⟨number, -, hread⟩ := Option.map_eq_some_iff.mp h
    cases hread
    constructor
    · exact (List.prefix_iff_eq_append.mp (List.takeWhile_prefix _)).symm
    · exact fun c hc => List.all_eq_true.mp List.all_takeWhile c hc

theorem readOctet?_decimal {n : Nat} (h : n < 256) {rest : List Char} (hrest : EndsDigits 10 rest) :
    readOctet? (decimal n ++ rest) = some (n, rest) := by
  have hoctet : ∀ n < 256, (Nat.toDigits 10 n).length ≤ 3 ∧
      (1 < (Nat.toDigits 10 n).length && (Nat.toDigits 10 n).head? == some '0') = false := by
    decide +kernel
  obtain ⟨hlength, hlead⟩ := hoctet n h
  have hsmall : decide (255 < n) = false := by simpa using Nat.le_of_lt_succ h
  rw [readOctet?, decimal, readDigits?_toDigits (by decide) (by decide) hlength hrest,
    Option.bind_some]
  simp only [hsmall, hlead, Bool.or_false, Bool.false_eq_true, if_false]

theorem readGroup?_hexadecimal {n : Nat} (h : n < 65536) {rest : List Char}
    (hrest : EndsDigits 16 rest) : readGroup? (hexadecimal n ++ rest) = some (n, rest) := by
  have hlength : (Nat.toDigits 16 n).length ≤ 4 :=
    (Nat.length_toDigits_le_iff (by decide) (by decide)).mpr h
  rw [readGroup?, hexadecimal, readDigits?_toDigits (by decide) (by decide) hlength hrest]
  rfl

theorem readDotted?_dotted (bits : BitVec 32) {rest : List Char} (hrest : EndsDigits 10 rest) :
    readDotted? (dotted bits ++ rest) = some (bits, rest) := by
  have hdot (more : List Char) : EndsDigits 10 ('.' :: more) := by
    intro c hc
    rw [← Option.some.inj hc]
    rfl
  have hoctet (k : Nat) : bits.toNat >>> (8 * k) % 256 < 256 := Nat.mod_lt _ (by decide)
  have hbits : BitVec.ofNat 32 (((bits.toNat >>> (8 * 3) % 256 * 256 +
      bits.toNat >>> (8 * 2) % 256) * 256 + bits.toNat >>> (8 * 1) % 256) * 256 +
      bits.toNat >>> (8 * 0) % 256) = bits := by
    have hlt := bits.isLt
    rw [← BitVec.toNat_inj, BitVec.toNat_ofNat]
    simp only [Nat.shiftRight_eq_div_pow]
    omega
  simp only [dotted, readDotted?, List.append_assoc, List.cons_append, Option.bind_eq_bind,
    readOctet?_decimal (hoctet _) (hdot _), readOctet?_decimal (hoctet 0) hrest,
    Option.bind_some, skip?, if_true]
  exact congrArg (fun read => some (read, rest)) hbits

theorem readDotted?_eq_none {text : List Char} (h : '.' ∉ text.takeWhile (· != ':')) :
    readDotted? text = none := by
  cases hoctet : readOctet? text with
  | none => rw [readDotted?, hoctet, Option.bind_eq_bind, Option.bind_none]
  | some read =>
      obtain ⟨value, rest⟩ := read
      have hskip : skip? '.' rest = none := by
        obtain ⟨⟨front, number, after⟩, hdigits, hafter⟩ := Option.bind_eq_some_iff.mp hoctet
        obtain ⟨rfl, hfront⟩ := append_of_readDigits? hdigits
        obtain rfl : after = rest := by
          simp only [Option.ite_none_left_eq_some, Option.some.injEq, Prod.mk.injEq] at hafter
          exact hafter.2.2
        have hcolon : ∀ c ∈ front, (c != ':') = true := by
          intro c hc
          simp only [bne_iff_ne, ne_eq]
          rintro rfl
          exact absurd (hfront ':' hc) (by decide)
        rw [List.takeWhile_append_of_pos hcolon] at h
        cases after with
        | nil => rfl
        | cons c after =>
            rw [skip?, if_neg]
            rintro rfl
            exact h (List.mem_append_right front List.mem_cons_self)
      rw [readDotted?, hoctet]
      simp only [Option.bind_eq_bind, Option.bind_some, hskip, Option.bind_none]

/-- What no group follows: the end, or two colons. -/
def EndsGroups (rest : List Char) : Prop :=
  rest = [] ∨ ∃ more, rest = ':' :: ':' :: more

theorem joinGroups_cons (group : Nat) (parts : List Nat) :
    joinGroups (group :: parts) =
      hexadecimal group ++ parts.flatMap fun group => ':' :: hexadecimal group := by
  induction parts generalizing group with
  | nil => rw [joinGroups, List.flatMap_nil, List.append_nil]
  | cons next parts ih =>
      rw [joinGroups, ih, List.flatMap_cons, List.cons_append]
      exact List.cons_ne_nil next parts

theorem readGroups_nil (first : Bool) (limit : Nat) {rest : List Char} (h : EndsGroups rest) :
    readGroups first limit rest = ⟨[], false, rest⟩ := by
  cases limit with
  | zero => rfl
  | succ limit =>
      rcases h with rfl | ⟨more, rfl⟩
      · cases first <;> cases limit <;> rfl
      · cases first <;> cases limit <;> rfl

theorem readGroups_group {first : Bool} {limit group : Nat} {text tail : List Char}
    (hgroup : group < 65536)
    (hafter : (if first then some text else skip? ':' text) = some (hexadecimal group ++ tail))
    (htail : ∀ c ∈ tail.head?, c = ':') :
    readGroups first (limit + 1) text =
      ⟨group :: (readGroups false limit tail).values, (readGroups false limit tail).embedded,
        (readGroups false limit tail).rest⟩ := by
  have hends : EndsDigits 16 tail := by
    intro c hc
    rw [htail c hc]
    rfl
  have hdotted : readDotted? (hexadecimal group ++ tail) = none := by
    have hcolon : ∀ c ∈ hexadecimal group, (c != ':') = true := fun c hc =>
      bne_iff_ne.mpr (plain_of_mem_toDigits (by decide) (by decide) hc).2.2
    have htaken : tail.takeWhile (· != ':') = [] := by
      cases tail with
      | nil => rfl
      | cons c tail => rw [htail c rfl, List.takeWhile_cons_of_neg (by simp)]
    refine readDotted?_eq_none ?_
    rw [List.takeWhile_append_of_pos hcolon, htaken, List.append_nil]
    exact not_mem_toDigits (by decide) (by decide) rfl group
  simp only [readGroups, hafter, Option.bind_some, hdotted, ite_self,
    readGroup?_hexadecimal hgroup hends]

theorem head?_groupsAfter (parts : List Nat) {rest : List Char} (hrest : EndsGroups rest) :
    ∀ c ∈ (parts.flatMap (fun group => ':' :: hexadecimal group) ++ rest).head?, c = ':' := by
  intro c hc
  cases parts with
  | nil =>
      rcases hrest with rfl | ⟨more, rfl⟩
      · exact absurd hc (by simp)
      · exact (Option.some.inj hc).symm
  | cons group parts => exact (Option.some.inj hc).symm

theorem readGroups_groupsAfter {parts : List Nat} {limit : Nat}
    (hparts : ∀ group ∈ parts, group < 65536) (hlimit : parts.length ≤ limit) {rest : List Char}
    (hrest : EndsGroups rest) :
    readGroups false limit (parts.flatMap (fun group => ':' :: hexadecimal group) ++ rest) =
      ⟨parts, false, rest⟩ := by
  induction parts generalizing limit with
  | nil => exact readGroups_nil false limit hrest
  | cons group parts ih =>
      cases limit with
      | zero => exact absurd hlimit (by simp)
      | succ limit =>
          obtain ⟨hgroup, hothers⟩ := List.forall_mem_cons.mp hparts
          rw [List.flatMap_cons, List.append_assoc,
            readGroups_group hgroup rfl (head?_groupsAfter parts hrest),
            ih hothers (Nat.le_of_succ_le_succ hlimit)]

theorem readGroups_joinGroups {parts : List Nat} {limit : Nat}
    (hparts : ∀ group ∈ parts, group < 65536) (hlimit : parts.length ≤ limit) {rest : List Char}
    (hrest : EndsGroups rest) :
    readGroups true limit (joinGroups parts ++ rest) = ⟨parts, false, rest⟩ := by
  cases parts with
  | nil => exact readGroups_nil true limit hrest
  | cons group parts =>
      cases limit with
      | zero => exact absurd hlimit (by simp)
      | succ limit =>
          obtain ⟨hgroup, hothers⟩ := List.forall_mem_cons.mp hparts
          rw [joinGroups_cons, List.append_assoc,
            readGroups_group hgroup rfl (head?_groupsAfter parts hrest),
            readGroups_groupsAfter hothers (Nat.le_of_succ_le_succ hlimit) hrest]

namespace Run

def IsZeros (run : Run) (parts : List Nat) : Prop :=
  ∃ front back, parts = front ++ List.replicate run.length 0 ++ back ∧ front.length = run.start

/-- Whether a run is the zeros, if any, that the groups end in. -/
def EndsIn (run : Run) (parts : List Nat) : Prop :=
  ∃ front, parts = front ++ List.replicate run.length 0 ∧
    (run.length ≠ 0 → front.length = run.start)

theorem IsZeros.append {run : Run} {parts : List Nat} (h : run.IsZeros parts) (more : List Nat) :
    run.IsZeros (parts ++ more) := by
  obtain ⟨front, back, rfl, hstart⟩ := h
  exact ⟨front, back ++ more, List.append_assoc _ _ _, hstart⟩

theorem EndsIn.isZeros {run : Run} {parts : List Nat} (h : run.EndsIn parts)
    (hsome : run.length ≠ 0) : run.IsZeros parts := by
  obtain ⟨front, rfl, hstart⟩ := h
  exact ⟨front, [], (List.append_nil _).symm, hstart hsome⟩

theorem EndsIn.grow {run : Run} {parts : List Nat} (h : run.EndsIn parts) :
    EndsIn ⟨if run.length = 0 then parts.length else run.start, run.length + 1⟩ (parts ++ [0]) := by
  obtain ⟨front, rfl, hstart⟩ := h
  refine ⟨front, ?_, fun _ => ?_⟩
  · rw [List.append_assoc, ← List.replicate_succ']
  · simp only
    split
    · rename_i hnone
      rw [hnone, List.replicate_zero, List.append_nil]
    · rename_i hsome
      exact hstart hsome

theorem endsIn_none (parts : List Nat) : EndsIn ⟨0, 0⟩ parts :=
  ⟨parts, (List.append_nil _).symm, fun hsome => absurd rfl hsome⟩

end Run

theorem isZeros_longestZeros {seen : List Nat} {current best : Run} (hcurrent : current.EndsIn seen)
    (hbest : best.IsZeros seen) (parts : List Nat) :
    (longestZeros seen.length current best parts).IsZeros (seen ++ parts) := by
  -- The current run ends where the text has been read to, and the best one is somewhere before.
  induction parts generalizing seen current best with
  | nil =>
      rw [List.append_nil]
      exact hbest
  | cons group parts ih =>
      have hlength : seen.length + 1 = (seen ++ [group]).length := by simp
      rw [List.append_cons, longestZeros, hlength]
      split
      · rename_i hzero
        subst hzero
        have hgrown := hcurrent.grow
        refine ih hgrown ?_
        by_cases hlonger : best.length < current.length + 1
        · rw [if_pos hlonger]
          exact hgrown.isZeros (Nat.succ_ne_zero _)
        · rw [if_neg hlonger]
          exact hbest.append [0]
      · exact ih (Run.endsIn_none _) (hbest.append [group])

theorem mem_joinGroups {parts : List Nat} {c : Char} (h : c ∈ joinGroups parts) :
    c = ':' ∨ ∃ value < 16, c = Nat.digitChar value := by
  have hdigit {group : Nat} (hc : c ∈ hexadecimal group) :
      c = ':' ∨ ∃ value < 16, c = Nat.digitChar value :=
    Or.inr (exists_of_mem_toDigits (by decide) hc)
  cases parts with
  | nil => exact absurd h List.not_mem_nil
  | cons group parts =>
      rw [joinGroups_cons] at h
      rcases List.mem_append.mp h with h | h
      · exact hdigit h
      · obtain ⟨next, -, h⟩ := List.mem_flatMap.mp h
        exact (List.mem_cons.mp h).elim Or.inl hdigit

theorem mem_compressed {parts : List Nat} {c : Char} (h : c ∈ compressed parts) :
    c = ':' ∨ ∃ value < 16, c = Nat.digitChar value := by
  rw [compressed] at h
  split at h
  · rcases List.mem_append.mp h with h | h
    · exact mem_joinGroups h
    · rcases List.mem_cons.mp h with rfl | h
      · exact Or.inl rfl
      · exact (List.mem_cons.mp h).elim Or.inl mem_joinGroups
  · exact mem_joinGroups h

theorem mem_dotted {bits : BitVec 32} {c : Char} (h : c ∈ dotted bits) :
    c = '.' ∨ ∃ value < 16, c = Nat.digitChar value := by
  have hdigit {n : Nat} (hc : c ∈ decimal n) : c = '.' ∨ ∃ value < 16, c = Nat.digitChar value := by
    obtain ⟨value, hvalue, hc⟩ := exists_of_mem_toDigits (by decide) hc
    exact Or.inr ⟨value, by omega, hc⟩
  simp only [dotted, List.mem_append, List.mem_cons, or_assoc] at h
  rcases h with h | h | h | h | h | h | h
  · exact hdigit h
  · exact Or.inl h
  · exact hdigit h
  · exact Or.inl h
  · exact hdigit h
  · exact Or.inl h
  · exact hdigit h

theorem mem_chars {ip : Ip} {c : Char} (h : c ∈ ip.chars) :
    c = '.' ∨ c = ':' ∨ ∃ value < 16, c = Nat.digitChar value := by
  cases ip with
  | v4 bits => exact (mem_dotted h).imp id Or.inr
  | v6 bits =>
      rw [chars] at h
      split at h
      · rcases List.mem_append.mp h with h | h
        · have hfront : ∀ c ∈ "::ffff:".toList, c = ':' ∨ c = 'f' := by simp
          exact Or.inr ((hfront c h).imp id fun hc => ⟨15, by decide, hc⟩)
        · exact (mem_dotted h).imp id Or.inr
      · exact Or.inr (mem_compressed h)

theorem plain_of_mem_chars {ip : Ip} {c : Char} (h : c ∈ ip.chars) :
    isBlank c = false ∧ c ≠ '/' := by
  rcases mem_chars h with rfl | rfl | ⟨value, hvalue, rfl⟩
  · decide
  · decide
  · have hsixteen : ∀ value < 16,
        isBlank (Nat.digitChar value) = false ∧ Nat.digitChar value ≠ '/' := by decide
    exact hsixteen value hvalue

theorem groups_lt (bits : BitVec 128) : ∀ group ∈ groups bits, group < 65536 := by
  intro group hgroup
  obtain ⟨k, -, rfl⟩ := List.mem_map.mp hgroup
  exact Nat.mod_lt _ (by decide)

theorem length_groups (bits : BitVec 128) : (groups bits).length = 8 :=
  rfl

theorem ofGroups_groups (bits : BitVec 128) : ofGroups (groups bits) = bits := by
  have hlt := bits.isLt
  rw [← BitVec.toNat_inj, ofGroups, BitVec.toNat_ofNat]
  simp only [groups, List.range, List.range.loop, List.map_cons, List.map_nil, List.foldl_cons,
    List.foldl_nil, Nat.shiftRight_eq_div_pow]
  omega

theorem readV6?_joinGroups {parts : List Nat} (hparts : ∀ group ∈ parts, group < 65536)
    (hlength : parts.length = 8) : readV6? (joinGroups parts) = some (ofGroups parts, []) := by
  have hread := readGroups_joinGroups hparts (Nat.le_of_eq hlength) (Or.inl rfl)
  rw [List.append_nil] at hread
  simp only [readV6?, hread, hlength, if_true]

/-- Two colons stand for as many zeros as there are groups missing, at least one. -/
theorem readV6?_colons {front back : List Nat} {zeros : Nat}
    (hfront : ∀ group ∈ front, group < 65536) (hback : ∀ group ∈ back, group < 65536)
    (hsome : 0 < zeros) (hlength : front.length + zeros + back.length = 8) :
    readV6? (joinGroups front ++ ':' :: ':' :: joinGroups back) =
      some (ofGroups (front ++ List.replicate zeros 0 ++ back), []) := by
  have hreadFront := readGroups_joinGroups hfront (show front.length ≤ 8 by omega)
    (Or.inr ⟨joinGroups back, rfl⟩)
  have hreadBack := readGroups_joinGroups hback (show back.length ≤ 7 - front.length by omega)
    (Or.inl rfl)
  rw [List.append_nil] at hreadBack
  have hmissing : 8 - front.length - back.length = zeros := by omega
  have hfull : ¬front.length = 8 := by omega
  simp [readV6?, hreadFront, hfull, skip?, hreadBack, hmissing]

theorem readV6?_compressed {parts : List Nat} (hparts : ∀ group ∈ parts, group < 65536)
    (hlength : parts.length = 8) : readV6? (compressed parts) = some (ofGroups parts, []) := by
  have hzeros : (longestZeros 0 ⟨0, 0⟩ ⟨0, 0⟩ parts).IsZeros parts :=
    isZeros_longestZeros (Run.endsIn_none []) ⟨[], [], rfl, rfl⟩ parts
  rw [compressed]
  generalize longestZeros 0 ⟨0, 0⟩ ⟨0, 0⟩ parts = zeros at hzeros ⊢
  obtain ⟨front, back, hsplit, hstart⟩ := hzeros
  split
  · rename_i hsome
    have hfront : parts.take zeros.start = front := by
      rw [hsplit, ← hstart, List.append_assoc, List.take_left]
    have hback : parts.drop (zeros.start + zeros.length) = back := by
      rw [hsplit, ← hstart]
      exact List.drop_left' (by simp)
    have hall : front.length + zeros.length + back.length = 8 := by
      rw [← hlength, hsplit, List.length_append, List.length_append, List.length_replicate]
    rw [hfront, hback, readV6?_colons ?_ ?_ (Nat.zero_lt_of_lt hsome) hall, ← hsplit]
    · intro group hgroup
      exact hparts group (hsplit ▸ List.mem_append_left _ (List.mem_append_left _ hgroup))
    · intro group hgroup
      exact hparts group (hsplit ▸ List.mem_append_right _ hgroup)
  · exact readV6?_joinGroups hparts hlength

theorem readGroups_dotted (bits : BitVec 32) (limit : Nat) :
    readGroups false (limit + 2) (':' :: dotted bits) =
      ⟨[bits.toNat / 65536, bits.toNat % 65536], true, []⟩ := by
  have hread := readDotted?_dotted bits (endsDigits_nil 10)
  rw [List.append_nil] at hread
  simp [readGroups, skip?, hread]

theorem ofGroups_mapped {bits : BitVec 128} {inner : BitVec 32} (h : mapped? bits = some inner) :
    ofGroups [0, 0, 0, 0, 0, 0xFFFF, inner.toNat / 65536, inner.toNat % 65536] = bits := by
  have hlt := bits.isLt
  rw [mapped?] at h
  split at h
  · rename_i hmapped
    obtain rfl := Option.some.inj h
    rw [Nat.shiftRight_eq_div_pow] at hmapped
    rw [← BitVec.toNat_inj, ofGroups, BitVec.toNat_ofNat, BitVec.toNat_ofNat]
    simp only [List.foldl_cons, List.foldl_nil]
    omega
  · exact absurd h (by simp)

theorem readV6?_mapped {bits : BitVec 128} {inner : BitVec 32} (h : mapped? bits = some inner) :
    readV6? ("::ffff:".toList ++ dotted inner) = some (bits, []) := by
  have hfront (more : List Char) :
      readGroups true 8 (':' :: ':' :: more) = ⟨[], false, ':' :: ':' :: more⟩ :=
    readGroups_nil true 8 (Or.inr ⟨more, rfl⟩)
  have hback : readGroups true 7 (hexadecimal 0xFFFF ++ ':' :: dotted inner) =
      ⟨[0xFFFF, inner.toNat / 65536, inner.toNat % 65536], true, []⟩ := by
    rw [readGroups_group (show 0xFFFF < 65536 by decide) rfl (by simp), readGroups_dotted]
  show readV6? (':' :: ':' :: (hexadecimal 0xFFFF ++ ':' :: dotted inner)) = _
  rw [← ofGroups_mapped h]
  simp [readV6?, hfront, hback, skip?, List.replicate]

theorem readDotted?_chars_v6 (bits : BitVec 128) : readDotted? (v6 bits).chars = none := by
  refine readDotted?_eq_none ?_
  rw [chars]
  cases mapped? bits with
  | some inner => exact List.not_mem_nil
  | none =>
      intro hdot
      rcases mem_compressed (List.takeWhile_subset _ hdot) with hcolon | ⟨value, hvalue, hdigit⟩
      · exact absurd hcolon (by decide)
      · have hsixteen : ∀ value < 16, Nat.digitChar value ≠ '.' := by decide
        exact hsixteen value hvalue hdigit.symm

/-- An address is what its text spells. -/
theorem ofChars?_chars (ip : Ip) : ofChars? ip.chars = some ip := by
  cases ip with
  | v4 bits =>
      have hread := readDotted?_dotted bits (endsDigits_nil 10)
      rw [List.append_nil] at hread
      rw [ofChars?, chars, hread]
      rfl
  | v6 bits =>
      have hread : readV6? (v6 bits).chars = some (bits, []) := by
        rw [chars]
        cases hmapped : mapped? bits with
        | some inner => exact readV6?_mapped hmapped
        | none =>
            simp only
            rw [readV6?_compressed (groups_lt bits) (length_groups bits), ofGroups_groups]
      rw [ofChars?, readDotted?_chars_v6, hread]
      rfl

end Ip

end NetState
