import Mathlib.Algebra.Group.Nat.Defs
import Mathlib.Data.Nat.Basic
import Mathlib.Order.Lattice
import NetState.Span

namespace NetState

namespace Span

variable {s t : Span}

theorem eq_of_nanos (h : s.nanos = t.nanos) : s = t := by
  cases s
  cases t
  cases h
  rfl

/-- The shorter span is the lesser one. -/
instance : LinearOrder Span :=
  .lift' nanos fun _ _ => eq_of_nanos

theorem le_iff_nanos : s ≤ t ↔ s.nanos ≤ t.nanos :=
  Iff.rfl

theorem le_iff_seconds :
    s ≤ t ↔ s.seconds < t.seconds ∨ s.seconds = t.seconds ∧ s.subsecond ≤ t.subsecond := by
  rw [le_iff_nanos, seconds, seconds, subsecond, subsecond]
  omega

theorem le_longest (span : Span) : span ≤ longest :=
  Nat.le_sub_one_of_lt span.nanos_lt

theorem nanos_times (span : Span) (count : Nat) :
    (span.times count).nanos = min (span.nanos * count) longest.nanos :=
  nanos_ofNanos (span.nanos * count)

theorem times_one (span : Span) : span.times 1 = span := by
  apply eq_of_nanos
  rw [nanos_times, Nat.mul_one]
  exact Nat.min_eq_left span.le_longest

theorem times_le_times (span : Span) {few many : Nat} (h : few ≤ many) :
    span.times few ≤ span.times many := by
  have hproducts : span.nanos * few ≤ span.nanos * many := Nat.mul_le_mul_left span.nanos h
  rw [le_iff_nanos, nanos_times, nanos_times]
  omega

theorem le_times (span : Span) {count : Nat} (h : 1 ≤ count) : span ≤ span.times count :=
  calc span = span.times 1 := span.times_one.symm
    _ ≤ span.times count := span.times_le_times h

/-- A length of time in two words, as a clock keeps it. -/
structure Words where
  seconds : UInt64
  /-- The nanoseconds past the last whole second. -/
  subsecond : UInt32
  subsecond_lt : subsecond.toNat < 1000000000
  deriving DecidableEq, Repr

namespace Words

/-- The word that a computation comes to, if it holds the value that is due. -/
def checked (value : Nat) (word : UInt64) : Option UInt64 :=
  if value < 2 ^ 64 then some word else none

theorem checked_eq_some_iff {value : Nat} {word other : UInt64}
    (hword : word.toNat = value % 2 ^ 64) :
    checked value word = some other ↔ value = other.toNat := by
  have hother := other.toNat_lt
  rw [checked]
  split
  case isTrue hfits => rw [Option.some.injEq, ← UInt64.toNat_inj, hword, Nat.mod_eq_of_lt hfits]
  case isFalse hover =>
    refine iff_of_false (by simp) fun h => hover ?_
    omega

def product? (a b : UInt64) : Option UInt64 :=
  checked (a.toNat * b.toNat) (a * b)

def sum? (a b : UInt64) : Option UInt64 :=
  checked (a.toNat + b.toNat) (a + b)

theorem product?_eq_some_iff {a b c : UInt64} :
    product? a b = some c ↔ a.toNat * b.toNat = c.toNat :=
  checked_eq_some_iff (UInt64.toNat_mul a b)

theorem sum?_eq_some_iff {a b c : UInt64} : sum? a b = some c ↔ a.toNat + b.toNat = c.toNat :=
  checked_eq_some_iff (UInt64.toNat_add a b)

variable (words : Words) (count : UInt32)

/-- The nanoseconds of a multiple that come from those past the last second. -/
def fine : UInt64 :=
  words.subsecond.toUInt64 * count.toUInt64

/-- The seconds of a multiple, with those that `fine` makes up, if a word holds them. -/
def seconds? : Option UInt64 :=
  (product? words.seconds count.toUInt64).bind (sum? · (words.fine count / 1000000000))

theorem toNat_fine : (words.fine count).toNat = words.subsecond.toNat * count.toNat := by
  have hfits : words.subsecond.toNat * count.toNat < 2 ^ 64 :=
    calc words.subsecond.toNat * count.toNat < 2 ^ 32 * 2 ^ 32 :=
          Nat.mul_lt_mul'' words.subsecond.toNat_lt count.toNat_lt
      _ = 2 ^ 64 := rfl
  rw [fine, UInt64.toNat_mul, UInt32.toNat_toUInt64, UInt32.toNat_toUInt64, Nat.mod_eq_of_lt hfits]

theorem toNat_fine_mod :
    (words.fine count % 1000000000).toUInt32.toNat =
      words.subsecond.toNat * count.toNat % 1000000000 := by
  rw [UInt64.toNat_toUInt32, UInt64.toNat_mod, toNat_fine]
  change _ % 1000000000 % 2 ^ 32 = _
  omega

def longest : Words := ⟨18446744073709551615, 999999999, by decide⟩

/-- A multiple, computed in words; the longest one if the seconds run over. -/
def times : Words :=
  match words.seconds? count with
  | some seconds =>
    { seconds
      subsecond := (words.fine count % 1000000000).toUInt32
      subsecond_lt := by
        rw [toNat_fine_mod]
        exact Nat.mod_lt _ (by decide) }
  | none => longest

def toSpan : Span where
  nanos := words.seconds.toNat * 1000000000 + words.subsecond.toNat
  nanos_lt := by
    have hseconds := words.seconds.toNat_lt
    have hsubsecond := words.subsecond_lt
    omega

theorem toSpan_longest : longest.toSpan = Span.longest :=
  eq_of_nanos rfl

theorem seconds?_eq_some_iff {words : Words} {count : UInt32} {seconds : UInt64} :
    words.seconds? count = some seconds ↔
      words.seconds.toNat * count.toNat + words.subsecond.toNat * count.toNat / 1000000000 =
        seconds.toNat := by
  have hcarry : (words.fine count / 1000000000).toNat =
      words.subsecond.toNat * count.toNat / 1000000000 := by
    rw [UInt64.toNat_div, toNat_fine]
    rfl
  simp only [seconds?, Option.bind_eq_some_iff, product?_eq_some_iff, sum?_eq_some_iff, hcarry,
    UInt32.toNat_toUInt64]
  constructor
  · rintro ⟨product, hproduct, hsum⟩
    rw [hproduct, hsum]
  · intro hsum
    have hseconds := seconds.toNat_lt_size
    have hproduct : (UInt64.ofNat (words.seconds.toNat * count.toNat)).toNat =
        words.seconds.toNat * count.toNat := UInt64.toNat_ofNat_of_lt' (by omega)
    exact ⟨_, hproduct.symm, hproduct.symm ▸ hsum⟩

theorem seconds?_eq_none {words : Words} {count : UInt32} (h : words.seconds? count = none) :
    2 ^ 64 ≤ words.seconds.toNat * count.toNat +
      words.subsecond.toNat * count.toNat / 1000000000 := by
  by_contra hfits
  have hsome := seconds?_eq_some_iff.mpr
    (UInt64.toNat_ofNat_of_lt' (Nat.lt_of_not_le hfits)).symm
  rw [h] at hsome
  cases hsome

/-- Multiplication in words is that of the numbers, cut off at the longest span. -/
theorem toSpan_times : (words.times count).toSpan = words.toSpan.times count.toNat := by
  apply eq_of_nanos
  have hsplit : words.toSpan.nanos * count.toNat =
      words.seconds.toNat * count.toNat * 1000000000 + words.subsecond.toNat * count.toNat := by
    rw [toSpan, Nat.add_mul, Nat.mul_right_comm]
  have hlongest : Span.longest.nanos = 2 ^ 64 * 1000000000 - 1 := rfl
  rw [nanos_times, hsplit, hlongest, times]
  split
  case h_1 seconds hseconds =>
    have hexact := seconds?_eq_some_iff.mp hseconds
    have hfits := seconds.toNat_lt
    simp only [toSpan, toNat_fine_mod]
    omega
  case h_2 hseconds =>
    have hover := seconds?_eq_none hseconds
    rw [toSpan_longest, hlongest]
    omega

def ofSpan (span : Span) : Words where
  seconds := .ofNat span.seconds
  subsecond := .ofNat span.subsecond
  subsecond_lt := by
    rw [UInt32.toNat_ofNat', Span.subsecond]
    omega

theorem toSpan_ofSpan (span : Span) : (ofSpan span).toSpan = span := by
  apply eq_of_nanos
  have hnanos := span.nanos_lt
  simp only [toSpan, ofSpan, UInt64.toNat_ofNat', UInt32.toNat_ofNat', Span.seconds,
    Span.subsecond]
  omega

end Words

end Span

end NetState
