import NetState.Config
import NetState.Proofs.Span

namespace NetState

namespace Config

variable {attempt : UInt32}

theorem backoffFactor_eq_min (attempt : UInt32) :
    backoffFactor attempt = min (2 ^ (attempt.toNat - 1)) 4294967295 := by
  rw [backoffFactor]
  split
  case isTrue hfew =>
    have hpower : 2 ^ (attempt.toNat - 1) ≤ 2 ^ 31 := Nat.pow_le_pow_right (by decide) (by omega)
    rw [Nat.one_shiftLeft]
    omega
  case isFalse hmany =>
    have hpower : 2 ^ 32 ≤ 2 ^ (attempt.toNat - 1) := Nat.pow_le_pow_right (by decide) (by omega)
    omega

theorem backoffFactor_of_le (h : attempt ≤ 32) :
    backoffFactor attempt = 2 ^ (attempt.toNat - 1) := by
  have hattempt : attempt.toNat ≤ 32 := UInt32.le_iff_toNat_le.mp h
  rw [backoffFactor, if_pos (by omega), Nat.one_shiftLeft]

theorem backoffFactor_of_lt (h : 32 < attempt) : backoffFactor attempt = 4294967295 := by
  have hattempt : 32 < attempt.toNat := UInt32.lt_iff_toNat_lt.mp h
  rw [backoffFactor, if_neg (by omega)]

theorem backoffFactor_le_backoffFactor {m n : UInt32} (h : m ≤ n) :
    backoffFactor m ≤ backoffFactor n := by
  have hpower : 2 ^ (m.toNat - 1) ≤ 2 ^ (n.toNat - 1) :=
    Nat.pow_le_pow_right (by decide) (Nat.sub_le_sub_right (UInt32.le_iff_toNat_le.mp h) 1)
  rw [backoffFactor_eq_min, backoffFactor_eq_min]
  omega

theorem one_le_backoffFactor (attempt : UInt32) : 1 ≤ backoffFactor attempt := by
  have hpower : 1 ≤ 2 ^ (attempt.toNat - 1) := Nat.one_le_two_pow
  rw [backoffFactor_eq_min]
  omega

/-- How often the first delay is doubled; none before the first repetition. -/
def doublings (attempt : UInt32) : UInt32 :=
  if attempt = 0 then 0 else attempt - 1

/-- The factor in a word of 32 bits, which shifts by its width as if by nothing. -/
def factorWord (attempt : UInt32) : UInt32 :=
  if doublings attempt < 32 then 1 <<< doublings attempt else 4294967295

theorem toNat_doublings (attempt : UInt32) : (doublings attempt).toNat = attempt.toNat - 1 := by
  rw [doublings]
  split
  case isTrue hzero =>
    rw [hzero]
    rfl
  case isFalse hzero =>
    have hone : 1 ≤ attempt := by
      rw [UInt32.le_iff_toNat_le]
      exact Nat.one_le_iff_ne_zero.mpr fun h => hzero (UInt32.toNat_inj.mp h)
    exact UInt32.toNat_sub_of_le attempt 1 hone

theorem toNat_factorWord (attempt : UInt32) :
    (factorWord attempt).toNat = backoffFactor attempt := by
  have hdoublings := toNat_doublings attempt
  have hlimit : doublings attempt < 32 ↔ attempt.toNat - 1 < 32 := by
    rw [UInt32.lt_iff_toNat_lt, hdoublings]
    rfl
  rw [factorWord, backoffFactor]
  by_cases hfew : attempt.toNat - 1 < 32
  · have hfits : 2 ^ (attempt.toNat - 1) < 2 ^ 32 := Nat.pow_lt_pow_right (by decide) hfew
    rw [if_pos (hlimit.mpr hfew), if_pos hfew, UInt32.toNat_shiftLeft, hdoublings,
      Nat.mod_eq_of_lt hfew]
    change 1 <<< (attempt.toNat - 1) % 2 ^ 32 = _
    rw [Nat.one_shiftLeft, Nat.mod_eq_of_lt hfits]
  · rw [if_neg (hlimit.not.mpr hfew), if_neg hfew]
    rfl

theorem nanos_backoffFor (config : Config) (attempt : UInt32) :
    (config.backoffFor attempt).nanos =
      min (config.retryBackoff.nanos * backoffFactor attempt) Span.longest.nanos :=
  config.retryBackoff.nanos_times (backoffFactor attempt)

theorem backoffFor_eq_toSpan (config : Config) (attempt : UInt32) :
    config.backoffFor attempt =
      ((Span.Words.ofSpan config.retryBackoff).times (factorWord attempt)).toSpan := by
  rw [Span.Words.toSpan_times, Span.Words.toSpan_ofSpan, toNat_factorWord]
  rfl

/-- No delay is shorter than the first one or than one before it; a delay is that first one doubled
as often as repetitions went before, or the longest span; beyond the thirty-second repetition it is
the greatest multiple that a word of 32 bits tells; and words compute the same. -/
theorem backoffFor_grows (config : Config) {m n : UInt32} (h : m ≤ n) :
    config.backoffFor m ≤ config.backoffFor n ∧
      config.retryBackoff ≤ config.backoffFor n ∧
      (1 ≤ n → n ≤ 32 → (config.backoffFor n).nanos =
        min (config.retryBackoff.nanos * 2 ^ (n.toNat - 1)) Span.longest.nanos) ∧
      (32 < n → (config.backoffFor n).nanos =
        min (config.retryBackoff.nanos * 4294967295) Span.longest.nanos) ∧
      config.backoffFor n =
        ((Span.Words.ofSpan config.retryBackoff).times (factorWord n)).toSpan := by
  refine ⟨?_, ?_, ?_, ?_, config.backoffFor_eq_toSpan n⟩
  · exact config.retryBackoff.times_le_times (backoffFactor_le_backoffFactor h)
  · exact config.retryBackoff.le_times (one_le_backoffFactor n)
  · intro _ hdoubles
    rw [nanos_backoffFor, backoffFactor_of_le hdoubles]
  · intro hbeyond
    rw [nanos_backoffFor, backoffFactor_of_lt hbeyond]

/-- A configuration with which the delay comes to the longest span at the thirty-second repetition,
for the seconds run over by one. -/
def lingering : Config :=
  { standard with retryBackoff := .ofSeconds 8589934592 }

theorem backoffFor_grows_lingering :
    (31 : UInt32) ≤ 32 ∧ lingering.backoffFor 31 = .ofSeconds 9223372036854775808 ∧
      lingering.backoffFor 32 = Span.longest ∧
      lingering.backoffFor 31 ≤ lingering.backoffFor 32 ∧
      lingering.retryBackoff ≤ lingering.backoffFor 32 ∧
      (lingering.backoffFor 32).nanos =
        min (lingering.retryBackoff.nanos * 2 ^ 31) Span.longest.nanos ∧
      lingering.backoffFor 32 =
        ((Span.Words.ofSpan lingering.retryBackoff).times (factorWord 32)).toSpan := by
  have hle : (31 : UInt32) ≤ 32 := by decide
  obtain ⟨hgrows, hfirst, hdoubled, -, hwords⟩ := lingering.backoffFor_grows hle
  exact ⟨hle, by decide +kernel, by decide +kernel, hgrows, hfirst,
    hdoubled (by decide) (by decide), hwords⟩

end Config

end NetState
