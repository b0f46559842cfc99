import NetState.Object.Basic

namespace NetState

section

variable {width : Nat} {a b : BitVec width}

theorem Ip.getMsbD_keep (bits : BitVec width) (length place : Nat) :
    (keep bits length).getMsbD place = (decide (place < length) && bits.getMsbD place) := by
  by_cases hplace : place < width
  · have hcovered : place + (width - min length width) < width ↔ place < length := by omega
    simp only [keep, BitVec.getMsbD_and, BitVec.getMsbD_shiftLeft, BitVec.getMsbD_allOnes, hcovered,
      Bool.and_comm]
  · simp only [BitVec.getMsbD_of_ge _ _ (Nat.not_lt.mp hplace), Bool.and_false]

theorem Ip.keep_eq_keep_iff {length : Nat} : keep a length = keep b length ↔
    ∀ place < min length width, a.getMsbD place = b.getMsbD place := by
  constructor
  · intro h place hplace
    have hbit := congrArg (·.getMsbD place) h
    simpa [getMsbD_keep, (Nat.lt_min.mp hplace).1] using hbit
  · intro h
    refine BitVec.eq_of_getMsbD_eq fun place hplace => ?_
    rw [getMsbD_keep, getMsbD_keep]
    by_cases hcovered : place < length
    · rw [h place (Nat.lt_min.mpr ⟨hcovered, hplace⟩)]
    · simp [hcovered]

theorem Ip.keep_keep (bits : BitVec width) (first second : Nat) :
    keep (keep bits first) second = keep bits (min first second) := by
  refine BitVec.eq_of_getMsbD_eq fun place _ => ?_
  have hcovered : place < min first second ↔ place < second ∧ place < first := by omega
  simp only [getMsbD_keep, hcovered, Bool.decide_and, Bool.and_assoc]

end

namespace Ip

/-- A bit of an address, counted from the first one. -/
def bit (address : Ip) (place : Nat) : Bool :=
  match address with
  | v4 bits => bits.getMsbD place
  | v6 bits => bits.getMsbD place

/-- Two addresses have a prefix in common: they are of one version and agree in their first `length`
bits, or in all if there are fewer. -/
def SharePrefix (length : UInt8) (a b : Ip) : Prop :=
  a.isV6 = b.isV6 ∧ ∀ place < min length.toNat a.width, a.bit place = b.bit place

theorem mask_eq_mask_iff {a b : Ip} {length : UInt8} :
    a.mask length = b.mask length ↔ SharePrefix length a b := by
  cases a <;> cases b
  case v4.v4 =>
    simp only [mask, v4.injEq, keep_eq_keep_iff, SharePrefix, isV6, width, bit, true_and]
  case v6.v6 =>
    simp only [mask, v6.injEq, keep_eq_keep_iff, SharePrefix, isV6, width, bit, true_and]
  all_goals simp [mask, SharePrefix, isV6]

theorem mask_mask_min (address : Ip) (first second : UInt8) :
    (address.mask first).mask second = address.mask (min first second) := by
  have hlength : (min first second).toNat = min first.toNat second.toNat := by
    change (if first ≤ second then first else second).toNat = _
    split <;> rename_i hle <;> rw [UInt8.le_iff_toNat_le] at hle <;> omega
  cases address <;> simp only [mask, keep_keep, hlength]

end Ip

theorem Route.key_eq_key_iff {r s : Route} :
    (Object.route r).key = (Object.route s).key ↔
      r.table = s.table ∧ r.tos = s.tos ∧ r.length = s.length ∧
        r.effectiveMetric = s.effectiveMetric ∧
          Ip.SharePrefix r.length r.destination s.destination := by
  simp only [Object.key, Key.route.injEq]
  constructor
  · rintro ⟨htable, htos, hmasked, hlength, hmetric⟩
    rw [← hlength] at hmasked
    exact ⟨htable, htos, hlength, hmetric, Ip.mask_eq_mask_iff.mp hmasked⟩
  · rintro ⟨htable, htos, hlength, hmetric, hshared⟩
    rw [← hlength]
    exact ⟨htable, htos, Ip.mask_eq_mask_iff.mpr hshared, rfl, hmetric⟩

/-- Two addresses are alike up to a prefix just when they share it, the shorter of two prefixes
counts, and routes are told apart by what their prefixes cover together with table, type of service,
length and the metric that the kernel uses. -/
theorem Route.prefix_identity :
    (∀ (a b : Ip) (length : UInt8), a.mask length = b.mask length ↔ Ip.SharePrefix length a b) ∧
      (∀ (address : Ip) (first second : UInt8),
        (address.mask first).mask second = address.mask (min first second)) ∧
      ∀ r s : Route, (Object.route r).key = (Object.route s).key ↔
        r.table = s.table ∧ r.tos = s.tos ∧ r.length = s.length ∧
          r.effectiveMetric = s.effectiveMetric ∧
            Ip.SharePrefix r.length r.destination s.destination := by
  constructor
  · intro a b length
    exact Ip.mask_eq_mask_iff
  constructor
  · exact Ip.mask_mask_min
  · intro r s
    exact Route.key_eq_key_iff

end NetState
