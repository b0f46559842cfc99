import NetState.Handle

namespace NetState.Handle

theorem toNat_major (handle : Handle) : handle.major.toNat = handle.raw.toNat / 65536 := by
  have hraw := handle.raw.toNat_lt
  rw [major, UInt32.toNat_toUInt16, UInt32.toNat_shiftRight]
  change handle.raw.toNat >>> 16 % 2 ^ 16 = _
  rw [Nat.shiftRight_eq_div_pow]
  omega

theorem toNat_minor (handle : Handle) : handle.minor.toNat = handle.raw.toNat % 65536 :=
  UInt32.toNat_toUInt16 handle.raw

theorem toNat_ofParts (major minor : UInt16) :
    (ofParts major minor).raw.toNat = major.toNat * 65536 + minor.toNat := by
  have hmajor := major.toNat_lt
  have hminor := minor.toNat_lt
  have hfits : major.toNat <<< 16 < 2 ^ 32 := by
    rw [Nat.shiftLeft_eq]
    omega
  rw [ofParts, UInt32.toNat_or, UInt32.toNat_shiftLeft, UInt16.toNat_toUInt32,
    UInt16.toNat_toUInt32]
  change major.toNat <<< 16 % 2 ^ 32 ||| minor.toNat = _
  rw [Nat.mod_eq_of_lt hfits, ← Nat.shiftLeft_add_eq_or_of_lt hminor, Nat.shiftLeft_eq]

theorem ofParts_major_minor (handle : Handle) : ofParts handle.major handle.minor = handle := by
  have hsame : (ofParts handle.major handle.minor).raw = handle.raw := by
    rw [← UInt32.toNat_inj, toNat_ofParts, toNat_major, toNat_minor]
    omega
  exact congrArg Handle.mk hsame

theorem major_ofParts (major minor : UInt16) : (ofParts major minor).major = major := by
  have hminor := minor.toNat_lt
  rw [← UInt16.toNat_inj, toNat_major, toNat_ofParts]
  omega

theorem minor_ofParts (major minor : UInt16) : (ofParts major minor).minor = minor := by
  have hminor := minor.toNat_lt
  rw [← UInt16.toNat_inj, toNat_minor, toNat_ofParts]
  omega

end NetState.Handle
