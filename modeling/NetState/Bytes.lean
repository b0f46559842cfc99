

namespace NetState

/-- A string of octets. -/
abbrev Bytes := List UInt8

namespace Bytes

/-- How many numbers `width` octets can tell apart. -/
def limit : (width : Nat) → Nat
  | 0 => 1
  | width + 1 => 256 * limit width

/-- The `width` low octets of `n`, least significant first. -/
def littleEndian : (width n : Nat) → Bytes
  | 0, _ => []
  | width + 1, n => UInt8.ofNat n :: littleEndian width (n / 256)

/-- The number whose octets, least significant first, are the given ones. -/
def ofLittleEndian : Bytes → Nat
  | [] => 0
  | octet :: rest => octet.toNat + 256 * ofLittleEndian rest

/-- The `width` low octets of `n`, most significant first. -/
def bigEndian (width n : Nat) : Bytes :=
  (littleEndian width n).reverse

/-- The number whose octets, most significant first, are the given ones. -/
def ofBigEndian (bytes : Bytes) : Nat :=
  ofLittleEndian bytes.reverse

def ofUInt16 (value : UInt16) : Bytes :=
  littleEndian 2 value.toNat

def ofUInt32 (value : UInt32) : Bytes :=
  littleEndian 4 value.toNat

def ofInt32 (value : Int32) : Bytes :=
  ofUInt32 value.toUInt32

/-- The first `count` octets and what follows them, if there are that many. -/
def split? (count : Nat) (bytes : Bytes) : Option (Bytes × Bytes) :=
  let front := bytes.take count
  if front.length = count then some (front, bytes.drop count) else none

/-- Whether there are `count` octets or more. -/
def atLeast (count : Nat) (bytes : Bytes) : Bool :=
  (bytes.take count).length == count

/-- The octet at `offset`; absent octets read as zero. -/
def u8At (bytes : Bytes) (offset : Nat) : UInt8 :=
  bytes.getD offset 0

/-- The 16-bit word at `offset`; absent octets read as zero. -/
def u16At (bytes : Bytes) (offset : Nat) : UInt16 :=
  UInt16.ofNat (ofLittleEndian ((bytes.drop offset).take 2))

/-- The 32-bit word at `offset`; absent octets read as zero. -/
def u32At (bytes : Bytes) (offset : Nat) : UInt32 :=
  UInt32.ofNat (ofLittleEndian ((bytes.drop offset).take 4))

/-- The 32-bit word at `offset` as a signed number. -/
def i32At (bytes : Bytes) (offset : Nat) : Int32 :=
  (u32At bytes offset).toInt32

/-- The least multiple of four that is not below `length`. -/
def align (length : Nat) : Nat :=
  (length + 3) / 4 * 4

/-- Zero octets fill a string up to a multiple of four. -/
def pad (bytes : Bytes) : Bytes :=
  bytes ++ List.replicate (align bytes.length - bytes.length) 0

@[simp] theorem length_littleEndian (width n : Nat) : (littleEndian width n).length = width := by
  induction width generalizing n with
  | zero => rfl
  | succ width ih => simp [littleEndian, ih]

theorem ofLittleEndian_littleEndian (width n : Nat) :
    ofLittleEndian (littleEndian width n) = n % limit width := by
  induction width generalizing n with
  | zero => simp [littleEndian, ofLittleEndian, limit, Nat.mod_one]
  | succ width ih =>
    rw [littleEndian, ofLittleEndian, ih, limit, Nat.mod_mul]
    simp

theorem atLeast_iff {count : Nat} {bytes : Bytes} : atLeast count bytes ↔ count ≤ bytes.length := by
  simp only [atLeast, List.length_take, beq_iff_eq]
  omega

theorem split?_append (front rest : Bytes) :
    split? front.length (front ++ rest) = some (front, rest) := by
  simp [split?]

theorem split?_eq_some_iff {count : Nat} {bytes front rest : Bytes} :
    split? count bytes = some (front, rest) ↔ front.length = count ∧ front ++ rest = bytes := by
  constructor
  · intro h
    simp only [split?] at h
    split at h
    · rename_i hlength
      obtain ⟨rfl, rfl⟩ := Prod.mk.inj (Option.some.inj h)
      exact ⟨hlength, List.take_append_drop _ _⟩
    · simp at h
  · rintro ⟨rfl, rfl⟩
    exact split?_append front rest

theorem le_align (length : Nat) : length ≤ align length := by
  simp only [align]
  omega

theorem length_pad (bytes : Bytes) : (pad bytes).length = align bytes.length := by
  have := le_align bytes.length
  simp only [pad, List.length_append, List.length_replicate]
  omega

end Bytes

end NetState
