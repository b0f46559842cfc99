import NetState.Bytes

namespace NetState

/-- An internet address. -/
inductive Ip where
  | v4 (bits : BitVec 32)
  | v6 (bits : BitVec 128)
  deriving DecidableEq, Repr

namespace Ip

/-- The address family number of version 4. -/
def inet : UInt8 := 2

/-- The address family number of version 6. -/
def inet6 : UInt8 := 10

def isV6 : Ip → Bool
  | v4 _ => false
  | v6 _ => true

/-- The number of bits in an address of this version. -/
def width : Ip → Nat
  | v4 _ => 32
  | v6 _ => 128

/-- The address family number. -/
def family : Ip → UInt8
  | v4 _ => inet
  | v6 _ => inet6

/-- The longest prefix an address of this version has. -/
def maxPrefix (address : Ip) : UInt8 :=
  UInt8.ofNat address.width

def toBytes : Ip → Bytes
  | v4 bits => Bytes.bigEndian 4 bits.toNat
  | v6 bits => Bytes.bigEndian 16 bits.toNat

/-- The all-zero address of a family; families other than version 6 take that of version 4. -/
def unspecified (family : UInt8) : Ip :=
  if family = inet6 then v6 0 else v4 0

/-- The first `length` bits of a word, the others cleared. -/
def keep {width : Nat} (bits : BitVec width) (length : Nat) : BitVec width :=
  bits &&& (BitVec.allOnes width <<< (width - min length width))

/-- The address with all bits past the first `length` cleared. -/
def mask (address : Ip) (length : UInt8) : Ip :=
  match address with
  | v4 bits => v4 (keep bits length.toNat)
  | v6 bits => v6 (keep bits length.toNat)

/-- Addresses are ordered by version and then by value. -/
def code : Ip → List Nat
  | v4 bits => [4, bits.toNat]
  | v6 bits => [6, bits.toNat]

theorem code_injective {a b : Ip} (h : a.code = b.code) : a = b := by
  cases a <;> cases b <;> simp_all [code, BitVec.toNat_inj]

end Ip

end NetState
