import NetState.Wire.Attribute

namespace NetState.Value

/-- The first `count` octets of a payload. -/
def front (count : Nat) (what : String) (payload : Bytes) : Except Fault Bytes :=
  match payload.split? count with
  | some (octets, _) => .ok octets
  | none => .error (.invalidAttribute (.attributeTruncated what))

def u8 : Bytes → Except Fault UInt8
  | [] => .error (.invalidAttribute .emptyOctet)
  | octet :: _ => .ok octet

def u16 (payload : Bytes) : Except Fault UInt16 :=
  (front 2 "u16" payload).map (·.u16At 0)

def u32 (payload : Bytes) : Except Fault UInt32 :=
  (front 4 "u32" payload).map (·.u32At 0)

def i32 (payload : Bytes) : Except Fault Int32 :=
  (front 4 "i32" payload).map (·.i32At 0)

/-- The text up to the first zero octet, or all of the payload if there is none. -/
def string (payload : Bytes) : Except Fault String :=
  match Text.Utf8.decode (payload.takeWhile (· != 0)) with
  | .ok text => .ok text
  | .error flaw => .error (.invalidAttribute (.attributeText flaw))

/-- An address, whose width follows from its family. -/
def ip (family : UInt8) (payload : Bytes) : Except Fault Ip :=
  if family = Ip.inet then
    (front 4 "IPv4 address" payload).map fun octets => .v4 (BitVec.ofNat 32 octets.ofBigEndian)
  else if family = Ip.inet6 then
    (front 16 "IPv6 address" payload).map fun octets => .v6 (BitVec.ofNat 128 octets.ofBigEndian)
  else .error (.invalidAttribute (.addressFamily family))

end NetState.Value
