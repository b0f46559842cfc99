import NetState.Address.Basic
import NetState.Verb
import NetState.Wire.Field
import NetState.Wire.Value

namespace NetState

/-- The fixed part of an address message. -/
structure AddressHead where
  family : UInt8
  length : UInt8
  flags : UInt8
  scope : UInt8
  interface : UInt32
  deriving DecidableEq, Repr

namespace AddressHead

def size : Nat := 8

def zero : AddressHead := ⟨0, 0, 0, 0, 0⟩

def toBytes (head : AddressHead) : Bytes :=
  [head.family, head.length, head.flags, head.scope] ++ Bytes.ofUInt32 head.interface

def read (bytes : Bytes) : AddressHead where
  family := bytes.u8At 0
  length := bytes.u8At 1
  flags := bytes.u8At 2
  scope := bytes.u8At 3
  interface := bytes.u32At 4

end AddressHead

namespace Address

/-- The address, or that of the other end. -/
def ipAttr : UInt16 := 1
/-- The link's own address. -/
def localAttr : UInt16 := 2
def labelAttr : UInt16 := 3
def lifetimeAttr : UInt16 := 6
def flagsAttr : UInt16 := 8

/-- The octets of the lifetimes: preferred, valid, and two times that only the kernel knows. -/
def lifetimeBytes (address : Address) : Bytes :=
  Bytes.ofUInt32 address.preferredFor ++ Bytes.ofUInt32 address.validFor ++ List.replicate 8 0

/-- The octets that lifetimes take. -/
def lifetimeSize : Nat := 16

def requestFields (address : Address) (verb : Verb) : Except Fault (List Field) := do
  let head : AddressHead :=
    ⟨address.ip.family, address.length, address.flags.toUInt8, address.scope.getD 0,
      address.interface⟩
  let own := if address.ip.isV6 then [] else [Field.ip localAttr address.ip]
  let identity := .raw head.toBytes :: own ++ [Field.ip ipAttr address.ip]
  if verb = .delete then return identity
  if address.label.isSome && address.ip.isV6 then throw (.invalidArgument .labelNotV4)
  let label := address.label.toList.map (Field.string labelAttr)
  let flags := if 0xFF < address.flags then [Field.u32 flagsAttr address.flags] else []
  let lifetime :=
    if address.validFor = forever ∧ address.preferredFor = forever then []
    else [.leaf lifetimeAttr address.lifetimeBytes]
  return identity ++ label ++ flags ++ lifetime

/-- What has been read of an address message. -/
structure Partial where
  own : Option Ip
  other : Option Ip
  label : Option String
  flags : UInt32
  validFor : UInt32
  preferredFor : UInt32
  deriving DecidableEq, Repr

/-- What has been read of an address message of a family after one more attribute. -/
def readAttribute (family : UInt8) (seen : Partial) (attr : Attribute) : Option Partial :=
  if attr.kind = localAttr then
    (Value.ip family attr.payload).toOption.map fun ip => { seen with own := some ip }
  else if attr.kind = ipAttr then
    (Value.ip family attr.payload).toOption.map fun ip => { seen with other := some ip }
  else if attr.kind = labelAttr then
    (Value.string attr.payload).toOption.map fun label => { seen with label := some label }
  else if attr.kind = flagsAttr then
    (Value.u32 attr.payload).toOption.map fun flags => { seen with flags }
  else if attr.kind = lifetimeAttr then
    (attr.payload.split? lifetimeSize).map fun (octets, _) =>
      { seen with preferredFor := octets.u32At 0, validFor := octets.u32At 4 }
  else some seen

/-- The address that a payload tells of, if it has the form of an address message. -/
def ofPayload? (payload : Bytes) : Option Address := do
  let (octets, rest) ← payload.split? AddressHead.size
  let head := AddressHead.read octets
  let start : Partial := ⟨none, none, none, head.flags.toUInt32, forever, forever⟩
  let seen ← (← Attribute.readAll? rest).foldlM (readAttribute head.family) start
  let ip ← seen.own.or seen.other
  return {
    interface := head.interface
    ip
    length := head.length
    label := seen.label
    flags := seen.flags
    scope := some head.scope
    validFor := seen.validFor
    preferredFor := seen.preferredFor
  }

end Address

end NetState
