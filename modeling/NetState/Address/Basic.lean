import NetState.Fault

namespace NetState

/-- An address of a link, or what is wanted of one. -/
structure Address where
  /-- The link it belongs to. -/
  interface : UInt32
  ip : Ip
  /-- The length of the prefix that is on the link. -/
  length : UInt8
  /-- A name for the address, in version 4 only. -/
  label : Option String
  flags : UInt32
  scope : Option UInt8
  /-- For how many seconds it stays valid. -/
  validFor : UInt32
  /-- For how many seconds it is used for new connections. -/
  preferredFor : UInt32
  deriving DecidableEq, Repr

namespace Address

/-- The lifetime of what lasts. -/
def forever : UInt32 := 0xFFFFFFFF

def secondaryFlag : UInt32 := 0x01
def dadFailedFlag : UInt32 := 0x08
def deprecatedFlag : UInt32 := 0x20
def tentativeFlag : UInt32 := 0x40
def permanentFlag : UInt32 := 0x80

/-- The flags by which the kernel tells a state rather than what was asked for. -/
def stateFlags : UInt32 :=
  secondaryFlag ||| tentativeFlag ||| deprecatedFlag ||| dadFailedFlag ||| permanentFlag

/-- An address that lasts, unless the prefix length is more than the address has bits. -/
def new (interface : UInt32) (ip : Ip) (length : UInt8) : Except Fault Address :=
  if ip.maxPrefix < length then .error (.invalidArgument (.prefixLength length ip))
  else .ok {
    interface, ip, length
    label := none
    flags := 0
    scope := none
    validFor := forever
    preferredFor := forever
  }

/-- The address that a text tells, with a prefix length after a slash or that of a host; blanks
around either part do not matter. -/
def ofText (interface : UInt32) (text : String) : Except Fault Address := do
  let (ipText, lengthText) := match Text.splitOnce? '/' text.toList with
    | some (ipText, lengthText) => (ipText, some lengthText)
    | none => (text.toList, none)
  let some ip := Ip.ofChars? (Text.trim ipText)
    | throw (.invalidArgument (.addressText text))
  let length ← match lengthText with
    | none => pure ip.maxPrefix
    | some lengthText =>
      match Text.numeralUInt8? (Text.trim lengthText) with
      | some length => pure length
      | none => throw (.invalidArgument (.prefixLengthText text))
  new interface ip length

/-- The address with lifetimes in seconds; it is not preferred for longer than it is valid. -/
def withLifetime (address : Address) (valid preferred : UInt32) : Address :=
  { address with validFor := valid, preferredFor := min preferred valid }

/-- The flags that were asked for. -/
def askedFlags (flags : UInt32) : UInt32 :=
  flags &&& ~~~stateFlags

/-- Whether what `wanted` sets is so. Lifetimes run down, so one that lasts at least as long as
wanted will do. -/
def satisfies (address wanted : Address) : Bool :=
  askedFlags address.flags == askedFlags wanted.flags &&
    wanted.label.all (fun label => address.label == some label) &&
    wanted.scope.all (fun scope => address.scope == some scope) &&
    wanted.validFor ≤ address.validFor && wanted.preferredFor ≤ address.preferredFor

/-- The octets that the kernel keeps of a label, its end mark included. -/
def labelLimit : Nat := 16

def validate (address : Address) : Except Fault Unit :=
  if address.interface = 0 then .error (.invalidArgument (.addressWithoutInterface address.ip))
  else match address.label with
    | none => .ok ()
    | some label =>
      if address.ip.isV6 then .error (.invalidArgument .labelNotV4)
      else if labelLimit ≤ Text.Utf8.length label then
        .error (.invalidArgument (.labelTooLong label))
      else .ok ()

end Address

end NetState
