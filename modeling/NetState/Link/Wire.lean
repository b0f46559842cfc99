import NetState.Link.Basic
import NetState.Verb
import NetState.Wire.Field
import NetState.Wire.Value

namespace NetState

/-- The fixed part of a link message. -/
structure LinkHead where
  family : UInt8
  hardwareType : UInt16
  index : UInt32
  flags : UInt32
  /-- Which flags are to change. -/
  change : UInt32
  deriving DecidableEq, Repr

namespace LinkHead

def size : Nat := 16

def zero : LinkHead := ⟨0, 0, 0, 0, 0⟩

def toBytes (head : LinkHead) : Bytes :=
  [head.family, 0] ++ Bytes.ofUInt16 head.hardwareType ++ Bytes.ofUInt32 head.index ++
    Bytes.ofUInt32 head.flags ++ Bytes.ofUInt32 head.change

def read (bytes : Bytes) : LinkHead where
  family := bytes.u8At 0
  hardwareType := bytes.u16At 2
  index := bytes.u32At 4
  flags := bytes.u32At 8
  change := bytes.u32At 12

end LinkHead

namespace Link

def nameAttr : UInt16 := 3
def mtuAttr : UInt16 := 4
def lowerAttr : UInt16 := 5
def stateAttr : UInt16 := 16
/-- The nest with what is particular to a kind. -/
def infoAttr : UInt16 := 18
/-- In that nest: the kernel's name of the kind. -/
def infoKindAttr : UInt16 := 1
/-- In that nest: the data of the kind, itself a nest. -/
def infoDataAttr : UInt16 := 2
def vlanIdAttr : UInt16 := 1
def peerAttr : UInt16 := 1

/-- The field of an optional word. -/
def optionalWord (kind : UInt16) (value : Option UInt32) : List Field :=
  value.toList.map (Field.u32 kind)

/-- The data of a kind: the number of a tagged link, the name of the other end of a pair. -/
def infoData (link : Link) : Except Fault (List Field) :=
  match link.kind with
  | .vlan =>
    match link.vlanId with
    | some id => .ok [.nest infoDataAttr [Field.u16 vlanIdAttr id]]
    | none => .error (.invalidArgument (.vlanWithoutId link.name))
  | .veth =>
    .ok (link.peer.toList.map fun peer =>
      .nest infoDataAttr
        [.nest peerAttr [.raw LinkHead.zero.toBytes, Field.string nameAttr peer]])
  | _ => .ok []

/-- What is particular to the kind of a link, for the kinds that the kernel has a name for. -/
def info (link : Link) : Except Fault (List Field) :=
  match link.kind.kernelName? with
  | none => .ok []
  | some kernelName => do
    let data ← link.infoData
    return [.nest infoAttr (Field.string infoKindAttr kernelName :: data)]

/-- The fields of a request. Only the administrative state of the flags can be asked for, and what a
link is made of only while it is created. -/
def requestFields (link : Link) (verb : Verb) : Except Fault (List Field) := do
  let head : LinkHead :=
    if verb = .delete then ⟨0, 0, link.index, 0, 0⟩
    else ⟨0, 0, link.index, link.flags &&& upFlag, upFlag⟩
  let name := if link.name = "" then [] else [Field.string nameAttr link.name]
  if verb = .delete then return .raw head.toBytes :: name
  let settings := .raw head.toBytes :: name ++ optionalWord mtuAttr link.mtu
  if verb = .create then
    if !link.kind.isCreatable then throw (.notSupported (.linkKindFixed link.kind.text))
    let info ← link.info
    return settings ++ optionalWord lowerAttr link.lower ++ info
  return settings

/-- The fields of a message from the kernel, which tells all of a link. -/
def kernelFields (link : Link) : Except Fault (List Field) := do
  let head : LinkHead := ⟨0, link.kind.hardwareType, link.index, link.flags, 0⟩
  let info ← link.info
  return .raw head.toBytes :: Field.string nameAttr link.name :: optionalWord mtuAttr link.mtu ++
    optionalWord lowerAttr link.lower ++ Field.u8 stateAttr link.state.number :: info

/-- The kind that the attributes inside the information nest tell, starting from `kind`, and the
data of the kind. -/
def readInfoAttribute (seen : LinkKind × Option Bytes) (attr : Attribute) :
    Option (LinkKind × Option Bytes) :=
  if attr.kind = infoKindAttr then
    (Value.string attr.payload).toOption.map fun name =>
      let told := LinkKind.ofKernelName name
      (if told = .unknown then seen.1 else told, seen.2)
  else if attr.kind = infoDataAttr then some (seen.1, some attr.payload)
  else some seen

def readVlanAttribute (link : Link) (attr : Attribute) : Option Link :=
  if attr.kind = vlanIdAttr then
    (Value.u16 attr.payload).toOption.map fun id => { link with vlanId := some id }
  else some link

/-- The link with what an information nest tells of it. -/
def readInfo (link : Link) (payload : Bytes) : Option Link := do
  let attrs ← Attribute.readAll? payload
  let (kind, data) ← attrs.foldlM readInfoAttribute (link.kind, none)
  let link := { link with kind }
  match kind, data with
  | .vlan, some data => (← Attribute.readAll? data).foldlM readVlanAttribute link
  | _, _ => return link

/-- The link with what one attribute tells of it. -/
def readAttribute (link : Link) (attr : Attribute) : Option Link :=
  if attr.kind = nameAttr then
    (Value.string attr.payload).toOption.map fun name => { link with name }
  else if attr.kind = mtuAttr then
    (Value.u32 attr.payload).toOption.map fun mtu => { link with mtu := some mtu }
  else if attr.kind = lowerAttr then
    (Value.u32 attr.payload).toOption.map fun lower => { link with lower := some lower }
  else if attr.kind = stateAttr then
    (Value.u8 attr.payload).toOption.map fun number =>
      { link with state := .ofNumber number }
  else if attr.kind = infoAttr then link.readInfo attr.payload
  else some link

/-- The link that a payload tells of, if it has the form of a link message. -/
def ofPayload? (payload : Bytes) : Option Link := do
  let (octets, rest) ← payload.split? LinkHead.size
  let head := LinkHead.read octets
  let start : Link :=
    { new "" (.ofHardwareType head.hardwareType) with index := head.index, flags := head.flags }
  let link ← (← Attribute.readAll? rest).foldlM readAttribute start
  if head.hardwareType = LinkKind.bareType ∧ link.kind = .unknown then
    return { link with kind := .tun }
  return link

end Link

end NetState
