import NetState.Discipline.Basic
import NetState.Verb
import NetState.Wire.Field
import NetState.Wire.Value

namespace NetState

/-- The fixed part of a traffic control message. -/
structure TrafficHead where
  family : UInt8
  interface : UInt32
  handle : Handle
  parent : Handle
  /-- For filters: the priority above the protocol, whose octets are in network order. -/
  info : UInt32
  deriving DecidableEq, Repr

namespace TrafficHead

def size : Nat := 20

def zero : TrafficHead := ⟨0, 0, Handle.unspecified, Handle.unspecified, 0⟩

def toBytes (head : TrafficHead) : Bytes :=
  [head.family, 0, 0, 0] ++ Bytes.ofUInt32 head.interface ++ Bytes.ofUInt32 head.handle.raw ++
    Bytes.ofUInt32 head.parent.raw ++ Bytes.ofUInt32 head.info

def read (bytes : Bytes) : TrafficHead where
  family := bytes.u8At 0
  interface := bytes.u32At 4
  handle := ⟨bytes.u32At 8⟩
  parent := ⟨bytes.u32At 12⟩
  info := bytes.u32At 16

/-- The attribute with the name of the kind. -/
def kindAttr : UInt16 := 1
/-- The attribute with what is particular to the kind. -/
def optionsAttr : UInt16 := 2

/-- The name of the kind and the options that attributes tell, the last of each. -/
def readAttribute (seen : String × Option Bytes) (attr : Attribute) :
    Option (String × Option Bytes) :=
  if attr.kind = kindAttr then
    (Value.string attr.payload).toOption.map fun kind => (kind, seen.2)
  else if attr.kind = optionsAttr then some (seen.1, some attr.payload)
  else some seen

/-- The fixed part, the name of the kind and the options of a traffic control message. -/
def ofPayload? (payload : Bytes) : Option (TrafficHead × String × Option Bytes) := do
  let (octets, rest) ← payload.split? size
  let told ← (← Attribute.readAll? rest).foldlM readAttribute ("", none)
  return (read octets, told)

end TrafficHead

namespace FairQueue

def targetAttr : UInt16 := 1
def limitAttr : UInt16 := 2
def intervalAttr : UInt16 := 3
def ecnAttr : UInt16 := 4
def flowsAttr : UInt16 := 5
def quantumAttr : UInt16 := 6
def ceThresholdAttr : UInt16 := 7
def dropBatchAttr : UInt16 := 8
def memoryLimitAttr : UInt16 := 9

/-- The parameters that are set, each as a word. -/
def fields (params : FairQueue) : List Field :=
  let word (kind : UInt16) (value : Option UInt32) : List Field :=
    value.toList.map (Field.u32 kind)
  word targetAttr params.target ++ word limitAttr params.limit ++
    word intervalAttr params.interval ++
    word ecnAttr (params.ecn.map fun ecn => if ecn then 1 else 0) ++
    word flowsAttr params.flows ++ word quantumAttr params.quantum ++
    word ceThresholdAttr params.ceThreshold ++ word dropBatchAttr params.dropBatch ++
    word memoryLimitAttr params.memoryLimit

/-- The parameters with what one attribute tells. Every attribute must hold a word, also one of a
type that is not known. -/
def readAttribute (params : FairQueue) (attr : Attribute) : Option FairQueue :=
  (Value.u32 attr.payload).toOption.map fun value =>
    if attr.kind = targetAttr then { params with target := some value }
    else if attr.kind = limitAttr then { params with limit := some value }
    else if attr.kind = intervalAttr then { params with interval := some value }
    else if attr.kind = ecnAttr then { params with ecn := some (value != 0) }
    else if attr.kind = flowsAttr then { params with flows := some value }
    else if attr.kind = quantumAttr then { params with quantum := some value }
    else if attr.kind = ceThresholdAttr then { params with ceThreshold := some value }
    else if attr.kind = dropBatchAttr then { params with dropBatch := some value }
    else if attr.kind = memoryLimitAttr then { params with memoryLimit := some value }
    else params

def ofPayload? (payload : Bytes) : Option FairQueue :=
  (Attribute.scan payload).foldlM readAttribute unset

end FairQueue

namespace Discipline

def requestFields (discipline : Discipline) (verb : Verb) : List Field :=
  let head : TrafficHead := ⟨0, discipline.interface, discipline.handle, discipline.parent, 0⟩
  let identity :=
    [.raw head.toBytes, Field.string TrafficHead.kindAttr discipline.kind]
  if verb = .delete then identity
  else identity ++ match discipline.options with
    | .none => []
    | .fairQueue params => [.nest TrafficHead.optionsAttr params.fields]
    | .raw octets => [.leaf TrafficHead.optionsAttr octets]

/-- The options that a payload tells for a kind. -/
def readOptions (kind : String) (payload : Option Bytes) : Option DisciplineOptions :=
  match payload with
  | none => some .none
  | some octets =>
    if plainKinds.contains kind then some .none
    else if kind = fairQueueKind then (FairQueue.ofPayload? octets).map .fairQueue
    else if octets.isEmpty then some .none
    else some (.raw octets)

/-- The discipline that a payload tells of, if it has the form of a traffic control message. -/
def ofPayload? (payload : Bytes) : Option Discipline := do
  let (head, kind, octets) ← TrafficHead.ofPayload? payload
  let options ← readOptions kind octets
  return {
    interface := head.interface
    kind
    handle := head.handle
    parent := head.parent
    options
  }

end Discipline

end NetState
