import NetState.Fault

namespace NetState

/-- The place of a queueing discipline, a class or a filter in the traffic control tree. -/
structure Handle where
  raw : UInt32
  deriving DecidableEq, Repr

namespace Handle

def unspecified : Handle := ⟨0⟩

/-- The attach point at the root of an interface. -/
def root : Handle := ⟨0xFFFFFFFF⟩

/-- The attach point on the ingress side of an interface, also for disciplines that hook both
sides. -/
def ingress : Handle := ⟨0xFFFFFFF1⟩

/-- The major number kept for the ingress side. -/
def ingressMajor : UInt16 := 0xFFFF

def ofParts (major minor : UInt16) : Handle :=
  ⟨(major.toUInt32 <<< 16) ||| minor.toUInt32⟩

/-- The discipline at the ingress attach point. -/
def ingressDiscipline : Handle := ofParts ingressMajor 0

/-- The hook for incoming packets of a discipline that hooks both sides. -/
def ingressHook : Handle := ofParts ingressMajor 0xFFF2

/-- The hook for outgoing packets of a discipline that hooks both sides. -/
def egressHook : Handle := ofParts ingressMajor 0xFFF3

def major (handle : Handle) : UInt16 :=
  (handle.raw >>> 16).toUInt16

def minor (handle : Handle) : UInt16 :=
  handle.raw.toUInt16

/-- The discipline that a handle belongs to: the same major, no minor. -/
def discipline (handle : Handle) : Handle :=
  ⟨handle.raw &&& 0xFFFF0000⟩

def isRoot (handle : Handle) : Bool :=
  handle == root

def isUnspecified (handle : Handle) : Bool :=
  handle == unspecified

/-- What a handle stands for. -/
inductive Role where
  | unspecified
  | root
  | ingress
  /-- An object under the major number kept for the ingress side. -/
  | ingressSide (minor : UInt16)
  | regular (major minor : UInt16)
  deriving DecidableEq, Repr

def role (handle : Handle) : Role :=
  if handle = Handle.unspecified then .unspecified
  else if handle = Handle.root then .root
  else if handle = Handle.ingress then .ingress
  else if handle.major = ingressMajor then .ingressSide handle.minor
  else .regular handle.major handle.minor

def chars (handle : Handle) : List Char :=
  match handle.role with
  | .root => "root".toList
  | .ingress => "ingress".toList
  | .unspecified => "none".toList
  | _ =>
    let front := Text.hexadecimal handle.major.toNat ++ [':']
    if handle.minor = 0 then front else front ++ Text.hexadecimal handle.minor.toNat

def text (handle : Handle) : String :=
  String.ofList handle.chars

/-- A 16-bit number in hexadecimal. -/
def part? (text : List Char) : Option UInt16 :=
  (Text.numeral? 16 UInt16.size text).map UInt16.ofNat

/-- The handle a text names. The minor number and the colon may be missing. -/
def ofChars? (text : List Char) : Option Handle :=
  if text = "root".toList then some root
  else if text = "ingress".toList then some ingress
  else if text = "clsact".toList then some ingress
  else if text = "none".toList then some unspecified
  else
    let (majorText, minorText) := (Text.splitOnce? ':' text).getD (text, [])
    (part? majorText).bind fun major =>
      if minorText.isEmpty then some (ofParts major 0)
      else (part? minorText).map (ofParts major)

/-- The handle a text names, or the fault that tells it names none. -/
def ofText (text : String) : Except Fault Handle :=
  match ofChars? text.toList with
  | some handle => .ok handle
  | none => .error (.invalidArgument (.handleText text))

end Handle

end NetState
