import NetState.Wire.Header
import NetState.Wire.Value

namespace NetState

/-- An answer to a request. -/
structure Report where
  /-- Zero if the request was carried out, else the negated error number. -/
  code : Int32
  /-- The header of the request. -/
  request : Header
  deriving DecidableEq, Repr

namespace Report

/-- The octets in an answer before its attributes. -/
def size : Nat := 20

/-- The attribute with the kernel's own words. -/
def wordsKind : UInt16 := 1

def ofBytes (payload : Bytes) : Except Fault Report :=
  if payload.atLeast size then .ok ⟨payload.i32At 0, Header.read (payload.drop 4)⟩
  else .error (.truncated size payload.length)

def isAck (report : Report) : Bool :=
  report.code == 0

/-- The attributes after an answer. -/
def attributes (payload : Bytes) : List Attribute :=
  Attribute.scan (payload.drop size)

/-- The kernel's own words, if there are any that can be read. -/
def words? (payload : Bytes) : Option String :=
  (Attribute.find? wordsKind (payload.drop size)).bind fun words =>
    (Value.string words).toOption.filter (· ≠ "")

/-- The fault that an answer reports; the payload is the one that the answer was read from. -/
def fault (report : Report) (payload : Bytes) : Except Failure Fault :=
  (negated report.code).map fun errno => .kernel errno (words? payload)

end Report

end NetState
