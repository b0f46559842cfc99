import NetState.Action.Basic
import NetState.Wire.Field
import NetState.Wire.Value

namespace NetState

/-- The parameters that all kinds of actions begin with; only the verdict matters here. -/
def actionParameters (verdict : Int32) : Bytes :=
  List.replicate 8 0 ++ Bytes.ofInt32 verdict ++ List.replicate 8 0

namespace Action

/-- The number of the slot that is used. -/
def slot : UInt16 := 1

def kindAttr : UInt16 := 1
def optionsAttr : UInt16 := 2
/-- The parameters, in the options of every kind. -/
def parametersAttr : UInt16 := 2
/-- The text, in the options of the logging kind. -/
def dataAttr : UInt16 := 3

/-- The octets that the common parameters take. -/
def parametersSize : Nat := 20

/-- The octets that the parameters of a forwarding action take. -/
def forwardSize : Nat := 28

def egressRedirect : Int32 := 1
def egressMirror : Int32 := 2
def ingressRedirect : Int32 := 3
def ingressMirror : Int32 := 4

/-- The number of a way of forwarding. -/
def forwardCode : (ingress redirect : Bool) → Int32
  | false, true => egressRedirect
  | false, false => egressMirror
  | true, true => ingressRedirect
  | true, false => ingressMirror

/-- The fields of the options of an action. -/
def optionFields : Action → List Field
  | simple data =>
    [.leaf parametersAttr (actionParameters pipeVerdict), Field.string dataAttr data]
  | gact verdict => [.leaf parametersAttr (actionParameters verdict)]
  | mirred ingress redirect interface =>
    [.leaf parametersAttr
      (actionParameters (if redirect then stolenVerdict else pipeVerdict) ++
        Bytes.ofInt32 (forwardCode ingress redirect) ++ Bytes.ofUInt32 interface)]

/-- The table with an action in its slot. -/
def tableFields (action : Action) : List Field :=
  [.nest slot [Field.string kindAttr action.kindName, .nest optionsAttr action.optionFields]]

/-- The text of the first attribute of a type, empty if there is none; nothing if it is no text. -/
def readText (kind : UInt16) (payload : Bytes) : Option String :=
  match Attribute.find? kind payload with
  | none => some ""
  | some octets => (Value.string octets).toOption

/-- The parameters in the options of an action, of at least so many octets. -/
def readParameters (size : Nat) (options : Bytes) : Option Bytes :=
  (Attribute.find? parametersAttr options).bind fun octets =>
    (octets.split? size).map fun (front, _) => front

/-- The action of a kind with the given options: nothing if it is malformed, no action if the kind
is not known. -/
def readKind (kind : String) (options : Bytes) : Option (Option Action) :=
  if kind = "simple" then (readText dataAttr options).map fun data => some (simple data)
  else if kind = "gact" then
    (readParameters parametersSize options).map fun octets => some (gact (octets.i32At 8))
  else if kind = "mirred" then
    (readParameters forwardSize options).map fun octets =>
      let code := octets.i32At 20
      some (mirred (code == ingressRedirect || code == ingressMirror)
        (code == egressRedirect || code == ingressRedirect) (octets.u32At 24))
  else some none

/-- The action in a table: nothing if it is malformed. -/
def ofTable (table : Bytes) : Option (Option Action) :=
  match Attribute.scan table with
  | [] => some none
  | first :: _ => do
    let kind ← readText kindAttr first.payload
    readKind kind ((Attribute.find? optionsAttr first.payload).getD [])

end Action

end NetState
