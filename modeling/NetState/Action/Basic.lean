import NetState.Fault

namespace NetState

/-- What a filter does with a packet. -/
inductive Action where
  /-- Logs a text and goes on. -/
  | simple (data : String)
  /-- Gives a fixed verdict. -/
  | gact (verdict : Int32)
  /-- Sends the packet, or a copy of it, through a link in one direction. -/
  | mirred (ingress redirect : Bool) (interface : UInt32)
  deriving DecidableEq, Repr

namespace Action

def passVerdict : Int32 := 0
def reclassifyVerdict : Int32 := 1
def dropVerdict : Int32 := 2
def pipeVerdict : Int32 := 3
def stolenVerdict : Int32 := 4

/-- Sends outgoing packets through a link instead. -/
def redirect (interface : UInt32) : Action :=
  mirred false true interface

/-- The name of the kind, as the kernel has it. -/
def kindName : Action → String
  | simple _ => "simple"
  | gact _ => "gact"
  | mirred _ _ _ => "mirred"

/-- The name of a verdict that has one. -/
def verdictName? (verdict : Int32) : Option String :=
  if verdict = passVerdict then some "pass"
  else if verdict = dropVerdict then some "drop"
  else if verdict = pipeVerdict then some "pipe"
  else if verdict = reclassifyVerdict then some "reclassify"
  else if verdict = stolenVerdict then some "stolen"
  else none

def chars : Action → List Char
  | simple data => "simple sdata ".toList ++ data.toList
  | gact verdict =>
    match verdictName? verdict with
    | some name => name.toList
    | none => "gact ".toList ++ Text.signed verdict.toInt
  | mirred ingress redirect interface =>
    "mirred ".toList ++ (if ingress then "ingress" else "egress").toList ++ ' ' ::
      (if redirect then "redirect" else "mirror").toList ++ " dev ".toList ++
        Text.decimal interface.toNat

def text (action : Action) : String :=
  String.ofList action.chars

/-- Whether a word tells the incoming direction rather than the outgoing one. -/
def readDirection? (word : List Char) : Option Bool :=
  if word = "ingress".toList then some true
  else if word = "egress".toList then some false
  else none

/-- Whether a word tells that packets are moved rather than copied. -/
def readMode? (word : List Char) : Option Bool :=
  if word = "redirect".toList then some true
  else if word = "mirror".toList then some false
  else none

/-- The action that words tell, other than one that logs. -/
def ofWords? : List (List Char) → Option Action
  | [word] =>
    if word = "drop".toList then some (gact dropVerdict)
    else if word = "pass".toList ∨ word = "ok".toList then some (gact passVerdict)
    else if word = "pipe".toList then some (gact pipeVerdict)
    else none
  | [name, direction, mode, mark, interface] =>
    if name = "mirred".toList ∧ mark = "dev".toList then do
      let ingress ← readDirection? direction
      let redirect ← readMode? mode
      let interface ← Text.numeralUInt32? interface
      return mirred ingress redirect interface
    else none
  | _ => none

/-- The action that a text tells. Any text that starts with the name of the logging action must tell
that one, with data between the blanks around it. -/
def ofChars? (text : List Char) : Option Action :=
  let text := Text.trim text
  match Text.stripFront? "simple".toList text with
  | none => ofWords? (Text.words text)
  | some rest =>
    (Text.stripFront? "sdata".toList (Text.trimStart rest)).bind fun rest =>
      let data := Text.trim rest
      if data.isEmpty then none else some (simple (String.ofList data))

def ofText (text : String) : Except Fault Action :=
  match ofChars? text.toList with
  | some action => .ok action
  | none => .error (.invalidArgument (.actionText text))

end Action

end NetState
