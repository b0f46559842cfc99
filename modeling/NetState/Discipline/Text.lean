import NetState.Discipline.Basic

namespace NetState.Discipline

def chars (discipline : Discipline) : List Char :=
  let device :=
    if discipline.interface = 0 then []
    else "dev ".toList ++ Text.decimal discipline.interface.toNat ++ [' ']
  let place :=
    if discipline.parent.isRoot then "root ".toList
    else "parent ".toList ++ discipline.parent.chars ++ [' ']
  let handle :=
    if discipline.handle.isUnspecified then []
    else "handle ".toList ++ discipline.handle.chars ++ [' ']
  device ++ place ++ handle ++ discipline.kind.toList

def text (discipline : Discipline) : String :=
  String.ofList discipline.chars

/-- The discipline told so far together with the words still to come; `whole` is the text that they
are from. -/
def readWords (whole : String) (told : Discipline) : List (List Char) → Except Fault Discipline
  | [] => .ok told
  | word :: rest =>
    let fail (flaw : DisciplineTextFlaw) : Except Fault Discipline :=
      .error (.invalidArgument (.disciplineText whole flaw))
    if word = "root".toList then readWords whole { told with parent := Handle.root } rest
    else if word = "ingress".toList ∧ told.parent.isUnspecified then
      readWords whole
        { told with
          parent := Handle.ingress, handle := Handle.ingressDiscipline, kind := ingressKind } rest
    else if word = "parent".toList then
      match rest with
      | [] => fail .missingValue
      | value :: rest => do
        let parent ← Handle.ofText (String.ofList value)
        readWords whole { told with parent } rest
    else if word = "handle".toList then
      match rest with
      | [] => fail .missingValue
      | value :: rest => do
        let handle ← Handle.ofText (String.ofList value)
        readWords whole { told with handle } rest
    else if word = "dev".toList then
      match rest with
      | [] => fail .missingValue
      | value :: rest =>
        match Text.numeralUInt32? value with
        | none => fail .badInterface
        | some interface => readWords whole { told with interface } rest
    else if told.kind = "" then readWords whole { told with kind := String.ofList word } rest
    else fail .trailingInput

/-- The discipline that a text tells. It must tell a kind and a place. -/
def ofText (text : String) : Except Fault Discipline := do
  let told ← readWords text (new 0 "" Handle.unspecified Handle.unspecified)
    (Text.words text.toList)
  if told.kind = "" then throw (.invalidArgument (.disciplineText text .missingKind))
  if told.parent.isUnspecified then
    throw (.invalidArgument (.disciplineText text .missingParent))
  return told

end NetState.Discipline
