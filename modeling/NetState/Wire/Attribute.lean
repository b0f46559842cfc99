import NetState.Fault

/-!
Attributes: the typed, counted fields that follow the fixed part of a message.

An attribute is a header of four octets, its total length and its type, then its payload and zeros
up to a multiple of four, which the last attribute may lack. Two upper bits of the type are marks
and not part of it. There are two ways to read a run of attributes. `scan` yields attributes until
it meets something that is none, and ignores the rest. `readAll?` refuses a run that holds something
that is none; fewer than four octets at the end are taken as padding by both.
-/

namespace NetState

/-- An attribute, its type without the marks. -/
structure Attribute where
  kind : UInt16
  payload : Bytes
  deriving DecidableEq, Repr

namespace Attribute

/-- The octets in the header of an attribute. -/
def headerSize : Nat := 4

/-- The mark of an attribute whose payload is a run of attributes. -/
def nestedMark : UInt16 := 0x8000

/-- The type in a type field, without the marks. -/
def unmarked (field : UInt16) : UInt16 :=
  field &&& 0x3FFF

/-- The header of an attribute: its total length and its type field. -/
structure Head where
  length : UInt16
  field : UInt16
  deriving DecidableEq, Repr

namespace Head

def read (bytes : Bytes) : Head :=
  ⟨bytes.u16At 0, bytes.u16At 2⟩

def ofBytes (bytes : Bytes) : Except Fault Head :=
  if bytes.atLeast headerSize then .ok (read bytes)
  else .error (.truncated headerSize bytes.length)

/-- The type without the marks. -/
def kind (head : Head) : UInt16 :=
  unmarked head.field

end Head

/-- The attributes at the start of a string, up to the first thing that is none. -/
def scan (bytes : Bytes) : List Attribute :=
  if _hfour : bytes.atLeast headerSize then
    let head := Head.read bytes
    if _hlength : headerSize ≤ head.length.toNat ∧ bytes.atLeast head.length.toNat then
      ⟨head.kind, (bytes.take head.length.toNat).drop headerSize⟩ ::
        scan (bytes.drop (Bytes.align head.length.toNat))
    else []
  else []
termination_by bytes.length
decreasing_by
  have hsize : headerSize ≤ bytes.length := Bytes.atLeast_iff.mp _hfour
  have hshort : headerSize ≤ (Head.read bytes).length.toNat := _hlength.1
  have halign := Bytes.le_align (Head.read bytes).length.toNat
  simp only [headerSize] at hsize hshort
  simp only [List.length_drop]
  omega

/-- The payload of the first attribute of a type among those that `scan` yields. -/
def find? (kind : UInt16) (bytes : Bytes) : Option Bytes :=
  ((scan bytes).find? (·.kind == kind)).map (·.payload)

/-- The attribute at the start of a string, and what follows it and its padding. -/
def read? (bytes : Bytes) : Option (Attribute × Bytes) :=
  (bytes.split? headerSize).bind fun (head, rest) =>
    let length := (head.u16At 0).toNat
    if length < headerSize then none
    else (rest.split? (length - headerSize)).map fun (payload, rest) =>
      (⟨unmarked (head.u16At 2), payload⟩, rest.drop (Bytes.align length - length))

theorem length_of_read? {bytes rest : Bytes} {first : Attribute}
    (h : read? bytes = some (first, rest)) : rest.length < bytes.length := by
  simp only [read?, Option.bind_eq_some_iff] at h
  obtain ⟨⟨head, after⟩, hhead, h⟩ := h
  obtain ⟨hsize, rfl⟩ := Bytes.split?_eq_some_iff.mp hhead
  simp only at h
  split at h
  · simp at h
  · simp only [Option.map_eq_some_iff, Prod.mk.injEq] at h
    obtain ⟨⟨payload, tail⟩, htail, -, rfl⟩ := h
    obtain ⟨-, rfl⟩ := Bytes.split?_eq_some_iff.mp htail
    simp only [headerSize] at hsize
    simp only [List.length_drop, List.length_append]
    omega

/-- All attributes of a string, or none if it holds something else before its last few octets. -/
def readAll? (bytes : Bytes) : Option (List Attribute) :=
  if bytes.atLeast headerSize then
    match _h : read? bytes with
    | none => none
    | some (first, rest) => (readAll? rest).map (first :: ·)
  else some []
termination_by bytes.length
decreasing_by exact length_of_read? ‹_›

end Attribute

end NetState
