import NetState.Wire.Attribute

/-!
What a message carries after its header, as a tree, and the octets that stand for it.

A field takes a multiple of four octets. The length of an attribute is a 16-bit number: a leaf that
is too long for it is not written at all, and a nest that is too long is written with the length of
an empty one. Neither can be read back, so `oversized?` names the first such field, and nothing that
has one is to be sent.
-/

namespace NetState

/-- A part of a message after its header. -/
inductive Field where
  /-- Octets outside any attribute, such as a fixed structure. -/
  | raw (octets : Bytes)
  /-- An attribute with the given type field and payload. -/
  | leaf (kind : UInt16) (payload : Bytes)
  /-- An attribute whose payload is made of fields. -/
  | nest (kind : UInt16) (fields : List Field)

namespace Field

/-- The longest total length of an attribute. -/
def maxLength : Nat := 65535

/-- The header of an attribute with the given total length and type field. -/
def head (length : Nat) (kind : UInt16) : Bytes :=
  Bytes.littleEndian 2 length ++ Bytes.ofUInt16 kind

/-- The type field of a nest. -/
def nestKind (kind : UInt16) : UInt16 :=
  kind ||| Attribute.nestedMark

/-- The header of a nest around so many octets, or of an empty one if they are too many. -/
def nestHead (kind : UInt16) (content : Nat) : Bytes :=
  let length := Attribute.headerSize + content
  head (if length ≤ maxLength then length else Attribute.headerSize) (nestKind kind)

/-- A leaf with its padding, or nothing if it is too long. -/
def encodeLeaf (kind : UInt16) (payload : Bytes) : Bytes :=
  let length := Attribute.headerSize + payload.length
  if length ≤ maxLength then head length kind ++ Bytes.pad payload else []

mutual

/-- The octets of a field. -/
def encode : Field → Bytes
  | raw octets => Bytes.pad octets
  | leaf kind payload => encodeLeaf kind payload
  | nest kind fields =>
    let content := encodeAll fields
    nestHead kind content.length ++ content

/-- The octets of fields one after the other. -/
def encodeAll : List Field → Bytes
  | [] => []
  | field :: rest => encode field ++ encodeAll rest

end

mutual

/-- The number of octets of a field. -/
def size : Field → Nat
  | raw octets => Bytes.align octets.length
  | leaf _ payload =>
    let length := Attribute.headerSize + payload.length
    if length ≤ maxLength then Bytes.align length else 0
  | nest _ fields => Attribute.headerSize + sizeAll fields

/-- The number of octets of fields one after the other. -/
def sizeAll : List Field → Nat
  | [] => 0
  | field :: rest => size field + sizeAll rest

end

/-- A type field and the length of a payload, if that is more than an attribute can hold. -/
def excess? (kind : UInt16) (payload : Nat) : Option (UInt16 × Nat) :=
  if Attribute.headerSize + payload ≤ maxLength then none else some (kind, payload)

mutual

/-- The first part of a field, in the order in which they end, that is too long for an attribute. -/
def oversized? : Field → Option (UInt16 × Nat)
  | raw _ => none
  | leaf kind payload => excess? kind payload.length
  | nest kind fields => (oversizedAmong? fields).or (excess? kind (sizeAll fields))

/-- The first of several fields, or parts of them, that is too long for an attribute. -/
def oversizedAmong? : List Field → Option (UInt16 × Nat)
  | [] => none
  | field :: rest => (oversized? field).or (oversizedAmong? rest)

end

def u8 (kind : UInt16) (value : UInt8) : Field :=
  leaf kind [value]

def u16 (kind : UInt16) (value : UInt16) : Field :=
  leaf kind (Bytes.ofUInt16 value)

def u32 (kind : UInt16) (value : UInt32) : Field :=
  leaf kind (Bytes.ofUInt32 value)

def ip (kind : UInt16) (address : Ip) : Field :=
  leaf kind address.toBytes

/-- A text with a zero octet at its end. -/
def string (kind : UInt16) (text : String) : Field :=
  leaf kind (Text.Utf8.encode text ++ [0])

theorem length_head (length : Nat) (kind : UInt16) :
    (head length kind).length = Attribute.headerSize := by
  simp [head, Bytes.ofUInt16, Attribute.headerSize]

theorem length_encodeLeaf (kind : UInt16) (payload : Bytes) :
    (encodeLeaf kind payload).length = size (leaf kind payload) := by
  simp only [encodeLeaf, size]
  split
  · simp only [List.length_append, length_head, Bytes.length_pad, Bytes.align,
      Attribute.headerSize]
    omega
  · rfl

mutual

theorem length_encode (field : Field) : (encode field).length = size field := by
  match field with
  | raw octets => simp only [encode, size, Bytes.length_pad]
  | leaf kind payload => exact length_encodeLeaf kind payload
  | nest kind fields =>
    simp only [encode, size, List.length_append, nestHead, length_head, length_encodeAll fields]

theorem length_encodeAll (fields : List Field) : (encodeAll fields).length = sizeAll fields := by
  match fields with
  | [] => rfl
  | field :: rest =>
    simp only [encodeAll, sizeAll, List.length_append, length_encode field, length_encodeAll rest]

end

end Field

end NetState
