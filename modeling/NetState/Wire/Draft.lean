import NetState.Wire.Field
import NetState.Wire.Header

namespace NetState

/-- A message to be sent. -/
structure Draft where
  kind : UInt16
  flags : UInt16
  seq : UInt32
  pid : UInt32
  fields : List Field

namespace Draft

def new (kind flags : UInt16) (fields : List Field) : Draft :=
  ⟨kind, flags, 0, 0, fields⟩

def addFlags (draft : Draft) (flags : UInt16) : Draft :=
  { draft with flags := draft.flags ||| flags }

/-- The draft as the request numbered `seq` of the socket `pid`. -/
def addressed (draft : Draft) (seq pid : UInt32) : Draft :=
  { draft with seq, pid }

/-- Refuses a draft with a field that is too long for an attribute. -/
def check (draft : Draft) : Except Fault Unit :=
  match Field.oversizedAmong? draft.fields with
  | some (kind, octets) => .error (.invalidArgument (.attributeTooLong kind octets))
  | none => .ok ()

/-- What follows the header. -/
def body (draft : Draft) : Bytes :=
  Field.encodeAll draft.fields

def header (draft : Draft) : Header where
  length := UInt32.ofNat (Header.size + draft.body.length)
  kind := draft.kind
  flags := draft.flags
  seq := draft.seq
  pid := draft.pid

def toBytes (draft : Draft) : Bytes :=
  draft.header.toBytes ++ draft.body

end Draft

/-- Fields in the making: those already complete, and the nests still open around the next one. -/
structure Outline where
  /-- Complete fields inside the innermost open nest, last first. -/
  recent : List Field
  /-- The open nests, innermost first: the type of each, and the fields before it, last first. -/
  openNests : List (UInt16 × List Field)

namespace Outline

def empty : Outline := ⟨[], []⟩

def append (outline : Outline) (field : Field) : Outline :=
  { outline with recent := field :: outline.recent }

def openNest (outline : Outline) (kind : UInt16) : Outline :=
  ⟨[], (kind, outline.recent) :: outline.openNests⟩

/-- Ends the innermost open nest, if there is one. -/
def closeNest (outline : Outline) : Outline :=
  match outline.openNests with
  | [] => outline
  | (kind, before) :: outer => ⟨.nest kind outline.recent.reverse :: before, outer⟩

/-- All fields in order. A nest left open is only its header, with the length of an empty one, and
what was written after it follows that. -/
def fields (outline : Outline) : List Field :=
  outline.openNests.foldl (fun after (kind, before) =>
    before.reverse ++ .raw (Field.nestHead kind 0) :: after) outline.recent.reverse

end Outline

end NetState
