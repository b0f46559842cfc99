import NetState.Bytes
import NetState.Errno
import NetState.Text.Utf8

namespace NetState

/-- What stands at a path. -/
inductive FileEntry where
  | file (octets : Bytes)
  | directory
  deriving DecidableEq, Repr

/-- Why a path leads nowhere. -/
inductive PathFlaw where
  /-- It holds a zero character, which no path can. -/
  | zeroInside
  /-- It, or a name in it, is longer than any can be. -/
  | tooLong
  /-- It goes on behind something that is no directory. -/
  | notDirectory
  /-- It holds a name that is not there. -/
  | missing
  deriving DecidableEq, Repr

def PathFlaw.message : PathFlaw → String
  | zeroInside => "file name contained an unexpected NUL byte"
  | tooLong => Errno.report Errno.nameTooLong
  | notDirectory => Errno.report Errno.notDirectory
  | missing => Errno.report Errno.noEntry

/-- Files and directories by the names on the way to them. Directories on the way to an entry need
not be entries themselves. -/
structure Files where
  entries : List (List String × FileEntry)
  /-- Whether the directory is the root of a system, so that nothing stands above it. -/
  isRoot : Bool

/-- A path: whether it starts anew at the top, and its names. -/
structure Path where
  absolute : Bool
  names : List String
  deriving DecidableEq, Repr

namespace Path

/-- The most octets of a name. -/
def maxName : Nat := 255

/-- The most octets of a path. -/
def maxLength : Nat := 4095

/-- The names of a path text. -/
def ofText (text : String) : Path where
  absolute := text.toList.head? == some '/'
  names := (text.split (· == '/')).toStringList

/-- A path text after another: in its place if it starts anew, else behind it and a slash. -/
def join (base name : String) : String :=
  if name.toList.head? == some '/' then name
  else if base.isEmpty || base.toList.getLast? == some '/' then base ++ name
  else base ++ "/" ++ name

end Path

namespace Files

/-- No files at all. -/
def nothing : Files := ⟨[], false⟩

/-- What stands at the given names, if anything does. -/
def at? (files : Files) (names : List String) : Option FileEntry :=
  if names.isEmpty then some .directory
  else match files.entries.find? (·.1 == names) with
    | some (_, entry) => some entry
    | none =>
      if files.entries.any fun entry => names.isPrefixOf entry.1 then some .directory else none

/-- The names that a path leads to from `place`, if every step starts in a directory. -/
def walk (files : Files) (place : List String) : List String → Except PathFlaw (List String)
  | [] => .ok place
  | name :: rest =>
    match files.at? place with
    | none => .error .missing
    | some (.file _) => .error .notDirectory
    | some .directory =>
      if name = "" ∨ name = "." then walk files place rest
      else if name = ".." then
        if place.isEmpty && !files.isRoot then .error .missing
        else walk files place.dropLast rest
      else if Path.maxName < name.utf8ByteSize then .error .tooLong
      else walk files (place ++ [name]) rest

/-- What a path leads to from `place`. -/
def find (files : Files) (place : List String) (text : String) : Except PathFlaw FileEntry := do
  let path := Path.ofText text
  if text.toList.contains '\x00' then throw .zeroInside
  if Path.maxLength < text.utf8ByteSize then throw .tooLong
  if text.isEmpty || path.absolute && !files.isRoot then throw .missing
  let found ← files.walk (if path.absolute then [] else place) path.names
  match files.at? found with
  | some entry => return entry
  | none => throw .missing

/-- The text of the file at a path, if there is one and it is text. -/
def read? (files : Files) (path : String) : Option String :=
  match files.find [] path with
  | .ok (.file octets) => (Text.Utf8.decode octets).toOption
  | _ => none

/-- The names in the directory at the given names; none if it is no directory. -/
def list (files : Files) (place : List String) : List String :=
  if files.at? place = some .directory then
    files.entries.filterMap fun entry =>
      if place.isPrefixOf entry.1 then (entry.1.drop place.length).head? else none
  else []

end Files

end NetState
