import NetState.Files
import NetState.Text.Blank

namespace NetState

/-- The modules of a kernel. -/
structure Modules where
  /-- The names that are known, with underscores for hyphens, in any order. -/
  names : List String
  /-- Whether listings have been read, so that what is not named is not there. -/
  complete : Bool

namespace Modules

def unknown : Modules := ⟨[], false⟩

/-- The spelling of a module name that names are compared in. -/
def spelling (name : String) : String :=
  String.ofList (name.toList.map fun c => if c = '-' then '_' else c)

/-- The modules with one more name; an empty one adds nothing. -/
def insert (modules : Modules) (name : String) : Modules :=
  if name = "" then modules else { modules with names := spelling name :: modules.names }

def has (modules : Modules) (name : String) : Bool :=
  !modules.complete || modules.names.contains (spelling name)

/-- What stands before the first `part` in a text, or all of it. -/
def before (part : List Char) : List Char → List Char
  | [] => []
  | c :: rest => if part.isPrefixOf (c :: rest) then [] else c :: before part rest

/-- The name of the module in a file: that of the file up to its first extension for modules. -/
def ofPath (path : List Char) : String :=
  let file := (path.reverse.takeWhile (· != '/')).reverse
  String.ofList (before ".ko".toList file)

/-- The lines of a text. -/
def lines (text : String) : List (List Char) :=
  (text.split (· == '\n')).toStringList.map (·.toList)

/-- The names in the listing of what is built in. -/
def builtInNames (listing : String) : List String :=
  (lines listing).map fun line => ofPath (Text.trim line)

/-- The names in the listing of dependencies. -/
def loadableNames (listing : String) : List String :=
  (lines listing).filterMap fun line =>
    (Text.splitOnce? ':' line).map fun (path, _) => ofPath (Text.trim path)

/-- The modules with those of both listings, which makes them complete. -/
def withListings (modules : Modules) (builtIn loadable : String) : Modules :=
  { (builtInNames builtIn ++ loadableNames loadable).foldl insert modules with complete := true }

def ofListings (builtIn loadable : String) : Modules :=
  unknown.withListings builtIn loadable

/-- The directories that hold the listings of a kernel release, in the order of preference. -/
def places : List String :=
  ["lib/modules", "usr/lib/modules"]

/-- The listings below a directory, unless there are none; a single missing one is taken as
empty. -/
def listingsIn? (files : Files) (directory : String) : Option (String × String) :=
  let builtIn := files.read? (Path.join directory "modules.builtin")
  let loadable := files.read? (Path.join directory "modules.dep")
  if builtIn = none ∧ loadable = none then none
  else some (builtIn.getD "", loadable.getD "")

/-- The release of the running kernel, empty if the files do not tell it. -/
def release (files : Files) : String :=
  String.ofList (Text.trim ((files.read? "proc/sys/kernel/osrelease").getD "").toList)

/-- The modules that the files of a running system tell. -/
def ofFiles (files : Files) : Modules :=
  let loaded := (files.list ["sys", "module"]).foldl insert unknown
  let release := release files
  if release = "" then loaded
  else match places.findSome? fun place => listingsIn? files (Path.join place release) with
    | some (builtIn, loadable) => loaded.withListings builtIn loadable
    | none => loaded

end Modules

end NetState
