import RoleLint.Analysis

/- File systems: one tree of names, of which a finite list says what it holds, and a
   working directory in it. Names of directories on the way to an entry need no entry
   of their own.

   1. `Entry`, `FileSystem.find?` - what stands under a list of names.
   2. `FileSystem.lookup` - what a path leads to, or why it leads nowhere.
   3. reading and writing files.

   Correspondence:
     `std::fs::read_to_string`, `std::fs::write`    ↔ `readText`, `writeText`
     `Path::is_file`, `Path::exists`                ↔ `isFile`, `contains`
     `extract_file` of `rag_ts::LanguageExtractor`  ↔ `extractFile`
     `rag::runner::analyze_file_as`                 ↔ `analyzeFile` -/
namespace RoleLint

/-- What can stand under a path. -/
inductive Entry where
  /-- A file; without content if its bytes are no text. -/
  | file (content : Option String)
  | directory
  deriving DecidableEq, Repr

/-- The parts on the way from the root to something. -/
abbrev Names : Type := List Path.Segment

/-- A file system. -/
structure FileSystem where
  /-- The working directory. -/
  cwd : Names
  entries : List (Names × Entry)
  deriving DecidableEq, Repr, Inhabited

namespace FileSystem

/-- Whether something stands below a list of names. -/
def isAboveEntry (fs : FileSystem) (names : Names) : Bool :=
  fs.entries.any fun e => names.isPrefixOf e.1 && names != e.1

/-- What stands under a list of names. The working directory and those above it are
    there whether they have entries or not. -/
def find? (fs : FileSystem) (names : Names) : Option Entry :=
  if names.isPrefixOf fs.cwd then some .directory
  else
    match fs.entries.find? fun e => e.1 == names with
    | some e => some e.2
    | none => if fs.isAboveEntry names then some .directory else none

/-- Where a name leads from a directory; the root is above itself. -/
def child (here : Names) (name : Path.Segment) : Names :=
  if name == Path.dotDot then here.dropLast else here ++ [name]

/-- One step along a path. -/
def step (fs : FileSystem) (here : Names) (name : Path.Segment) : Except ReadError Names :=
  match fs.find? here with
  | none => .error .notFound
  | some (.file _) => .error .notDirectory
  | some .directory =>
    if (fs.find? (child here name)).isSome then .ok (child here name) else .error .notFound

/-- Where a path starts. -/
def origin (fs : FileSystem) (path : Path) : Names :=
  if Path.isAbsolute path then [] else fs.cwd

/-- Whether a path can only mean a directory: it ends in a slash or a dot. -/
def meansDirectory (path : Path) : Bool :=
  ((Path.segments path.bytes).getLast?.map Path.isTrivial).getD true

/-- What a path leads to. -/
def lookup (fs : FileSystem) (path : Path) : Except ReadError Entry :=
  if path.isEmpty then .error .notFound
  else do
    let names ← (Path.names path).foldlM (step fs) (fs.origin path)
    match fs.find? names with
    | none => .error .notFound
    | some .directory => pure .directory
    | some (.file content) =>
      if meansDirectory path then .error .notDirectory else pure (.file content)

/-- The number of bytes that a text in memory stays below. -/
def textLimit : Nat := Nat.pow 2 63

/-- The text of the file that a path leads to. -/
def readText (fs : FileSystem) (path : Path) : Except ReadError String :=
  match fs.lookup path with
  | .error e => .error e
  | .ok .directory => .error .isDirectory
  | .ok (.file none) => .error .invalidText
  | .ok (.file (some s)) =>
    if byteLength s.toList < textLimit then .ok s else .error (.other "out of memory")

/-- Whether a path leads to a file. -/
def isFile (fs : FileSystem) (path : Path) : Bool :=
  match fs.lookup path with
  | .ok (.file _) => true
  | _ => false

/-- Whether a path leads anywhere. -/
def contains (fs : FileSystem) (path : Path) : Bool :=
  match fs.lookup path with
  | .ok _ => true
  | .error _ => false

/-- The file system with another entry under a list of names. -/
def set (fs : FileSystem) (names : Names) (entry : Entry) : FileSystem :=
  { fs with entries := (fs.entries.filter fun e => e.1 != names) ++ [(names, entry)] }

/-- The file system after a text has been written to a path. -/
def writeText (fs : FileSystem) (path : Path) (content : String) : Except ReadError FileSystem :=
  if path.isEmpty then .error .notFound
  else
    match fs.lookup path with
    | .ok .directory => .error .isDirectory
    | .error .notDirectory => .error .notDirectory
    | _ => do
      let names := Path.names path
      let parent ← names.dropLast.foldlM (step fs) (fs.origin path)
      match fs.find? parent with
      | some .directory =>
        if meansDirectory path then .error .isDirectory
        else pure (fs.set (parent ++ [names.getLastD []]) (.file (some content)))
      | some (.file _) => .error .notDirectory
      | none => .error .notFound

/-- A path to a list of names: from the working directory if they are below it. -/
def pathTo (fs : FileSystem) (names : Names) : Path :=
  if fs.cwd.isPrefixOf names then ⟨Path.unsegment (names.drop fs.cwd.length)⟩
  else ⟨Path.slash :: Path.unsegment names⟩

/-- The paths of files whose content differs from what `old` holds there, with the
    new content. -/
def changes (old new : FileSystem) : List (Path × String) :=
  new.entries.filterMap fun e =>
    match e.2 with
    | .file (some s) => if old.find? e.1 == some e.2 then none else some (old.pathTo e.1, s)
    | _ => none

end FileSystem

/-- The functions of the file that a path leads to. -/
def extractFile (fs : FileSystem) (path : Path) (dialect : Dialect) :
    Except AnalysisError (List Descriptor) :=
  match fs.readText path with
  | .error e => .error (.unreadable path e)
  | .ok text => extract path dialect text.toList

/-- The findings about the file that a path leads to. -/
def analyzeFile (fs : FileSystem) (path : Path) (dialect : Dialect) :
    Except AnalysisError Result :=
  (extractFile fs path dialect).map (judge path)

end RoleLint
