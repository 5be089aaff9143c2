import RoleLint.RawText

/- Paths, with `/` between their parts. Empty parts mean nothing, nor does a `.` other
   than as the very first part of a relative path.

   1. `segments`, `names` - a path cut into its parts.
   2. `extension?`, `parent?`, `join`.

   Correspondence with `std::path::Path`:
     `components` (the normal and parent ones) ↔ `names`
     `is_absolute`, `extension`, `parent`, `join` ↔ `isAbsolute`, `extension?`,
       `parent?`, `join` -/
namespace RoleLint

/-- A path as the system knows it. -/
abbrev Path : Type := RawText

namespace Path

/-- A part of a path. -/
abbrev Segment : Type := List UInt8

/-- The byte between two parts. -/
def slash : UInt8 := 0x2f

/-- The byte before an extension. -/
def dot : UInt8 := 0x2e

/-- The part that leads to the directory above. -/
def dotDot : Segment := [dot, dot]

/-- Bytes cut at every slash; there is always at least one segment. -/
def segments : List UInt8 → List Segment
  | [] => [[]]
  | b :: bs =>
    if b == slash then [] :: segments bs
    else
      match segments bs with
      | [] => [[b]]
      | s :: rest => (b :: s) :: rest

/-- Segments joined by slashes. -/
def unsegment (parts : List Segment) : List UInt8 :=
  List.intercalate [slash] parts

/-- Whether a segment means nothing. -/
def isTrivial (segment : Segment) : Bool :=
  segment == [] || segment == [dot]

/-- A path cut in two: the slash or lone dot it may start with, and the rest. -/
def splitHead (bs : List UInt8) : List UInt8 × List UInt8 :=
  if bs.head? == some slash then ([slash], bs.tail)
  else if bs == [dot] || [dot, slash].isPrefixOf bs then ([dot], bs.tail)
  else ([], bs)

/-- The parts of a path that name something, `..` among them. -/
def names (path : Path) : List Segment :=
  (segments (splitHead path.bytes).2).filter fun s => !isTrivial s

/-- Whether a path starts at the root of the file system. -/
def isAbsolute (path : Path) : Bool :=
  path.bytes.head? == some slash

/-- The bytes after the last dot of a file name. A name whose only dot comes first
    has no extension, nor has one without dots. -/
def nameExtension? (name : Segment) : Option (List UInt8) :=
  let after := (name.reverse.takeWhile (· != dot)).reverse
  let before := (name.reverse.dropWhile (· != dot)).drop 1
  if before.isEmpty then none else some after

/-- The extension of the file that a path names, if it is a text. -/
def extension? (path : Path) : Option String :=
  match (names path).getLast? with
  | none => none
  | some name =>
    if name == dotDot then none
    else (nameExtension? name).bind fun bytes => RawText.text? ⟨bytes⟩

/-- The path without its last part. Only the root and the empty path have none. -/
def parent? (path : Path) : Option Path :=
  let (head, body) := splitHead path.bytes
  match (segments body).reverse.dropWhile isTrivial with
  | [] => if head == [dot] then some ⟨[]⟩ else none
  | _ :: rest => some ⟨head ++ unsegment (rest.dropWhile isTrivial).reverse⟩

/-- The path `name` seen from `dir`. An absolute path stands for itself. -/
def join (dir name : Path) : Path :=
  if isAbsolute name || dir.isEmpty then name
  else if dir.bytes.getLast? == some slash then ⟨dir.bytes ++ name.bytes⟩
  else ⟨dir.bytes ++ slash :: name.bytes⟩

end Path

end RoleLint
