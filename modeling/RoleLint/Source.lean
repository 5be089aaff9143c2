import RoleLint.Location

/- A source text with an index of its lines. Syntax trees speak of byte offsets;
   this module turns them into text and into locations.

   1. byte lengths and slices of a text; a slice whose ends fall inside a
      character, or outside the text, does not exist.
   2. `lineStarts` - the byte offsets at which lines start. A line ends at a line
      feed, at a carriage return with or without a line feed after it, and at
      U+2028 and U+2029.
   3. `Source`, `Source.slice` and `Source.locate`.

   Correspondence with `rag_ts::syntax::SourceText`: `new`, `text`, `location_at` ↔ `ofText`,
   `slice`, `locate`. -/
namespace RoleLint

/-! ## Bytes -/

/-- The bytes that a text takes. -/
def byteLength (text : List Char) : Nat :=
  text.foldr (fun c n => c.utf8Size + n) 0

/-- The text after its first `n` bytes, if a character starts there. -/
def dropBytes (n : Nat) : List Char → Option (List Char)
  | [] => if n = 0 then some [] else none
  | c :: cs =>
    if n = 0 then some (c :: cs)
    else if c.utf8Size ≤ n then dropBytes (n - c.utf8Size) cs
    else none

/-- The first `n` bytes of a text, if a character ends there. -/
def takeBytes (n : Nat) : List Char → Option (List Char)
  | [] => if n = 0 then some [] else none
  | c :: cs =>
    if n = 0 then some []
    else if c.utf8Size ≤ n then (takeBytes (n - c.utf8Size) cs).map (c :: ·)
    else none

/-- The text between two byte offsets. -/
def byteSlice (text : List Char) (start stop : Nat) : Option (List Char) :=
  if start ≤ stop then (dropBytes start text).bind (takeBytes (stop - start)) else none

/-- The number of UTF-16 code units of a character: two outside the basic plane. -/
def utf16Size (c : Char) : Nat :=
  if c.toNat < 0x10000 then 1 else 2

/-- The number of UTF-16 code units of a text. -/
def utf16Length (text : List Char) : Nat :=
  text.foldr (fun c n => utf16Size c + n) 0

/-! ## Lines -/

/-- Characters that end a line. -/
def isLineTerminator (c : Char) : Bool :=
  c == '\n' || c == '\r' || c == '\u2028' || c == '\u2029'

/-- The offsets after each line end of a text that starts at `offset`. A carriage
    return directly before a line feed ends no line of its own. -/
def lineStartsAfter (offset : Nat) : List Char → List Nat
  | [] => []
  | c :: cs =>
    let next := offset + c.utf8Size
    if isLineTerminator c && !(c == '\r' && cs.head? == some '\n') then
      next :: lineStartsAfter next cs
    else lineStartsAfter next cs

/-- The offsets at which the lines of a text start. -/
def lineStarts (text : List Char) : List Nat :=
  0 :: lineStartsAfter 0 text

/-- How many of the `starts` before position `hi`, from `lo` on, are at most
    `offset`, plus `lo`: the interval is halved until it is empty. `fuel` bounds
    the number of steps. -/
def searchStart (starts : Array Nat) (offset : Nat) : (fuel lo hi : Nat) → Nat
  | 0, lo, _ => lo
  | fuel + 1, lo, hi =>
    if lo < hi then
      let mid := (lo + hi) / 2
      if starts.getD mid 0 ≤ offset then searchStart starts offset fuel (mid + 1) hi
      else searchStart starts offset fuel lo mid
    else lo

/-! ## Sources -/

/-- A text and the offsets at which its lines start. -/
structure Source where
  text : List Char
  starts : Array Nat

namespace Source

/-- The source of a text. -/
def ofText (text : List Char) : Source :=
  ⟨text, (lineStarts text).toArray⟩

/-- The text between two offsets, empty if there is none. -/
def slice (s : Source) (start stop : Nat) : String :=
  String.ofList ((byteSlice s.text start stop).getD [])

/-- How many lines start at or before an offset. -/
def lineOf (s : Source) (offset : Nat) : Nat :=
  searchStart s.starts offset s.starts.size 0 s.starts.size

/-- The offset at which the line of an offset starts. -/
def lineStart (s : Source) (offset : Nat) : Nat :=
  s.starts.getD (s.lineOf offset - 1) 0

/-- The location of a byte offset. -/
def locate (s : Source) (offset : Nat) : Location :=
  { line := s.lineOf offset
    column := ((byteSlice s.text (s.lineStart offset) offset).map utf16Length).getD 0 }

end Source

end RoleLint
