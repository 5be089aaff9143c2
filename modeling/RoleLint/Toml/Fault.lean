import RoleLint.Source

/- What can be wrong with a TOML text, and how it is shown: the line with the fault,
   marked below, and the reason.

   Places are counted from the end. A reader holds the text that is left, so the
   length of that is where it stands.

   Correspondence: `toml::de::Error` and its text ↔ `Fault` and `Fault.message`. -/
namespace RoleLint.Toml

/-- A stretch of a text: how many characters are left at its start and at its end. -/
structure Span where
  start : Nat
  stop : Nat
  deriving DecidableEq, Repr, Inhabited

/-- What is wrong. -/
inductive Reason where
  /-- The text does not fit the grammar. -/
  | malformed
  /-- A key is given twice, in a table that may have a name. -/
  | duplicateKey (key : String) (table : Option (List String))
  /-- A key leads through something that is no open table. -/
  | notTable (path : List String)
  /-- Brackets or keys are nested too deep. -/
  | tooDeep
  /-- A number is too large. -/
  | outOfRange
  /-- A value of another type is expected. -/
  | wrongType (found expected : String)
  /-- A word that is none of the expected ones. -/
  | unknownWord (word : String) (expected : List String)
  /-- A table that stands for a word does not have the form of one. -/
  | notWord
  deriving DecidableEq, Repr

/-- A word in backticks. -/
def ticked (s : String) : String :=
  "`" ++ s ++ "`"

/-- The wording of a reason. -/
def Reason.message : Reason → String
  | malformed => "invalid syntax"
  | duplicateKey key none => "duplicate key " ++ ticked key
  | duplicateKey key (some []) => "duplicate key " ++ ticked key ++ " in document root"
  | duplicateKey key (some path) =>
    "duplicate key " ++ ticked key ++ " in table " ++ ticked (".".intercalate path)
  | notTable path =>
    "dotted key " ++ ticked (".".intercalate path) ++ " attempted to extend non-table type"
  | tooDeep => "recursion limit exceeded"
  | outOfRange => "value is out of range"
  | wrongType found expected => "invalid type: " ++ found ++ ", expected " ++ expected
  | unknownWord word expected =>
    "unknown variant " ++ ticked word ++ ", expected one of " ++
      ", ".intercalate (expected.map ticked)
  | notWord => "wanted string or table"

/-- A fault: what is wrong, where, and whether it is in the header of a table. -/
structure Fault where
  reason : Reason
  span : Span
  header : Bool := false
  deriving DecidableEq, Repr

namespace Fault

/-- A fault at one place of which the text `rest` is left. -/
def here (reason : Reason) (rest : List Char) : Fault :=
  ⟨reason, ⟨rest.length, rest.length - 1⟩, false⟩

/-- A text cut at every line feed. -/
def lines : List Char → List (List Char)
  | [] => [[]]
  | c :: cs =>
    if c == '\n' then [] :: lines cs
    else
      match lines cs with
      | [] => [[c]]
      | l :: ls => (c :: l) :: ls

/-- The number of lines before a place of a text, and of characters before it on
    its line. The end of the text belongs to its last character. -/
def position (text : List Char) (index : Nat) : Nat × Nat :=
  let shown := min index (text.length - 1)
  let before := text.take shown
  (before.count '\n', (before.reverse.takeWhile (· != '\n')).length + (index - shown))

/-- A fault in a text, shown with its line. -/
def message (text : List Char) (f : Fault) : String :=
  let index := text.length - f.span.start
  let (line, column) := position text index
  let content := (lines text).getD line []
  let number := Nat.repr (line + 1)
  let gutter := String.ofList (List.replicate (number.length + 1) ' ')
  let width := byteLength ((text.drop index).take (f.span.start - f.span.stop))
  let marks := max 1 (min width (byteLength content))
  "TOML parse error at line " ++ number ++ ", column " ++ Nat.repr (column + 1) ++ "\n" ++
    gutter ++ "|\n" ++
    number ++ " | " ++ String.ofList content ++ "\n" ++
    gutter ++ "|" ++ String.ofList (List.replicate (column + 1) ' ' ++ List.replicate marks '^') ++
    "\n" ++ (if f.header then "invalid table header\n" else "") ++ f.reason.message ++ "\n"

end Fault

/-- What is read from the front of a text, and the text that is left. -/
abbrev Step (α : Type) : Type := Except Fault (α × List Char)

/-- Refuse the text that is left. -/
def refuse {α : Type} (rest : List Char) : Step α :=
  .error (Fault.here .malformed rest)

end RoleLint.Toml
