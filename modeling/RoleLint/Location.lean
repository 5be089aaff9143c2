/- Places in a source file as people and editors name them.

   Correspondence: `rag_core::types::Location` ↔ `Location`, its derived order ↔ `le`. -/
namespace RoleLint

/-- A place in a source file: the line counts from one, the column from zero in
    UTF-16 code units. -/
structure Location where
  line : Nat
  column : Nat
  deriving DecidableEq, Repr, Inhabited

namespace Location

/-- Whether `a` is `b` or stands before it: by line, then by column. -/
def le (a b : Location) : Bool :=
  a.line < b.line || (a.line == b.line && a.column ≤ b.column)

/-- `line:column`, both in decimal. -/
def text (l : Location) : String :=
  Nat.repr l.line ++ ":" ++ Nat.repr l.column

end Location

end RoleLint
