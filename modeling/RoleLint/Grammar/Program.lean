import RoleLint.Grammar.Comment
import RoleLint.Grammar.Statement
import RoleLint.Source

/- Whole source texts. `parse` gives every text a tree: one without faults if the
   text fits the grammar, and otherwise one with a fault where it stops fitting.

   1. `production` ties the grammar together: what each goal reads.
   2. `reader` closes the recursion; its argument bounds the nesting.
   3. `Program` - statements up to the end or to the first fault.
   4. `parse`.

   A fault at the very end of the text is one of two things. If closing the open
   blocks makes the text fit, the closing brace is missing there; otherwise the
   last statement is only the beginning of something, and is all in error.

   Correspondence: `program` of `tree_sitter_javascript`, and `tree_sitter::Parser::parse` with
   its error recovery as far as the first fault ↔ `parse`. -/
namespace RoleLint.Grammar

open RoleLint.Grammar.Parser

/-- What each goal reads. -/
def production (read : Reader) : Goal → Parser Tree
  | .expression flow => operation read flow 0
  | .operation flow level => operation read flow level
  | .operand flow => operand read flow
  | .statement => statement read
  | .block closable => block read closable
  | .type flow conditional => typeExpression read flow conditional
  | .pattern => pattern read
  | .markup => markupElement read

/-- The reader of goals nested at most `depth` deep. -/
def reader : Nat → Reader
  | 0 => fun _ => fail
  | depth + 1 => production (reader depth)

/-- How deep goals can nest in a text: every character opens a bounded number. -/
def nesting (text : List Char) : Nat :=
  64 * (text.length + 1)

/-- What was read of a text: its statements, the cursor after them, and the
    offset at which the next statement gave up, if one did. -/
structure Program where
  statements : List Tree
  cursor : Cursor
  fault : Option Nat

/-- Statements from a cursor on; `fuel` bounds their number. -/
def Program.read (statement : Parser Tree) : Nat → Cursor → Program
  | 0, c => ⟨[], c, some c.start.offset⟩
  | fuel + 1, c =>
    if c.token == .finish then ⟨[], c, none⟩
    else
      match statement c with
      | .error i => ⟨[], c, some i⟩
      | .ok (t, d) =>
        let p := Program.read statement fuel d
        { p with statements := t :: p.statements }

/-- The cursor after an interpreter line, which may stand before everything else. -/
def skipInterpreter (c : Cursor) : Cursor :=
  match c.start.rest with
  | '#' :: '!' :: _ =>
    c.moveTo .stray true (c.start.skip (c.start.rest.takeWhile (· != '\n')).length)
  | _ => c

/-- The program of a text. -/
def Program.ofText (language : Language) (forgiving : Bool) (text : List Char) : Program :=
  let c := skipInterpreter (Cursor.ofText language forgiving text)
  Program.read (reader (nesting text) .statement) c.size c

/-- The tree of a program that ends at byte `size`. A fault at the end is put at
    the start of the statement that is not complete. -/
def Program.tree (p : Program) (size : Nat) : Tree :=
  let faults :=
    match p.fault with
    | none => []
    | some i =>
      let start := if i == size then p.cursor.start.offset else i
      [Tree.leaf .error start size]
  (Tree.branch .other 0 size (p.statements ++ faults)).attachAll p.cursor.comments

/-- The syntax tree of a text. -/
def parse (language : Language) (text : List Char) : Tree :=
  let size := byteLength text
  let strict := Program.ofText language false text
  if strict.fault == some size then
    let closed := Program.ofText language true text
    if closed.fault == none then closed.tree size else strict.tree size
  else strict.tree size

end RoleLint.Grammar
