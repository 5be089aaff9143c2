import RoleLint.Toml.Moment
import RoleLint.Toml.Node
import RoleLint.Toml.Number

/- Reading TOML texts.

   1. values; brackets nest to a fixed depth.
   2. lines: entries and headers.
   3. `Toml.parse` - the entries of a whole text.

   Correspondence: the crate `toml`, from a text to its table, ↔ `Toml.parse`. -/
namespace RoleLint.Toml

/-! ## Values -/

/-- The text between two places. -/
def between (cs rest : List Char) : String :=
  String.ofList (cs.take (cs.length - rest.length))

/-- The stretch between two places. -/
def spanOf (cs rest : List Char) : Span :=
  ⟨cs.length, rest.length⟩

/-- Items of an array up to its closing bracket, which is passed; `fuel` bounds
    their number. -/
def readItems (item : List Char → Except Fault (Node × List Char)) :
    Nat → List Char → Except Fault (List Node × List Char)
  | 0, cs => refuse cs
  | fuel + 1, cs => do
    match skipSpace cs.length cs with
    | ']' :: rest => pure ([], rest)
    | start =>
      let (x, rest) ← item start
      match skipSpace rest.length rest with
      | ',' :: rest =>
        let (xs, rest) ← readItems item fuel rest
        pure (x :: xs, rest)
      | ']' :: rest => pure ([x], rest)
      | rest => refuse rest

/-- A key, an equals sign and a value. -/
def readPair (item : List Char → Except Fault (Node × List Char)) (cs : List Char) :
    Except Fault ((List String × Node) × List Char) := do
  let (key, rest) ← readKey cs
  match rest with
  | '=' :: rest =>
    let (x, rest) ← item (skipBlanks rest)
    pure ((key, x), rest)
  | _ => refuse rest

/-- Pairs of a table in braces up to the closing one, which is passed; `fuel` bounds
    their number. -/
def readPairs (item : List Char → Except Fault (Node × List Char)) :
    Nat → List Char → Except Fault (List (List String × Node) × List Char)
  | 0, cs => refuse cs
  | fuel + 1, cs => do
    let (p, rest) ← readPair item cs
    match skipBlanks rest with
    | ',' :: rest =>
      let (ps, rest) ← readPairs item fuel rest
      pure (p :: ps, rest)
    | '\x7d' :: rest => pure ([p], rest)
    | rest => refuse rest

/-- The table of some pairs. -/
def tableOfPairs (pairs : List (List String × Node)) : Outcome Entries :=
  pairs.foldlM (fun es p => addEntry none p.1 p.2 .closed es) []

/-- A table in braces, after the opening one; `start` is where it starts. -/
def readBraces (item : List Char → Except Fault (Node × List Char)) (start cs : List Char) :
    Except Fault (Node × List Char) :=
  match skipBlanks cs with
  | '\x7d' :: rest => .ok (.table (spanOf start rest) .closed [], rest)
  | cs => do
    let (pairs, rest) ← readPairs item cs.length cs
    match tableOfPairs pairs with
    | .ok es => pure (.table (spanOf start rest) .closed es, rest)
    | .error reason => .error (Fault.here reason start)

/-- A number, a date or a time. -/
def readNumeric (cs : List Char) : Except Fault (Node × List Char) := do
  let node (rest : List Char) (s : Scalar) : Node × List Char := (.scalar (spanOf cs rest) s, rest)
  match afterSpecial? cs with
  | some rest => pure (node rest (.decimal (between cs rest)))
  | none =>
    match readMoment cs with
    | .broken => refuse cs
    | .hit rest => pure (node rest (.moment (between cs rest)))
    | .miss =>
      let (found, rest) ← readFloat cs
      if found then pure (node rest (.decimal (between cs rest)))
      else
        let (n, rest) ← readInteger cs
        pure (node rest (.integer n))

/-- A value; brackets in it may nest `depth` deep. -/
def readValue : Nat → List Char → Except Fault (Node × List Char)
  | depth, cs => do
    match cs with
    | '\x22' :: _ | '\x27' :: _ =>
      let (s, rest) ← readQuoted cs
      pure (.scalar (spanOf cs rest) (.text s), rest)
    | '[' :: body =>
      match depth with
      | 0 => .error (Fault.here .tooDeep cs)
      | depth + 1 =>
        let (items, rest) ← readItems (readValue depth) cs.length body
        pure (.array (spanOf cs rest) items, rest)
    | '\x7b' :: body =>
      match depth with
      | 0 => .error (Fault.here .tooDeep cs)
      | depth + 1 => readBraces (readValue depth) cs body
    | 't' :: 'r' :: 'u' :: 'e' :: rest => pure (.scalar (spanOf cs rest) (.truth true), rest)
    | 'f' :: 'a' :: 'l' :: 's' :: 'e' :: rest =>
      pure (.scalar (spanOf cs rest) (.truth false), rest)
    | _ => readNumeric cs

/-! ## Lines -/

/-- A document that is being read: what is complete, and the table that entries are
    added to, with its header. -/
structure Draft where
  root : Entries := []
  header : List String := []
  listed : Bool := false
  span : Span := ⟨0, 0⟩
  table : Entries := []

/-- The document with the current table put in its place. -/
def Draft.close (d : Draft) : Outcome Entries :=
  if d.header.isEmpty then .ok d.table
  else closeTable d.span d.header d.listed d.table d.root

/-- A reason as a fault of the line that starts at `cs`. -/
def atLine {α : Type} (header : Bool) (cs : List Char) : Outcome α → Except Fault α
  | .ok a => .ok a
  | .error reason => .error { Fault.here reason cs with header := header }

/-- An entry of the current table. -/
def Draft.readEntry (d : Draft) (cs : List Char) : Except Fault (Draft × List Char) := do
  let ((key, x), rest) ← readPair (readValue (depthLimit - 1)) cs
  let (_, after) ← lineEnd rest
  let table ← atLine false cs (addEntry (some d.header) key x .header d.table)
  pure ({ d with table := table, span := ⟨d.span.start, x.span.stop⟩ }, after)

/-- A header in single brackets, after the opening one. -/
def Draft.readHeader (d : Draft) (cs body : List Char) : Except Fault (Draft × List Char) := do
  let (key, rest) ← readKey body
  match rest with
  | ']' :: rest =>
    let (_, after) ← lineEnd rest
    let span := spanOf cs rest
    let (root, table) ← atLine true cs (d.close >>= openTable span key)
    pure (⟨root, key, false, span, table⟩, after)
  | _ => refuse rest

/-- A header in double brackets, after the opening ones. -/
def Draft.readListHeader (d : Draft) (cs body : List Char) : Except Fault (Draft × List Char) := do
  let (key, rest) ← readKey body
  match rest with
  | ']' :: ']' :: rest =>
    let (_, after) ← lineEnd rest
    let span := spanOf cs rest
    let root ← atLine true cs (d.close >>= openTables span key)
    pure (⟨root, key, true, span, []⟩, after)
  | _ => refuse rest

/-- All lines of a text; `fuel` bounds their number. -/
def Draft.readLines (d : Draft) : Nat → List Char → Except Fault Draft
  | 0, cs => if cs.isEmpty then .ok d else .error (Fault.here .malformed cs)
  | fuel + 1, cs =>
    match skipBlanks cs with
    | [] => .ok d
    | '#' :: rest => do
      let (_, after) ← lineEnd ('#' :: rest)
      Draft.readLines d fuel after
    | '\n' :: rest => Draft.readLines d fuel rest
    | '\r' :: rest => do
      let (_, after) ← lineEnd ('\r' :: rest)
      Draft.readLines d fuel after
    | '[' :: '[' :: rest => do
      let (d, after) ← d.readListHeader ('[' :: '[' :: rest) rest
      Draft.readLines d fuel after
    | '[' :: rest => do
      let (d, after) ← d.readHeader ('[' :: rest) rest
      Draft.readLines d fuel after
    | cs => do
      let (d, after) ← d.readEntry cs
      Draft.readLines d fuel after

/-! ## Documents -/

/-- The entries of a text. A byte order mark at its start is passed. -/
def parse (text : List Char) : Except Fault Entries := do
  let body :=
    match text with
    | '\ufeff' :: cs => cs
    | cs => cs
  let d ← Draft.readLines {} (body.length + 1) body
  atLine false [] d.close

end RoleLint.Toml
