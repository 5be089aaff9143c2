import RoleLint.Grammar.Cursor

/- Parsers: functions from a cursor to a result and a later cursor, or to the
   byte offset at which they gave up. The grammar is written with open
   recursion: a production asks for its parts through a `Goal`, and whoever runs
   it supplies the parser that reads goals.

   1. `Parser`, its monad and the choice of two parsers;
   2. single tokens;
   3. repetition, bounded by the size of the text;
   4. nodes: a parser for children becomes a parser for a tree;
   5. `Goal` and `Flow`.

   Correspondence: none of its own; the productions that use it follow the rules of
   `tree_sitter_javascript` and `tree_sitter_typescript`. -/
namespace RoleLint.Grammar

/-- A parser of `α`; failure carries the offset of the token that did not fit. -/
def Parser (α : Type) : Type :=
  Cursor → Except Nat (α × Cursor)

namespace Parser

instance : Monad Parser where
  pure a := fun c => .ok (a, c)
  bind p f := fun c =>
    match p c with
    | .ok (a, c') => f a c'
    | .error i => .error i

/-- Give up at the current token. -/
def fail {α : Type} : Parser α := fun c => .error c.start.offset

/-- The first parser or, where it gives up, the second. Of two failures the one
    further on counts. -/
def or {α : Type} (p : Parser α) (q : Parser α) : Parser α := fun c =>
  match p c with
  | .ok r => .ok r
  | .error i =>
    match q c with
    | .ok r => .ok r
    | .error j => .error (max i j)

/-- `p` if it fits; otherwise nothing is read. -/
def attempt {α : Type} (p : Parser α) : Parser (Option α) := fun c =>
  match p c with
  | .ok (a, c') => .ok (some a, c')
  | .error _ => .ok (none, c)

/-- The cursor. -/
def cursor : Parser Cursor := fun c => .ok (c, c)

/-- Go on from the cursor `c`. -/
def resume (c : Cursor) : Parser Unit := fun _ => .ok ((), c)

/-- Go on from the first token after the place `p`. -/
def jump (p : Place) : Parser Unit := fun c => .ok ((), c.moveTo .stray false p)

/-- Give up unless `b` holds. -/
def guard (b : Bool) : Parser Unit :=
  if b then pure () else fail

/-! ## Tokens -/

/-- Pass the current token. -/
def advance : Parser Unit := fun c => .ok ((), c.next)

/-- Pass the sign `s`. -/
def sign (s : String) : Parser Unit := fun c =>
  if c.onSign s then .ok ((), c.next) else .error c.start.offset

/-- Pass the word `w`. -/
def word (w : String) : Parser Unit := fun c =>
  if c.onWord w then .ok ((), c.next) else .error c.start.offset

/-- Pass the sign `s` if it stands here. -/
def sign? (s : String) : Parser Bool := fun c =>
  if c.onSign s then .ok (true, c.next) else .ok (false, c)

/-- Pass the word `w` if it stands here. -/
def word? (w : String) : Parser Bool := fun c =>
  if c.onWord w then .ok (true, c.next) else .ok (false, c)

/-- Whether the sign `s` stands here. -/
def atSign (s : String) : Parser Bool := fun c => .ok (c.onSign s, c)

/-- Whether the word `w` stands here. -/
def atWord (w : String) : Parser Bool := fun c => .ok (c.onWord w, c)

/-- Pass one character of the current token, as the first `>` of `>>`. -/
def advanceChar : Parser Unit := fun c => .ok ((), c.moveTo .stray false (c.start.skip 1))

/-- Whether the language has type annotations. -/
def typed : Parser Bool := fun c => .ok (c.language.typed, c)

/-- The end of a statement: a semicolon, or a line break that stands for one. -/
def semicolon (follow : Follow) : Parser Unit := fun c =>
  if c.onSign ";" then .ok ((), c.next)
  else if c.lineEnds follow then .ok ((), c.settled)
  else .error c.start.offset

/-- Past page comments, where they cannot be anything else. -/
def settle : Parser Unit := fun c => .ok ((), c.settled)

/-- Past page comments after a closing brace that a line break ends. -/
def settleLine : Parser Unit := fun c =>
  if c.lineEnds ⟨false, false⟩ then .ok ((), c.settled) else .ok ((), c)

/-! ## Repetition -/

/-- Repeat `step` from `a` until it answers `none`. -/
def loop {α : Type} (step : α → Parser (Option α)) : Nat → α → Parser α
  | 0, _ => fail
  | n + 1, a => do
    match ← step a with
    | none => pure a
    | some b => loop step n b

/-- `step` repeated from `a`, as often as the text allows. -/
def iterate {α : Type} (a : α) (step : α → Parser (Option α)) : Parser α := fun c =>
  loop step (c.size + 1) a c

/-- Items as long as `more` holds. -/
def many {α : Type} (more : Cursor → Bool) (item : Parser (List α)) : Parser (List α) := do
  let found ← iterate [] fun acc => do
    if more (← cursor) then
      let xs ← item
      pure (some (xs.reverse ++ acc))
    else pure none
  pure found.reverse

/-- Items with commas between them up to the sign `close`, which is passed. Any
    number of commas may stand before, between and after the items. -/
def looseList {α : Type} (close : String) (item : Parser α) : Parser (List α) := do
  let found ← iterate [] fun acc => do
    let c ← cursor
    if c.onSign close then pure none
    else if c.onSign "," then do
      advance
      pure (some acc)
    else do
      let x ← item
      let d ← cursor
      guard (d.onSign close || d.onSign ",")
      pure (some (x :: acc))
  sign close
  pure found.reverse

/-- One item or more with single commas between them. -/
def commaList {α : Type} (item : Parser α) : Parser (List α) := do
  let first ← item
  let found ← iterate [first] fun acc => do
    if ← sign? "," then
      let x ← item
      pure (some (x :: acc))
    else pure none
  pure found.reverse

/-- Items with single commas between them up to the sign `close`, which is
    passed. One comma may stand before it. -/
def strictList {α : Type} (close : String) (item : Parser α) : Parser (List α) := do
  let found ← iterate ([], true) fun (acc, fresh) => do
    let c ← cursor
    if c.onSign close then pure none
    else do
      guard fresh
      let x ← item
      let comma ← sign? ","
      pure (some (x :: acc, comma))
  sign close
  pure found.1.reverse

/-! ## Nodes -/

/-- A node of the given kind over what `p` reads. -/
def branch (kind : Kind) (p : Parser (List Tree)) : Parser Tree := fun c =>
  match p c with
  | .ok (kids, c') => .ok (Tree.branch kind c.start.offset c'.ended.offset kids, c')
  | .error i => .error i

/-- A node over what `p` reads, `p` also saying its kind. -/
def branchAs (p : Parser (Kind × List Tree)) : Parser Tree := fun c =>
  match p c with
  | .ok ((kind, kids), c') => .ok (Tree.branch kind c.start.offset c'.ended.offset kids, c')
  | .error i => .error i

/-- A node of the given kind that starts where the tree `left` does. -/
def grow (kind : Kind) (left : Tree) (p : Parser (List Tree)) : Parser Tree := fun c =>
  match p c with
  | .ok (kids, c') => .ok (Tree.branch kind left.start c'.ended.offset kids, c')
  | .error i => .error i

/-- The current token as a node without children. -/
def leaf (kind : Kind) : Parser Tree := fun c =>
  .ok (Tree.leaf kind c.start.offset c.stop.offset, c.next)

end Parser

/-! ## Goals -/

/-- What surrounds an expression or a type. -/
structure Flow where
  /-- A line break after a complete operand may end it. -/
  breaks : Bool
  /-- The word `in` is not an operator here, as in the head of a loop. -/
  noIn : Bool := false
  /-- An arrow function has no return type here, as before the colon of a
      conditional. -/
  plainArrow : Bool := false
  deriving DecidableEq, Repr

/-- Inside brackets: line breaks mean nothing. -/
def Flow.inner : Flow := { breaks := false }

/-- At the end of a statement: a line break may end it. -/
def Flow.outer : Flow := { breaks := true }

/-- The parts that productions ask for. -/
inductive Goal where
  /-- An expression without commas. -/
  | expression (flow : Flow)
  /-- An expression whose operators bind at least as tightly as `level`. -/
  | operation (flow : Flow) (level : Nat)
  /-- An operand of an operator. -/
  | operand (flow : Flow)
  /-- A statement. -/
  | statement
  /-- A block of statements; an open one may be closed by the end of the text. -/
  | block (closable : Bool)
  /-- A type; `conditional` allows `A extends B ? C : D`. -/
  | type (flow : Flow) (conditional : Bool)
  /-- A binding or assignment pattern. -/
  | pattern
  /-- A markup element. -/
  | markup
  deriving Repr

/-- What reads goals. -/
abbrev Reader : Type := Goal → Parser Tree

end RoleLint.Grammar
