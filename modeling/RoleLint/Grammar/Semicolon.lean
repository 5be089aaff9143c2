import RoleLint.Grammar.Character

/- Where a line break stands for a semicolon. The question is asked with the text
   that follows a token (or a comment after it) and with two facts about the
   place: whether a binary operator could follow, so that the line may go on,
   and whether a function body could follow a signature.

   1. `skim` - past blanks and comments, as far as the next token;
   2. `continuesLine` - what a line may start with to belong to the one before;
   3. `Untyped.endsHere`, `Typed.endsHere` - the rule of each language family;
   4. `lineEndsHere` - the rule a language uses.

   Correspondence: `_automatic_semicolon` of the scanners of `tree_sitter_javascript`
   (`Untyped`) and `tree_sitter_typescript` (`Typed`). -/
namespace RoleLint.Grammar

/-- What may follow at the place where a semicolon could be inserted. -/
structure Follow where
  /-- A binary operator could follow: the place ends an expression. -/
  operator : Bool
  /-- A function body could follow: the place ends a signature. -/
  body : Bool := false

/-- How far a walk over blanks and comments has come. -/
inductive Skim where
  | between
  | slash
  | line
  | block
  | star
  deriving DecidableEq

/-- A `//` comment ends at a line feed; where `wide` is set, also at the two line
    separators outside ASCII. -/
def endsNote (wide : Bool) (c : Char) : Bool :=
  c == '\n' || c.toNat == 0 || (wide && isSeparator c)

/-- The text after all blanks and comments, or `none` at a slash that starts no
    comment. -/
def skim (wide : Bool) : Skim → List Char → Option (List Char)
  | .slash, [] => none
  | _, [] => some []
  | .between, c :: cs =>
    if isAsciiBlank c then skim wide .between cs
    else if c == '/' then skim wide .slash cs
    else some (c :: cs)
  | .slash, c :: cs =>
    if c == '/' then skim wide .line cs
    else if c == '*' then skim wide .block cs
    else none
  | .line, c :: cs =>
    if c == '\n' then skim wide .between cs
    else if endsNote wide c then some (c :: cs)
    else skim wide .line cs
  | .block, c :: cs =>
    if c == '*' then skim wide .star cs else skim wide .block cs
  | .star, c :: cs =>
    if c == '/' then skim wide .between cs
    else if c == '*' then skim wide .star cs
    else skim wide .block cs

/-- ASCII letters. -/
def isAsciiLetter (c : Char) : Bool :=
  c.isAlpha

/-- `in` or `instanceof` at the head, up to the next character that is no letter. -/
def startsRelation : List Char → Bool
  | 'i' :: 'n' :: cs =>
    let ends (rest : List Char) : Bool := !((rest.head?.map isAsciiLetter).getD false)
    if ends cs then true
    else "stanceof".toList.isPrefixOf cs && ends (cs.drop 8)
  | _ => false

/-- Signs that continue the line before in every language family. -/
def continuingSigns : List Char :=
  ['\x60', ',', ':', ';', '*', '%', '>', '<', '=', '?', '^', '|', '&', '/']

/-- Whether a line that starts with `cs` continues the line before for any
    reason that does not depend on the place: a binary operator, or `in` and
    `instanceof`. A sign that is doubled, as `++`, starts a line of its own. -/
def continuesLine : List Char → Bool
  | '+' :: cs => cs.head? != some '+'
  | '-' :: cs => cs.head? != some '-'
  | '!' :: cs => cs.head? == some '='
  | c :: cs => continuingSigns.contains c || startsRelation (c :: cs)
  | [] => false

namespace Untyped

/-- What a comment leaves between a place and the next token. -/
inductive Gap where
  /-- The slash starts no comment. -/
  | none
  /-- The comment stays on its line; the text after it. -/
  | same (rest : List Char)
  /-- A line break lies in the comment or after it; the text after it. -/
  | broken (rest : List Char)

/-- The gap that comments make. A block comment ends it unless another comment
    follows at once; `broke` says that a block comment held a line break. -/
def gap : Skim → Bool → List Char → Gap
  | .slash, _, [] => .none
  | _, _, [] => .broken []
  | .between, broke, c :: cs =>
    if isAsciiBlank c then gap .between broke cs
    else if c == '/' then gap .slash broke cs
    else .broken (c :: cs)
  | .slash, broke, c :: cs =>
    if c == '/' then gap .line broke cs
    else if c == '*' then gap .block broke cs
    else .none
  | .line, broke, c :: cs =>
    if c == '\n' then gap .between broke cs
    else if endsNote true c then .broken (c :: cs)
    else gap .line broke cs
  | .block, broke, c :: cs =>
    if c == '*' then gap .star broke cs
    else gap .block (broke || c == '\n' || isSeparator c) cs
  | .star, broke, c :: cs =>
    if c == '/' then
      if cs.head? == some '/' then gap .between broke cs
      else if broke then .broken cs
      else .same cs
    else if c == '*' then gap .star broke cs
    else gap .block (broke || c == '\n' || isSeparator c) cs

/-- Whether a line that starts with `cs` leaves the one before complete. -/
def startsLine : List Char → Bool
  | '.' :: cs => (cs.head?.map Char.isDigit).getD false
  | '[' :: _ => false
  | '(' :: _ => false
  | cs => !continuesLine cs

/-- From a line break on: the next token decides. -/
def afterBreak (cs : List Char) : Bool :=
  match skim true .between cs with
  | some rest => startsLine rest
  | none => false

/-- On the line of the token before: the end of the text and a closing brace end
    the statement, a line break may. -/
def onLine : List Char → Bool
  | [] => false
  | c :: cs =>
    if c.toNat == 0 || c == '\x7d' then true
    else if c == '\n' || isSeparator c then afterBreak cs
    else if isAsciiBlank c then
      match cs with
      | [] => true
      | _ => onLine cs
    else false

/-- The characters before the first that is no ASCII blank are dropped, unless a
    line break is among them. -/
def toToken : List Char → List Char
  | [] => []
  | c :: cs => if isAsciiBlank c && c != '\n' then toToken cs else c :: cs

/-- Whether a semicolon is inserted here. A comment that breaks the line decides
    the question where no operator could follow; elsewhere the text after the
    comment does. -/
def endsHere (follow : Follow) (cs : List Char) : Bool :=
  match toToken cs with
  | [] => true
  | '/' :: rest =>
    match gap .slash false rest with
    | .none => false
    | .same after => onLine after
    | .broken after =>
      (!follow.operator && after.head? != some ',' && after.head? != some '=') || onLine after
  | rest => onLine rest

end Untyped

namespace Typed

/-- Whether a line that starts with `cs` leaves the one before complete. Brackets
    continue an expression but not a type, and a brace continues a signature. -/
def startsLine (follow : Follow) : List Char → Bool
  | '.' :: _ => false
  | '[' :: _ => !follow.operator
  | '(' :: _ => !follow.operator
  | '\x7b' :: _ => !follow.body
  | cs => !continuesLine cs

/-- Whether a semicolon is inserted here. Before a closing brace it is, unless
    the brace belongs to a pattern with a type after it. -/
def endsHere (follow : Follow) : List Char → Bool
  | [] => true
  | c :: cs =>
    if c.toNat == 0 then true
    else if c == '\x7d' then
      if (cs.dropWhile isAsciiBlank).head? == some ':' then follow.operator else true
    else if c == '\n' then
      match skim false .between cs with
      | some rest => startsLine follow rest
      | none => false
    else if isAsciiBlank c then endsHere follow cs
    else false

end Typed

/-- Whether a semicolon is inserted before the text `cs`. -/
def lineEndsHere (typed : Bool) (follow : Follow) (cs : List Char) : Bool :=
  if typed then Typed.endsHere follow cs else Untyped.endsHere follow cs

end RoleLint.Grammar
