import RoleLint.Grammar.Semicolon
import RoleLint.Grammar.Token
import RoleLint.Tree

/- A cursor stands on a token of the source text. It knows where the token before
   ended, which comments were passed on the way and where the token itself
   starts and ends, so that the grammar can ask three things: what the token is,
   whether a line break before it ends a statement, and what comes next.

   The comments of web pages, from `<!--` or `-->` to the end of the line, could also be
   read as operators. They are comments only where neither an operator nor an inserted
   semicolon can stand: after a token that something has to follow (`Token.isOpen`), and
   wherever the grammar says so (`settled`).

   Correspondence with `tree_sitter_javascript`: `comment`, `html_comment` (page comments), and
   the lexer's place in the text. -/
namespace RoleLint.Grammar

/-- What sets the languages apart: type annotations and markup. -/
structure Language where
  typed : Bool
  markup : Bool
  deriving DecidableEq, Repr, Inhabited

/-- A place in the text: what is left from there on, and its byte offset. -/
structure Place where
  rest : List Char
  offset : Nat
  deriving Inhabited

/-- The place `n` characters further on. -/
def Place.skip : Nat → Place → Place
  | 0, p => p
  | n + 1, p =>
    match p.rest with
    | [] => p
    | c :: cs => Place.skip n ⟨cs, p.offset + c.utf8Size⟩

/-- The place after the blanks that `rest` starts with, `offset` being its own. -/
def skipBlanks (offset : Nat) : List Char → Place
  | [] => ⟨[], offset⟩
  | c :: cs => if isBlank c then skipBlanks (offset + c.utf8Size) cs else ⟨c :: cs, offset⟩

/-- The end of a `//` comment. -/
def skipNote (offset : Nat) : List Char → Place
  | [] => ⟨[], offset⟩
  | c :: cs => if isLineEnd c then ⟨c :: cs, offset⟩ else skipNote (offset + c.utf8Size) cs

/-- The end of a block comment from within, if it is closed. -/
def skipBlockComment (offset : Nat) (star : Bool) : List Char → Option Place
  | [] => none
  | c :: cs =>
    if star && c == '/' then some ⟨cs, offset + 1⟩
    else skipBlockComment (offset + c.utf8Size) (c == '*') cs

/-- The end of the comment that starts at a place, if one does. -/
def Place.comment? (p : Place) : Option Place :=
  match p.rest with
  | '/' :: '/' :: cs => some (skipNote (p.offset + 2) cs)
  | '/' :: '*' :: cs => skipBlockComment (p.offset + 2) false cs
  | _ => none

/-- The end of a page comment from within. -/
def skipPageNote (offset : Nat) : List Char → Place
  | [] => ⟨[], offset⟩
  | c :: cs =>
    if endsNote true c then ⟨c :: cs, offset⟩ else skipPageNote (offset + c.utf8Size) cs

/-- The end of the page comment that starts at a place, if one does. -/
def Place.pageComment? (p : Place) : Option Place :=
  match p.rest with
  | '<' :: '!' :: '-' :: '-' :: cs => some (skipPageNote (p.offset + 4) cs)
  | '-' :: '-' :: '>' :: cs => some (skipPageNote (p.offset + 3) cs)
  | _ => none

/-- The comment that starts at a place, and its end; page comments count where `pages`
    is set. -/
def Place.passed? (pages : Bool) (p : Place) : Option (Tree × Place) :=
  match p.comment? with
  | some q => some (Tree.leaf .comment p.offset q.offset, q)
  | none =>
    if pages then p.pageComment?.map fun q => (Tree.leaf .other p.offset q.offset, q) else none

/-- What lies between two tokens: where the next one starts, the text after the
    first token and after every comment, and the comments, last first. -/
structure Trivia where
  start : Place
  resumes : List (List Char)
  comments : List Tree

/-- Past blanks and comments; `fuel` bounds the number of comments. -/
def Place.trivia (pages : Bool) : Nat → Place → Trivia
  | 0, p => ⟨p, [p.rest], []⟩
  | fuel + 1, p =>
    let q := skipBlanks p.offset p.rest
    match q.passed? pages with
    | none => ⟨q, [p.rest], []⟩
    | some (comment, r) =>
      let t := Place.trivia pages fuel r
      ⟨t.start, p.rest :: t.resumes, t.comments ++ [comment]⟩

/-- A cursor on a token. -/
structure Cursor where
  language : Language
  /-- A bound on the number of tokens. -/
  size : Nat
  /-- Whether the end of the text closes the blocks that are still open. -/
  forgiving : Bool
  /-- The token before; a stray one if it was not read as a token. -/
  before : Token
  /-- Where the token before ended. -/
  ended : Place
  /-- The text after the token before, and after each comment since. -/
  resumes : List (List Char)
  /-- All comments passed so far, last first. -/
  comments : List Tree
  /-- Where the token starts. -/
  start : Place
  token : Token
  /-- Where the token ends. -/
  stop : Place
  deriving Inhabited

namespace Cursor

/-- The cursor on the first token after the place `p`, where the token `before` ends.
    Page comments are passed where `pages` is set. -/
def moveTo (c : Cursor) (before : Token) (pages : Bool) (p : Place) : Cursor :=
  let t := p.trivia pages c.size
  let (token, length) := Token.scan t.start.rest
  { c with
    before := before
    ended := p
    resumes := t.resumes
    comments := t.comments ++ c.comments.dropWhile fun t => p.offset ≤ t.start
    start := t.start
    token := token
    stop := t.start.skip length }

/-- The cursor on the first token of a text. -/
def ofText (language : Language) (forgiving : Bool) (text : List Char) : Cursor :=
  let p : Place := ⟨text, 0⟩
  let c : Cursor :=
    { language := language, size := text.length + 1, forgiving := forgiving, before := .stray,
      ended := p, resumes := [], comments := [], start := p, token := .finish, stop := p }
  c.moveTo .stray true p

/-- The cursor on the next token. -/
def next (c : Cursor) : Cursor :=
  c.moveTo c.token (Token.isOpen c.before c.token) c.stop

/-- The cursor past the page comments that stand here. -/
def settled (c : Cursor) : Cursor :=
  if c.start.pageComment?.isSome then c.moveTo c.before true c.ended else c

/-- Whether the line break, closing brace or end before the token ends a
    statement. -/
def lineEnds (c : Cursor) (follow : Follow) : Bool :=
  c.resumes.any (lineEndsHere c.language.typed follow)

/-- Whether the token is the sign `s`. -/
def onSign (c : Cursor) (s : String) : Bool :=
  c.token == .sign s

/-- Whether the token is the word `w`. -/
def onWord (c : Cursor) (w : String) : Bool :=
  c.token == .word w

/-- Whether the token is some word. -/
def onSomeWord (c : Cursor) : Bool :=
  match c.token with
  | .word _ => true
  | _ => false

end Cursor

end RoleLint.Grammar
