import RoleLint.Grammar.Class

/- Markup elements inside expressions. Between an opening and a closing tag the
   text is read raw: up to the next angle bracket, brace or ampersand everything
   is content, comments and quotes included; only a page comment is none, from `<!--`
   to the end of the line. The names of the two tags need not agree.

   Correspondence with `tree_sitter_javascript`: `jsx_element`, `jsx_self_closing_element`,
   `jsx_attribute`, `jsx_text`. -/
namespace RoleLint.Grammar

/-! ## Characters -/

/-- The length of a character reference such as `&amp;` or `&#x20;` after its
    ampersand. -/
def referenceLength (cs : List Char) : Nat :=
  let closed (n : Nat) (limit : Nat) (extra : Nat) (rest : List Char) : Nat :=
    if 0 < n && n ≤ limit && rest.head? == some ';' then n + extra + 1 else 0
  match cs with
  | '#' :: 'x' :: ds | '#' :: 'X' :: ds =>
    let n := (ds.takeWhile isHexDigit).length
    closed n 6 2 (ds.drop n)
  | '#' :: ds =>
    let n := (ds.takeWhile Char.isDigit).length
    closed n 5 1 (ds.drop n)
  | _ =>
    let n := (cs.takeWhile Char.isAlpha).length
    closed n 30 0 (cs.drop n)

/-- The length of an attribute text after its opening quote, closing quote
    included. An ampersand before a letter or a hash must start a reference. -/
def attributeTextLength (quote : Char) (skip seen : Nat) : List Char → Option Nat
  | [] => none
  | c :: cs =>
    match skip with
    | k + 1 => attributeTextLength quote k (seen + 1) cs
    | 0 =>
      if c == quote then some (seen + 1)
      else if c == '&' then
        if (cs.head?.map fun d => d == '#' || d.isAlpha).getD false then
          match referenceLength cs with
          | 0 => none
          | n => attributeTextLength quote n (seen + 1) cs
        else attributeTextLength quote 1 (seen + 1) cs
      else attributeTextLength quote 0 (seen + 1) cs

/-- Characters of a tag or attribute name with dashes. -/
def isDashedChar (c : Char) : Bool :=
  c.isAlphanum || c == '_' || c == '$' || c == '-'

/-- The length of the name at the head: a word, or letters and digits with
    dashes in between. -/
def markupNameLength (cs : List Char) : Nat :=
  match wordLength cs with
  | 0 => 0
  | n =>
    let dashed := (cs.takeWhile isDashedChar).length
    if n < dashed then dashed else n

/-- How a run of content ends. -/
inductive ContentEnd where
  /-- A tag of either kind. -/
  | tag
  /-- An expression in braces. -/
  | hole
  /-- A character reference. -/
  | reference
  /-- The end of the text, a closing angle bracket or a closing brace. -/
  | bad
  deriving DecidableEq

/-- The length of the raw content at the head, and what follows it. -/
def contentRun (seen : Nat) : List Char → ContentEnd × Nat
  | [] => (.bad, seen)
  | c :: cs =>
    if c == '<' then (.tag, seen)
    else if c == '\x7b' then (.hole, seen)
    else if c == '&' then (.reference, seen)
    else if c == '>' || c == '\x7d' || c.toNat == 0 then (.bad, seen)
    else contentRun (seen + 1) cs

namespace Parser

variable (read : Reader)

/-! ## Names and attributes -/

/-- One part of a tag or attribute name. -/
def markupWord : Parser Tree := do
  let c ← cursor
  match markupNameLength c.start.rest with
  | 0 => fail
  | n =>
    branch .identifier do
      jump (c.start.skip n)
      pure []

/-- The name of a tag: `a`, `a-b`, `a.b.c` or `x:y`. -/
def tagName : Parser Tree := do
  let head ← markupWord
  if ← atSign ":" then
    grow .other head do
      advance
      let w ← markupWord
      pure [head, w]
  else
    iterate head fun left => do
      if ← atSign "." then
        let t ← grow .member left do
          advance
          let w ← anyWord
          pure [left.filling .object, w]
        pure (some t)
      else pure none

/-- An expression in braces; it may be empty or spread. -/
def markupHole : Parser Tree :=
  branch .other do
    sign "\x7b"
    let c ← cursor
    if c.onSign "\x7d" then
      advance
      pure []
    else
      let x ← if c.onSign "..." then spread read else expressions read .inner
      sign "\x7d"
      pure [x]

/-- The value of an attribute: a text, an expression in braces or an element. -/
def attributeValue : Parser Tree := do
  let c ← cursor
  match c.start.rest with
  | q :: cs =>
    if q == '\x22' || q == '\x27' then
      match attributeTextLength q 0 1 cs with
      | some n =>
        branch .other do
          jump (c.start.skip n)
          pure []
      | none => fail
    else if c.onSign "\x7b" then markupHole read
    else read .markup
  | [] => fail

/-- An attribute, or an expression in braces in its place. -/
def markupAttribute : Parser Tree := do
  if ← atSign "\x7b" then markupHole read
  else
    branch .other do
      let head ← markupWord
      let name ←
        if ← sign? ":" then (do let w ← markupWord; pure [head, w]) else pure [head]
      if ← sign? "=" then
        let v ← attributeValue read
        pure (name ++ [v])
      else pure name

/-- Whether `/>` stands here, without a blank in it. -/
def onSelfClose (c : Cursor) : Bool :=
  match c.start.rest with
  | '/' :: '>' :: _ => true
  | _ => false

/-- Whether a closing angle bracket stands here. -/
def onTagEnd (c : Cursor) : Bool :=
  c.start.rest.head? == some '>'

/-- The name, type arguments and attributes of an opening tag. -/
def tagHead : Parser (List Tree) := do
  let name ← tagName
  let types ←
    if (← typed) && (← atSign "<") then (do let t ← typeArguments read; pure [t]) else pure []
  let attrs ← many (fun c => !onSelfClose c && !onTagEnd c && c.token != .finish) do
    let a ← markupAttribute read
    pure [a]
  pure (name :: types ++ attrs)

/-! ## Elements -/

/-- `</a>`; the cursor stands on its angle bracket. -/
def closingTag : Parser (List Tree) := do
  let c ← cursor
  jump (c.start.skip 2)
  let name ← if onTagEnd (← cursor) then pure [] else (do let t ← tagName; pure [t])
  guard (onTagEnd (← cursor))
  pure name

/-- The content of an element from the place `p` on, with its closing tag. The
    parser stops on the last character of that tag. -/
def content (p : Place) : Parser (List Tree) := do
  let step : List Tree × Option Place → Parser (Option (List Tree × Option Place)) :=
    fun (acc, place) => do
      match place with
      | none => pure none
      | some q =>
        match contentRun 0 q.rest with
        | (.bad, n) =>
          jump (q.skip n)
          fail
        | (.reference, n) =>
          let r := q.skip n
          match referenceLength (r.rest.drop 1) with
          | 0 =>
            jump r
            fail
          | k => pure (some (acc, some (r.skip (k + 1))))
        | (.hole, n) =>
          jump (q.skip n)
          let x ← markupHole read
          pure (some (x :: acc, some (← cursor).ended))
        | (.tag, n) =>
          let r := q.skip n
          jump r
          match r.rest, r.pageComment? with
          | _, some e => pure (some (Tree.leaf .other r.offset e.offset :: acc, some e))
          | '<' :: '/' :: _, none =>
            let name ← closingTag
            pure (some (name.reverse ++ acc, none))
          | _, none =>
            let x ← read .markup
            pure (some (x :: acc, some (← cursor).ended))
  let found ← iterate ([], some p) step
  pure found.1.reverse

/-- Past the closing angle bracket that stands here. -/
def tagEnd : Parser Unit := do
  guard (onTagEnd (← cursor))
  advanceChar

/-- An element, a self-closing element or a fragment. -/
def markupElement : Parser Tree :=
  branch .markup do
    let c ← cursor
    guard (c.language.markup && c.start.rest.head? == some '<')
    jump (c.start.skip 1)
    let head ← if onTagEnd (← cursor) then pure [] else tagHead read
    let d ← cursor
    if onSelfClose d && !head.isEmpty then
      jump (d.start.skip 2)
      pure head
    else
      guard (onTagEnd d)
      let inside ← content read (d.start.skip 1)
      tagEnd
      pure (head ++ inside)

end Parser

end RoleLint.Grammar
