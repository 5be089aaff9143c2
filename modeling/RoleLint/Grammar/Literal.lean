import RoleLint.Grammar.Word

/- Literals that hold expressions: templates and patterns between slashes, lists
   of arguments, and the names of properties. Templates and patterns are read
   character by character, because blanks and comments mean nothing inside.

   Correspondence with `tree_sitter_javascript`: `template_string`, `regex`, `arguments`,
   `parenthesized_expression`, `_property_name`. -/
namespace RoleLint.Grammar.Parser

variable (read : Reader)

/-- Expressions with commas between them; two or more make a node of their own. -/
def expressions (flow : Flow) : Parser Tree := do
  let first ← read (.expression flow)
  if ← atSign "," then
    grow .other first do
      let rest ← many (·.onSign ",") do
        advance
        let x ← read (.expression flow)
        pure [x]
      pure (first :: rest)
  else pure first

/-- `...x` -/
def spread : Parser Tree :=
  branch .other do
    sign "..."
    let x ← read (.expression .inner)
    pure [x]

/-- An element of an argument list or an array. -/
def element : Parser Tree := do
  if ← atSign "..." then spread read else read (.expression .inner)

/-- `(a, ...b)` -/
def arguments : Parser Tree :=
  branch .other do
    sign "("
    looseList ")" (element read)

/-- `(x)`; the typed languages allow a type after the expression. -/
def parenthesized : Parser Tree :=
  branch .parenthesized do
    sign "("
    let x ← expressions read .inner
    let kids ←
      if (← typed) && (← atSign ":") then do
        advance
        let t ← read (.type .inner true)
        pure [x, t]
      else pure [x]
    sign ")"
    pure kids

/-! ## Templates -/

/-- How a run of template characters ends. -/
inductive TemplateEnd where
  /-- The closing quote. -/
  | close
  /-- The opening of a substitution. -/
  | hole
  /-- The end of the text, a null character or a bad escape. -/
  | bad
  deriving DecidableEq

/-- The length of the template text at the head, with the mark that ends it. -/
def templateRun (skip seen : Nat) : List Char → TemplateEnd × Nat
  | [] => (.bad, seen)
  | c :: cs =>
    match skip with
    | k + 1 => templateRun k (seen + 1) cs
    | 0 =>
      if c == '\x60' then (.close, seen + 1)
      else if c == '$' && cs.head? == some '\x7b' then (.hole, seen + 2)
      else if c.toNat == 0 then (.bad, seen)
      else if c == '\\' then
        match escapeLength (c :: cs) with
        | 0 => (.bad, seen)
        | k + 1 => templateRun k (seen + 1) cs
      else templateRun 0 (seen + 1) cs

/-- The substitutions of a template from the place `p` on, each read by `hole`. -/
def templateHoles (hole : Parser Tree) (p : Place) : Parser (List Tree) := do
  let step : List Tree × Option Place → Parser (Option (List Tree × Option Place)) :=
    fun (acc, place) => do
      match place with
      | none => pure none
      | some q =>
        match templateRun 0 0 q.rest with
        | (.bad, _) => fail
        | (.close, n) =>
          jump (q.skip n)
          pure (some (acc, none))
        | (.hole, n) =>
          jump (q.skip n)
          let x ← branch .other do
            let x ← hole
            pure [x]
          let c ← cursor
          guard (c.onSign "\x7d")
          pure (some (x :: acc, some c.stop))
  let found ← iterate ([], some p) step
  pure found.1.reverse

/-- A template literal. -/
def template : Parser Tree :=
  branch .template do
    let c ← cursor
    guard (c.onSign "`")
    templateHoles (expressions read .inner) c.stop

/-- A template literal in a type. -/
def templateType : Parser Tree :=
  branch .other do
    let c ← cursor
    guard (c.onSign "`")
    templateHoles (read (.type .inner true)) c.stop

/-! ## Patterns between slashes -/

/-- `/ab+c/gi` -/
def slashPattern : Parser Tree := do
  let c ← cursor
  match c.start.rest with
  | '/' :: cs =>
    match patternLength false false 0 cs with
    | some n =>
      branch .other do
        jump (c.start.skip (n + 1))
        pure []
    | none => fail
  | _ => fail

/-! ## Property names -/

/-- `a`, `#a`, `'a'`, `1` or `[x]` -/
def propertyName : Parser Tree := do
  let c ← cursor
  match c.token with
  | .word _ | .privateName | .number | .quoted => leaf .other
  | .sign "[" =>
    branch .other do
      advance
      let x ← read (.expression .inner)
      sign "]"
      pure [x]
  | _ => fail

/-- The name after a dot. -/
def memberName : Parser Tree := do
  match (← cursor).token with
  | .word _ | .privateName => leaf .other
  | _ => fail

end RoleLint.Grammar.Parser
