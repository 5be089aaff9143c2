import RoleLint.Grammar.Annotation

/- Patterns and parameters. A pattern is a name, a path such as `a.b[0]`, a
   destructuring of an object or an array, or a rest of one of these. Patterns
   never contain calls, so that trying one before an expression stays cheap.

   Correspondence with `tree_sitter_javascript`: `pattern`, `formal_parameters`, and with
   `tree_sitter_typescript`: `required_parameter`, `optional_parameter`. -/
namespace RoleLint.Grammar.Parser

variable (read : Reader)

/-- A name or a path of members and subscripts from it. -/
def pathPattern : Parser Tree := do
  let c ← cursor
  let head ←
    match c.token with
    | .word w => do
      guard (c.language.isOperandName w || w == "this" || w == "super" || w == "yield" ||
        w == "await")
      leaf (if valueWords.contains w then .other else .identifier)
    | _ => fail
  let path ← iterate head fun left => do
    let d ← cursor
    if d.onSign "." || (d.onSign "?." && (d.next.onSomeWord || d.next.token == .privateName)) then
      let t ← grow .member left do
        advance
        let p ← memberName
        pure [left.filling .object, p]
      pure (some t)
    else if d.onSign "[" then
      let t ← grow .subscript left do
        advance
        let x ← expressions read .inner
        sign "]"
        pure [left.filling .object, x]
      pure (some t)
    else if d.language.typed && d.onSign "!" then
      let t ← grow .asserted left do
        advance
        pure [left]
      pure (some t)
    else pure none
  guard (head.kind == .identifier || path.kind != .other)
  pure path

/-- A default value after an equals sign. -/
def initializer? (flow : Flow) : Parser (List Tree) := do
  if ← sign? "=" then
    let x ← read (.expression flow)
    pure [x]
  else pure []

/-- A pattern with an optional default value. -/
def patternWithDefault : Parser Tree :=
  branch .other do
    let p ← read .pattern
    let d ← initializer? read .inner
    pure (p :: d)

/-- `...p` -/
def restPattern : Parser Tree :=
  branch .other do
    sign "..."
    let p ← read .pattern
    pure [p]

/-- `[a, , b = 1]` -/
def arrayPattern : Parser Tree :=
  branch .other do
    sign "["
    looseList "]" (patternWithDefault read)

/-- A member of an object pattern. -/
def objectPatternMember : Parser Tree := do
  let c ← cursor
  if c.onSign "..." then restPattern read
  else
    branch .other do
      let name ← propertyName read
      if ← sign? ":" then
        let p ← patternWithDefault read
        pure [name, p]
      else
        match c.token with
        | .word w =>
          guard (c.language.isOperandName w || w == "yield" || w == "await")
          let d ← initializer? read .inner
          pure (name :: d)
        | _ => fail

/-- An object pattern such as `{ a, b: c = 1, ...d }`. -/
def objectPattern : Parser Tree :=
  branch .other do
    sign "\x7b"
    looseList "\x7d" (objectPatternMember read)

/-- Any pattern. -/
def pattern : Parser Tree := do
  let c ← cursor
  if c.onSign "\x7b" then objectPattern read
  else if c.onSign "[" then arrayPattern read
  else if c.onSign "..." then restPattern read
  else pathPattern read

/-! ## Parameters -/

/-- Words that may stand before a parameter in a typed language. -/
def parameterModifiers : List String :=
  ["public", "private", "protected", "override", "readonly"]

/-- Whether a pattern can start with the current token. -/
def startsPattern (c : Cursor) : Bool :=
  c.onSomeWord || c.onSign "\x7b" || c.onSign "["

/-- A parameter with its modifiers, type and default value. -/
def parameter : Parser Tree := do
  if ← typed then
    branch .other do
      let marks ← decorators read
      let _ ← many
        (fun c =>
          match c.token with
          | .word w => parameterModifiers.contains w && startsPattern c.next
          | _ => false)
        (do advance; pure ([] : List Tree))
      let c ← cursor
      let p ← if c.onWord "this" then leaf .other else read .pattern
      let _ ← sign? "?"
      let t ← annotation? read .inner
      let d ← initializer? read .inner
      pure (marks ++ p :: t ++ d)
  else patternWithDefault read

/-- A parameter list in parentheses. -/
def parameters : Parser Tree :=
  branch .other do
    sign "("
    strictList ")" (parameter read)

end RoleLint.Grammar.Parser
