import RoleLint.Grammar.Literal

/- Type annotations around names: arguments and parameters in angle brackets, types
   after a colon, and decorators. A closing angle bracket may be the first
   character of a longer sign, so it is passed on its own.

   Correspondence with `tree_sitter_typescript`: `type_arguments`, `type_parameters`,
   `type_annotation`, `decorator`. -/
namespace RoleLint.Grammar

/-- Whether the current token starts with a closing angle bracket. -/
def Cursor.onCloseAngle (c : Cursor) : Bool :=
  match c.token with
  | .sign s => s.toList.head? == some '>'
  | _ => false

namespace Parser

variable (read : Reader)

/-- Items with commas between them, in angle brackets; at least one. -/
def angleList (item : Parser Tree) : Parser (List Tree) := do
  sign "<"
  let first ← item
  let found ← iterate [first] fun acc => do
    if ← sign? "," then
      if (← cursor).onCloseAngle then pure none
      else
        let x ← item
        pure (some (x :: acc))
    else pure none
  guard (← cursor).onCloseAngle
  advanceChar
  pure found.reverse

/-- `<A, B>` after a name. -/
def typeArguments : Parser Tree :=
  branch .other (angleList (read (.type .inner true)))

/-- One type parameter, as `const T extends A = B`. -/
def typeParameter : Parser Tree :=
  branch .other do
    let c ← cursor
    if c.onWord "const" && c.next.onSomeWord then advance
    let name ← anyWord
    let bound ←
      if (← word? "extends") || (← sign? ":") then do
        let t ← read (.type .inner true)
        pure [t]
      else pure []
    let standard ←
      if ← sign? "=" then do
        let t ← read (.type .inner true)
        pure [t]
      else pure []
    pure (name :: bound ++ standard)

/-- `<T, U>` before parameters. -/
def typeParameters : Parser Tree :=
  branch .other (angleList (typeParameter read))

/-- Type parameters where the language has them and they stand here. -/
def typeParameters? : Parser (List Tree) := do
  if (← typed) && (← atSign "<") then
    let t ← typeParameters read
    pure [t]
  else pure []

/-- A type after a colon, where the language has them and a colon stands here. -/
def annotation? (flow : Flow) : Parser (List Tree) := do
  if (← typed) && (← atSign ":") then do
    advance
    let t ← read (.type flow true)
    pure [t]
  else pure []

/-- What a function may return: a type, or a claim about a parameter such as
    `x is T` and `asserts x`. -/
def resultType (flow : Flow) : Parser Tree := do
  let c ← cursor
  let d := c.next
  if c.onWord "asserts" && d.onSomeWord && !(flow.breaks && d.lineEnds ⟨false, false⟩) &&
      !d.onWord "is" then
    branch .other do
      advance
      let name ← anyWord
      if ← word? "is" then
        let t ← read (.type flow true)
        pure [name, t]
      else pure [name]
  else if c.onSomeWord && d.onWord "is" && !(flow.breaks && d.lineEnds ⟨false, false⟩) then
    branch .other do
      let name ← anyWord
      advance
      let t ← read (.type flow true)
      pure [name, t]
  else read (.type flow true)

/-- The return type after a parameter list. -/
def resultAnnotation? (flow : Flow) : Parser (List Tree) := do
  if (← typed) && (← atSign ":") then do
    advance
    let t ← resultType read flow
    pure [t]
  else pure []

/-! ## Decorators -/

/-- `a`, `a.b` or `a.b(x)` after the mark of a decorator. -/
def decoratorTarget : Parser Tree := do
  guard (← cursor).onSomeWord
  let name ← leaf .identifier
  let path ← iterate name fun left => do
    if ← atSign "." then
      let t ← grow .member left do
        advance
        let p ← anyWord
        pure [left.filling .object, p]
      pure (some t)
    else pure none
  let c ← cursor
  if c.onSign "(" || (c.language.typed && c.onSign "<") then
    grow .call path do
      let types ← if c.onSign "<" then (do let t ← typeArguments read; pure [t]) else pure []
      let args ← arguments read
      pure (path.filling .callee :: types ++ [args.filling .arguments])
  else pure path

/-- `@a`, `@a.b(x)`; in the typed languages also `@(a.b(x))`. -/
def decorator : Parser Tree :=
  branch .other do
    sign "@"
    if (← typed) && (← atSign "(") then
      let t ← branch .parenthesized do
        advance
        let x ← decoratorTarget read
        sign ")"
        pure [x]
      pure [t]
    else
      let t ← decoratorTarget read
      pure [t]

/-- Any number of decorators. -/
def decorators : Parser (List Tree) :=
  many (·.onSign "@") do
    let d ← decorator read
    pure [d]

end Parser

end RoleLint.Grammar
