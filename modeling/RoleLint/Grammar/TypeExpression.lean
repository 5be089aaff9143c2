import RoleLint.Grammar.Pattern

/- Types of the typed languages. They matter to the analysis only through what they
   allow to be skipped, so every type is an `other` node; what they hold that can
   be evaluated (`typeof f(x)`, default values of parameters) keeps its shape.

   1. names, queries and literals;
   2. function types;
   3. object types and their members;
   4. tuples;
   5. the operators: postfix brackets, `|`, `&` and the conditional.

   Correspondence with `tree_sitter_typescript`: `type`, `primary_type`, `object_type`,
   `function_type`. -/
namespace RoleLint.Grammar.Parser

variable (read : Reader)

/-- A line break that ends a type does not care for operators. -/
def typeEnds (flow : Flow) (c : Cursor) : Bool :=
  flow.breaks && c.lineEnds ⟨false, false⟩

/-! ## Names, queries, literals -/

/-- `A.B<C>` -/
def namedType : Parser Tree :=
  branch .other do
    let head ← anyWord
    let tail ← many (fun c => c.onSign "." && c.next.onSomeWord) do
      advance
      let w ← anyWord
      pure [w]
    let args ←
      if ← atSign "<" then (do let t ← typeArguments read; pure [t]) else pure []
    pure (head :: tail ++ args)

/-- The operand of `typeof` or `import(...)`: a path of members, subscripts,
    calls and instantiations. -/
def queriedPath (head : Tree) (flow : Flow) : Parser Tree :=
  iterate head fun left => do
    let c ← cursor
    if typeEnds flow c then pure none
    else if c.onSign "." || c.onSign "?." then
      let t ← grow .member left do
        advance
        let p ← memberName
        pure [left.filling .object, p]
      pure (some t)
    else if c.onSign "[" && !c.next.onSign "]" && (c.next.token == .quoted || c.next.token == .number)
    then
      let t ← grow .subscript left do
        advance
        let x ← leaf .other
        sign "]"
        pure [left.filling .object, x]
      pure (some t)
    else if c.onSign "(" then
      let t ← grow .call left do
        let a ← arguments read
        pure [left.filling .callee, a.filling .arguments]
      pure (some t)
    else if c.onSign "<" then
      let t ← grow .other left do
        let a ← typeArguments read
        pure [left, a]
      pure (some t)
    else pure none

/-- `typeof a.b` -/
def typeQuery (flow : Flow) : Parser Tree :=
  branch .other do
    word "typeof"
    let c ← cursor
    guard c.onSomeWord
    let head ← leaf (if valueWords.any (c.onWord ·) then .other else .identifier)
    let t ← queriedPath read head flow
    pure [t]

/-- `import('a').B` -/
def importType (flow : Flow) : Parser Tree :=
  branch .other do
    guard ((← cursor).next.onSign "(")
    let head ← leaf .other
    let t ← queriedPath read head flow
    pure [t]

/-! ## Functions -/

/-- The head of a function type up to its arrow. -/
def functionTypeHead : Parser (List Tree) := do
  let types ← typeParameters? read
  let ps ← parameters read
  sign "=>"
  pure (types ++ [ps])

/-- The parameters and the result type of a signature. -/
def signature (flow : Flow) : Parser (List Tree) := do
  let types ← typeParameters? read
  let ps ← parameters read
  let t ← resultAnnotation? read flow
  pure (types ++ ps :: t)

/-! ## Object types -/

/-- Words that may stand before a member of an object type. -/
def memberTypeModifiers : List String :=
  ["public", "private", "protected", "static", "override", "readonly", "async", "get", "set"]

/-- The type after an index signature or a mapped type; `?`, `+?` and `-?` may
    stand before its colon. -/
def indexAnnotation (flow : Flow) : Parser (List Tree) := do
  let c ← cursor
  if c.onSign "+" || c.onSign "-" then do
    advance
    sign "?"
  else do
    let _ ← sign? "?"
  sign ":"
  let t ← read (.type flow true)
  pure [t]

/-- `[key: string]: T` or `[K in T as U]: V` -/
def indexSignature (flow : Flow) : Parser Tree :=
  branch .other do
    let c ← cursor
    if c.onSign "+" || c.onSign "-" then do
      advance
      word "readonly"
    else do
      let _ ← word? "readonly"
    sign "["
    let name ← anyWord
    let inside ←
      if ← sign? ":" then do
        let t ← read (.type .inner true)
        pure [t]
      else do
        word "in"
        let t ← read (.type .inner true)
        if ← word? "as" then
          let u ← read (.type .inner true)
          pure [t, u]
        else pure [t]
    sign "]"
    let t ← indexAnnotation read flow
    pure (name :: inside ++ t)

/-- A property or method of an object type. -/
def namedMemberType (flow : Flow) : Parser Tree :=
  branch .other do
    let _ ← many
      (fun c =>
        match c.token with
        | .word w =>
          memberTypeModifiers.contains w && !typeEnds flow c.next &&
            (c.next.startsPropertyName || c.next.onSign "*")
        | _ => false)
      (do advance; pure ([] : List Tree))
    let _ ← sign? "*"
    let name ← propertyName read
    let _ ← sign? "?"
    let c ← cursor
    if (c.onSign "(" || c.onSign "<") && !typeEnds flow c then
      let s ← signature read flow
      pure (name :: s)
    else
      let t ← annotation? read flow
      pure (name :: t)

/-- A member of an object type. -/
def memberType (flow : Flow) : Parser Tree := do
  let c ← cursor
  if c.onSign "(" || c.onSign "<" then branch .other (signature read flow)
  else
    let d := if c.onWord "abstract" then c.next else c
    if d.onWord "new" && (d.next.onSign "(" || d.next.onSign "<") then
      branch .other do
        resume d.next
        signature read flow
    else (indexSignature read flow).or (namedMemberType read flow)

/-- `{ a: A; b(): B }`; members are separated by commas, semicolons or line
    breaks. -/
def objectType : Parser Tree :=
  branch .other do
    sign "\x7b"
    let c ← cursor
    if c.onSign "," || c.onSign ";" then advance
    let found ← iterate ([], true) fun (acc, fresh) => do
      let c ← cursor
      if c.onSign "\x7d" then pure none
      else
        guard fresh
        let m ← memberType read .outer
        let d ← cursor
        if d.onSign "," || d.onSign ";" then do
          advance
          pure (some (m :: acc, true))
        else pure (some (m :: acc, d.lineEnds ⟨false, false⟩))
    sign "\x7d"
    pure found.1.reverse

/-! ## Tuples -/

/-- A member of a tuple type, with an optional label. -/
def tupleMember : Parser Tree :=
  branch .other do
    let _ ← sign? "..."
    let c ← cursor
    let d := c.next
    let labelled := c.onSomeWord &&
      (d.onSign ":" || (d.onSign "?" && d.next.onSign ":"))
    if labelled then
      advance
      let _ ← sign? "?"
      sign ":"
    let t ← read (.type .inner true)
    let _ ← sign? "?"
    pure [t]

/-- `[A, b: B, ...C]` -/
def tupleType : Parser Tree :=
  branch .other do
    sign "["
    strictList "]" (tupleMember read)

/-! ## Operators -/

/-- A type without operators around it. -/
def primaryType (flow : Flow) : Parser Tree := do
  let c ← cursor
  match c.token with
  | .quoted | .number => leaf .other
  | .sign "\x7b" => objectType read
  | .sign "[" => tupleType read
  | .sign "`" => templateType read
  | .sign "(" =>
    branch .other do
      advance
      let t ← read (.type .inner true)
      sign ")"
      pure [t]
  | .sign "-" | .sign "+" =>
    branch .other do
      advance
      guard ((← cursor).token == .number)
      advance
      pure []
  | .sign "*" => leaf .other
  | .word "typeof" => typeQuery read flow
  | .word "import" => importType read flow
  | .word "unique" =>
    if c.next.onWord "symbol" then
      branch .other do
        advance
        advance
        pure []
    else namedType read
  | .word "new" | .word "in" | .word "extends" => fail
  | .word _ => namedType read
  | _ => fail

/-- A type with brackets after it: `A[]` and `A[K]`. -/
def postfixType (flow : Flow) : Parser Tree := do
  let head ← primaryType read flow
  iterate head fun left => do
    let c ← cursor
    if !typeEnds flow c && c.onSign "[" then
      let t ← grow .other left do
        advance
        if ← sign? "]" then pure [left]
        else
          let k ← read (.type .inner true)
          sign "]"
          pure [left, k]
      pure (some t)
    else pure none

/-- `infer T extends U`; before a question mark `extends` belongs to the
    conditional around it. -/
def inferType (flow : Flow) : Parser Tree :=
  branch .other do
    word "infer"
    let name ← anyWord
    let bound ← attempt do
      word "extends"
      let t ← read (.type flow false)
      guard (!(← cursor).onSign "?")
      pure t
    pure (name :: bound.toList)

/-- A function or constructor type. -/
def functionType (flow : Flow) : Parser Tree :=
  branch .other do
    let c ← cursor
    let d := if c.onWord "abstract" then c.next else c
    if d.onWord "new" then resume d.next
    let head ← functionTypeHead read
    let result ← resultType read flow
    pure (head ++ [result])

/-- Whether a function type may start here. -/
def startsFunctionType (c : Cursor) : Bool :=
  c.onSign "(" || c.onSign "<" ||
    (c.onWord "new" && (c.next.onSign "(" || c.next.onSign "<")) ||
    (c.onWord "abstract" && c.next.onWord "new")

/-- An operand of `|` and `&`; such a sign may also stand before it. -/
def typeOperand (flow : Flow) : Parser Tree := do
  let c ← cursor
  match c.token with
  | .sign "|" | .sign "&" | .sign "?" =>
    branch .other do
      advance
      let t ← read (.type flow false)
      pure [t]
  | .sign "||" | .sign "&&" =>
    branch .other do
      advanceChar
      let t ← read (.type flow false)
      pure [t]
  | .word "keyof" =>
    if c.next.onSomeWord || c.next.onSign "(" || c.next.onSign "[" || c.next.onSign "\x7b" then
      branch .other do
        advance
        let t ← postfixType read flow
        pure [t]
    else postfixType read flow
  | .word "readonly" =>
    branch .other do
      advance
      let t ← postfixType read flow
      pure [t]
  | .word "infer" => inferType read flow
  | _ =>
    if startsFunctionType c then (functionType read flow).or (postfixType read flow)
    else postfixType read flow

/-- Types joined by `|` and `&`, without the conditional. -/
def unionType (flow : Flow) : Parser Tree := do
  let first ← typeOperand read flow
  iterate first fun left => do
    let c ← cursor
    if typeEnds flow c then pure none
    else
      match c.token with
      | .sign "|" | .sign "&" =>
        let t ← grow .other left do
          advance
          let r ← typeOperand read flow
          pure [left, r]
        pure (some t)
      | .sign "||" | .sign "&&" =>
        let t ← grow .other left do
          advanceChar
          let r ← typeOperand read flow
          pure [left, r]
        pure (some t)
      | _ => pure none

/-- Any type. -/
def typeExpression (flow : Flow) (conditional : Bool) : Parser Tree := do
  let left ← unionType read flow
  let c ← cursor
  if conditional && c.onWord "extends" && !typeEnds flow c then
    grow .other left do
      advance
      let bound ← read (.type .inner false)
      sign "?"
      let yes ← read (.type .inner true)
      sign ":"
      let no ← read (.type flow true)
      pure [left, bound, yes, no]
  else pure left

end RoleLint.Grammar.Parser
