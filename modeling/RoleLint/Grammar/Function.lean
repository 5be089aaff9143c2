import RoleLint.Grammar.TypeExpression

/- Functions in all their forms: declarations and signatures, function expressions,
   arrows, and the methods of object literals. An opening brace after an arrow or
   at the start of a statement may open a block or an object; the two tokens
   after it say which reading comes first.

   Correspondence with `tree_sitter_javascript`: `function_declaration`,
   `function_expression`, `arrow_function`, `object`, `array`, and with
   `tree_sitter_typescript`: `function_signature`. -/
namespace RoleLint.Grammar.Parser

variable (read : Reader)

/-! ## Blocks and objects after an opening brace -/

/-- Words that start a statement that is no expression. -/
def statementWords : List String :=
  ["if", "for", "while", "do", "switch", "try", "with", "return", "throw", "break", "continue",
    "debugger", "var", "const", "function", "class", "import", "export"]

/-- How to read an opening brace that may open a block or an object. -/
inductive BraceReading where
  | block
  /-- An object if it can be one: `{ a: b`. -/
  | objectFirst
  /-- A block if it can be one, as `{ f(`, else an object with a method. -/
  | blockFirst
  deriving DecidableEq

/-- The reading that the two tokens after the brace suggest. -/
def braceReading (c : Cursor) : BraceReading :=
  let d := c.next
  match d.token with
  | .word w =>
    if statementWords.contains w then .block
    else
      let e := d.next
      if e.onSign ":" then .objectFirst
      else if e.onSign "(" then .blockFirst
      else if ["get", "set", "async", "static"].contains w &&
          (e.startsPropertyName || e.onSign "*") then .blockFirst
      else .block
  | .quoted | .number => if d.next.onSign ":" then .objectFirst else .blockFirst
  | .sign "[" | .sign "..." | .sign "*" => .blockFirst
  | _ => .block

/-! ## Function declarations and expressions -/

/-- Whether `async` stands here as the start of a function. -/
def startsAsyncFunction (c : Cursor) : Bool :=
  c.onWord "async" && c.next.onWord "function" && !c.next.lineEnds ⟨true, false⟩

/-- A function used as a value; its name is optional. -/
def functionExpression : Parser Tree :=
  branch .functionExpression do
    let _ ← word? "async"
    word "function"
    let _ ← sign? "*"
    let name ←
      if (← cursor).onSomeWord then (do let n ← bindingName; pure [n.filling .name]) else pure []
    let s ← signature read .inner
    let b ← read (.block false)
    pure (name ++ s ++ [b.filling .body])

/-- A function declaration; in the typed languages it may end without a body. -/
def functionDeclaration : Parser Tree :=
  branch .functionDeclaration do
    let _ ← word? "async"
    word "function"
    let _ ← sign? "*"
    let name ← bindingName
    let s ← signature read .outer
    let c ← cursor
    if c.onSign "\x7b" || !c.language.typed then
      let b ← read (.block true)
      pure (name.filling .name :: s ++ [b.filling .body])
    else
      semicolon ⟨false, true⟩
      pure (name.filling .name :: s)

/-- Whether the cursor stands on a function with a name, or on `async` before one. -/
def startsFunctionDeclaration (c : Cursor) : Bool :=
  let d := if startsAsyncFunction c then c.next else c
  d.onWord "function" &&
    (let e := d.next
     let f := if e.onSign "*" then e.next else e
     f.onSomeWord)

/-! ## Methods and objects -/

/-- Words that may stand before a method. -/
def methodModifiers (l : Language) : List String :=
  if l.typed then
    ["public", "private", "protected", "static", "override", "readonly", "async", "get", "set"]
  else ["static", "async", "get", "set"]

/-- The parameters and the body of a method. -/
def methodTail (flow : Flow) : Parser (List Tree) := do
  let s ← signature read flow
  let b ← read (.block false)
  pure (s ++ [b.filling .body])

/-- A member of an object literal. -/
def objectMember : Parser Tree := do
  let c ← cursor
  if c.onSign "..." then spread read
  else
    branchAs do
      let _ ← many
        (fun c =>
          match c.token with
          | .word w =>
            (methodModifiers c.language).contains w &&
              (c.next.startsPropertyName || c.next.onSign "*")
          | _ => false)
        (do advance; pure ([] : List Tree))
      let star ← sign? "*"
      let bare := !star && (← cursor).start.offset == c.start.offset
      let name ← propertyName read
      let d ← cursor
      let e := if d.language.typed && d.onSign "?" then d.next else d
      if e.onSign "(" || (e.language.typed && e.onSign "<") then
        resume e
        let m ← methodTail read .inner
        pure (.method, name :: m)
      else
        guard bare
        if ← sign? ":" then
          let x ← read (.expression .inner)
          pure (.other, [name, x])
        else
          match c.token with
          | .word w =>
            guard (c.language.isOperandName w || w == "yield" || w == "await")
            pure (.other, [name])
          | _ => fail

/-- An object literal. -/
def objectLiteral : Parser Tree :=
  branch .other do
    sign "\x7b"
    looseList "\x7d" (objectMember read)

/-- An array literal. -/
def arrayLiteral : Parser Tree :=
  branch .other do
    sign "["
    looseList "]" (element read)

/-! ## Arrows -/

/-- The body of an arrow function: a block, or an expression. -/
def arrowBody (flow : Flow) : Parser Tree := do
  let c ← cursor
  if c.onSign "\x7b" then
    match braceReading c with
    | .block => read (.block false)
    | .objectFirst => (read (.expression flow)).or (read (.block false))
    | .blockFirst => (read (.block false)).or (read (.expression flow))
  else read (.expression flow)

/-- The parameters of an arrow function in parentheses, up to the arrow. -/
def arrowHead (flow : Flow) : Parser (List Tree) := do
  let types ← typeParameters? read
  let ps ← parameters read
  let t ← if flow.plainArrow then pure [] else resultAnnotation? read .inner
  sign "=>"
  pure (types ++ ps :: t)

/-- An arrow function with a parameter list, if one stands here. Once its arrow
    is seen there is no other reading. -/
def arrowFunction? (flow : Flow) : Parser (Option Tree) := do
  let c ← cursor
  if c.onWord "async" then resume c.next
  match ← attempt (arrowHead read flow) with
  | none =>
    resume c
    pure none
  | some head =>
    let body ← arrowBody read flow
    let d ← cursor
    pure (some
      (Tree.branch .arrowFunction c.start.offset d.ended.offset (head ++ [body.filling .body])))

/-- An arrow function with a single bare parameter. -/
def bareArrow (flow : Flow) : Parser Tree :=
  branch .arrowFunction do
    let c ← cursor
    if c.onWord "async" && !c.next.onSign "=>" then advance
    let p ← leaf .identifier
    sign "=>"
    let body ← arrowBody read flow
    pure [p, body.filling .body]

/-- Whether an arrow function with a bare parameter stands here. -/
def startsBareArrow (c : Cursor) : Bool :=
  match c.token with
  | .word w =>
    let d := c.next
    if d.onSign "=>" then c.language.isOperandName w || w == "yield" || w == "await"
    else
      w == "async" && d.onSomeWord && d.next.onSign "=>" && !d.lineEnds ⟨true, false⟩
  | _ => false

end RoleLint.Grammar.Parser
