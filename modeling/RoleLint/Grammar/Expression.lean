import RoleLint.Grammar.Markup

/- Expressions. An operand is a value with everything that follows it directly
   (members, calls, subscripts), an arrow function, an assignment, or one of
   these after a sign such as `!`; operations join operands by precedence.

   In the typed languages `f<T>(x)` binds like a comparison on its left: after a
   sign, `await` or an arithmetic operator the whole operation so far is what is
   called. Comparisons themselves and everything looser leave the call to the
   operand.

   1. values;
   2. what follows a value;
   3. operands and assignments;
   4. operations, conditionals and generic calls.

   Correspondence with `tree_sitter_javascript` and `tree_sitter_typescript`: `expression`,
   `primary_expression`, `call_expression`, `binary_expression` and their alternatives. -/
namespace RoleLint.Grammar.Parser

variable (read : Reader)

/-! ## What can be assigned to or called -/

/-- Whether an equals sign may follow the tree. -/
def isTarget (t : Tree) : Bool :=
  [Kind.identifier, .member, .subscript, .asserted, .parenthesized].contains t.kind

/-- Whether the tree is a value rather than an operation. -/
def isPrimary (t : Tree) : Bool :=
  !([Kind.arrowFunction, .markup, .awaited, .construction].contains t.kind)

/-! ## Values -/

/-- An object or array, or the assignment to a pattern if an equals sign follows
    it. -/
def bracketed (flow : Flow) : Parser Tree := do
  let c ← cursor
  let literal : Parser Tree := do
    let t ← if c.onSign "[" then arrayLiteral read else objectLiteral read
    guard (!(← atSign "="))
    pure t
  literal.or do
    let p ← read .pattern
    grow .other p do
      sign "="
      let x ← read (.expression flow)
      pure [p, x]

/-- What `new` constructs: a value with members, subscripts and templates, but
    without calls. -/
def constructorPath (head : Tree) : Parser Tree :=
  iterate head fun left => do
    let c ← cursor
    if c.onSign "." || (c.onSign "?." && (c.next.onSomeWord || c.next.token == .privateName)) then
      let t ← grow .member left do
        advance
        let p ← memberName
        pure [left.filling .object, p]
      pure (some t)
    else if c.onSign "[" then
      let t ← grow .subscript left do
        advance
        let x ← expressions read .inner
        sign "]"
        pure [left.filling .object, x]
      pure (some t)
    else if c.onSign "`" then
      let t ← grow .call left do
        let a ← template read
        pure [left.filling .callee, a.filling .arguments]
      pure (some t)
    else if c.language.typed && c.onSign "!" then
      let t ← grow .asserted left do
        advance
        pure [left]
      pure (some t)
    else pure none

/-- A value: a literal, a name, a function, a class or an expression in
    brackets. `new` is read by the parser `construct`. -/
def value (flow : Flow) (construct : Parser Tree) : Parser Tree := do
  let c ← cursor
  match c.token with
  | .number | .quoted => leaf .other
  | .sign "`" => template read
  | .sign "(" => parenthesized read
  | .sign "[" | .sign "\x7b" => bracketed read flow
  | .sign "/" | .sign "/=" => slashPattern
  | .sign "@" => classExpression read
  | .privateName =>
    guard (c.next.onWord "in")
    leaf .other
  | .word w =>
    if startsAsyncFunction c || w == "function" then functionExpression read
    else if w == "class" then classExpression read
    else if w == "new" then construct
    else if w == "import" then
      guard (c.next.onSign "(" || c.next.onSign ".")
      leaf .other
    else if valueWords.contains w then leaf .other
    else if c.language.isOperandName w then leaf .identifier
    else if w == "await" && !c.language.typed then leaf .identifier
    else fail
  | _ => fail

/-- `new A.B(x)`; constructions nest, so `depth` bounds them. -/
def construction : Nat → Parser Tree
  | 0 => fail
  | depth + 1 => do
    if (← cursor).next.onSign "." then
      branch .other do
        advance
        advance
        word "target"
        pure []
    else
      branch .construction do
        word "new"
        let head ← value read .inner (construction depth)
        let path ← constructorPath read head
        let types ←
          if (← typed) && (← atSign "<") then
            (do let t ← attempt (typeArguments read); pure t.toList)
          else pure []
        let args ←
          if ← atSign "(" then (do let a ← arguments read; pure [a]) else pure []
        pure (path :: types ++ args)

/-! ## What follows a value -/

/-- One step after a value: a member, subscript, call or mark. Nothing is read
    after a line break that ends the statement. -/
def suffix? (flow : Flow) (left : Tree) : Parser (Option Tree) := do
  let c ← cursor
  if flow.breaks && c.lineEnds ⟨true, false⟩ then pure none
  else
    match c.token with
    | .sign "." =>
      let t ← grow .member left do
        advance
        let p ← memberName
        pure [left.filling .object, p]
      pure (some t)
    | .sign "?." =>
      let d := c.next
      if d.onSign "(" || (d.language.typed && d.onSign "<") then
        guard (isPrimary left)
        let t ← grow .call left do
          advance
          let types ←
            if d.onSign "<" then (do let t ← typeArguments read; pure [t]) else pure []
          let a ← arguments read
          pure (left.filling .callee :: types ++ [a.filling .arguments])
        pure (some t)
      else if d.onSign "[" then
        let t ← grow .subscript left do
          advance
          advance
          let x ← expressions read .inner
          sign "]"
          pure [left.filling .object, x]
        pure (some t)
      else
        let t ← grow .member left do
          advance
          let p ← memberName
          pure [left.filling .object, p]
        pure (some t)
    | .sign "[" =>
      let t ← grow .subscript left do
        advance
        let x ← expressions read .inner
        sign "]"
        pure [left.filling .object, x]
      pure (some t)
    | .sign "(" =>
      let t ← grow .call left do
        let a ← arguments read
        pure [left.filling .callee, a.filling .arguments]
      pure (some t)
    | .sign "`" =>
      if isPrimary left || left.kind == .construction then
        let t ← grow .call left do
          let a ← template read
          pure [left.filling .callee, a.filling .arguments]
        pure (some t)
      else pure none
    | .sign "++" | .sign "--" =>
      let t ← grow .other left do
        advance
        pure [left]
      pure (some t)
    | .sign "!" =>
      if c.language.typed then
        let t ← grow .asserted left do
          advance
          pure [left]
        pure (some t)
      else pure none
    | _ => pure none

/-- Everything that follows the value `head` directly. -/
def suffixes (flow : Flow) (head : Tree) : Parser Tree :=
  iterate head (suffix? read flow)

/-! ## Operands -/

/-- An assignment to `left`, if a sign for it follows. -/
def assignment (flow : Flow) (left : Tree) : Parser Tree := do
  let c ← cursor
  match c.token with
  | .sign s =>
    if isTarget left && assignmentSigns.contains s then
      grow .other left do
        advance
        let x ← read (.expression flow)
        pure [left, x]
    else pure left
  | _ => pure left

/-- A value with what follows it, or an assignment to that. -/
def valueOperand (flow : Flow) : Parser Tree := do
  let c ← cursor
  let head ← value read flow (construction read c.size)
  let left ← suffixes read flow head
  assignment read flow left

/-- `using x = y`: whether the word here declares a resource. -/
def startsUsing (c : Cursor) : Bool :=
  c.onWord "using" && c.next.onSomeWord && c.next.next.onSign "=" &&
    !c.next.lineEnds ⟨true, false⟩

/-- `yield`, `yield x` and `yield* x` -/
def yieldExpression (flow : Flow) : Parser Tree :=
  branch .other do
    advance
    let c ← cursor
    if flow.breaks && c.lineEnds ⟨true, false⟩ then pure []
    else if c.onSign "*" then
      advance
      let x ← read (.expression flow)
      pure [x]
    else if c.startsOperand then
      let x ← read (.expression flow)
      pure [x]
    else pure []

/-- An operand after a sign or word that stands before it. -/
def signedOperand (kind : Kind) (flow : Flow) : Parser Tree :=
  branch kind do
    advance
    -- after `await` an operator could follow: there it may be a name
    unless kind == .awaited do settle
    let x ← read (.operand flow)
    pure [x]

/-- Whether `await` waits for what follows rather than being a name. -/
def startsAwait (c : Cursor) : Bool :=
  c.onWord "await" && (c.language.typed || c.next.startsOperand)

/-- An operand at an opening angle bracket: a generic arrow function, an element,
    or in a typed language without markup a cast. -/
def angleOperand (flow : Flow) : Parser Tree := do
  let c ← cursor
  let arrow ← if c.language.typed then arrowFunction? read flow else pure none
  match arrow with
  | some t => suffixes read flow t
  | none =>
    if c.language.markup then
      let t ← read .markup
      suffixes read flow t
    else
      branch .other do
        let t ← typeArguments read
        let x ← read (.operand flow)
        pure [t, x]

/-- An operand of an operation. -/
def operand (flow : Flow) : Parser Tree := do
  let c ← cursor
  match c.token with
  | .sign "!" | .sign "~" | .sign "+" | .sign "-" | .sign "++" | .sign "--" =>
    signedOperand read .other flow
  | .sign "<" => angleOperand read flow
  | .sign "(" =>
    match ← arrowFunction? read flow with
    | some t => suffixes read flow t
    | none => valueOperand read flow
  | .word w =>
    if startsBareArrow c then
      let t ← bareArrow read flow
      suffixes read flow t
    else if w == "async" && (c.next.onSign "(" || (c.language.typed && c.next.onSign "<")) then
      match ← arrowFunction? read flow with
      | some t => suffixes read flow t
      | none => valueOperand read flow
    else if w == "typeof" || w == "void" || w == "delete" then signedOperand read .other flow
    else if startsAwait c then signedOperand read .awaited flow
    else if w == "yield" then yieldExpression read flow
    else if startsUsing c then
      branch .other do
        advance
        let x ← valueOperand read flow
        pure [x]
    else valueOperand read flow
  | _ => valueOperand read flow

/-! ## Operations -/

/-- How tightly comparisons bind. -/
def comparisonLevel : Nat := 8

/-- How tightly a sign binds its operands, and whether it groups to the right. -/
def signLevel? : String → Option (Nat × Bool)
  | "??" => some (1, false)
  | "||" => some (2, false)
  | "&&" => some (3, false)
  | "|" => some (4, false)
  | "^" => some (5, false)
  | "&" => some (6, false)
  | "==" | "!=" | "===" | "!==" => some (7, false)
  | "<" | "<=" | ">" | ">=" => some (comparisonLevel, false)
  | "<<" | ">>" | ">>>" => some (9, false)
  | "+" | "-" => some (10, false)
  | "*" | "/" | "%" => some (11, false)
  | "**" => some (12, true)
  | _ => none

/-- `f<T>(x)`, or `f<T>` where no operand follows. -/
def genericCall (flow : Flow) (left : Tree) : Parser Tree := do
  let types ← typeArguments read
  let c ← cursor
  if c.onSign "(" then
    let t ← grow .call left do
      let a ← arguments read
      pure [left.filling .callee, types, a.filling .arguments]
    suffixes read flow t
  else
    guard (!c.startsOperand || (flow.breaks && c.lineEnds ⟨true, false⟩))
    let t := Tree.branch .other left.start c.ended.offset [left, types]
    suffixes read flow t

/-- `c ? a : b` after its condition. -/
def conditional (flow : Flow) (left : Tree) : Parser Tree :=
  grow .other left do
    sign "?"
    let first (plain : Bool) : Parser Tree := do
      let a ← read (.expression { breaks := false, plainArrow := plain })
      sign ":"
      pure a
    let a ← if ← typed then (first false).or (first true) else first false
    let b ← read (.expression flow)
    pure [left, a, b]

/-- `left` joined to another operand by the operator here. -/
def joined (flow : Flow) (level : Nat) (left : Tree) : Parser Tree :=
  grow .other left do
    advance
    settle
    let right ← read (.operation flow level)
    pure [left, right]

/-- `x as T` and `x satisfies T` after the operand. -/
def cast (flow : Flow) (left : Tree) : Parser Tree :=
  grow .other left do
    advance
    let t ← read (.type flow true)
    pure [left, t]

/-- One operator after the operation so far, if it binds at least as tightly as
    `level`. -/
def operator? (flow : Flow) (level : Nat) (left : Tree) : Parser (Option Tree) := do
  let c ← cursor
  if flow.breaks && c.lineEnds ⟨true, false⟩ then pure none
  else
    match c.token with
    | .sign "?" =>
      if level ≤ 1 then
        let t ← conditional read flow left
        pure (some t)
      else pure none
    | .sign s =>
      let generic ←
        if c.language.typed && s == "<" && level ≤ comparisonLevel + 1 then
          attempt (genericCall read flow left)
        else pure none
      match generic with
      | some t => pure (some t)
      | none =>
        match signLevel? s with
        | some (own, right) =>
          if level ≤ own then
            let t ← joined read flow (if right then own else own + 1) left
            pure (some t)
          else pure none
        | none => pure none
    | .word "in" =>
      if level ≤ comparisonLevel && !flow.noIn then
        let t ← joined read flow (comparisonLevel + 1) left
        pure (some t)
      else pure none
    | .word "instanceof" =>
      if level ≤ comparisonLevel then
        let t ← joined read flow (comparisonLevel + 1) left
        pure (some t)
      else pure none
    | .word "as" | .word "satisfies" =>
      if c.language.typed && level ≤ 1 then
        let t ← cast read flow left
        pure (some t)
      else pure none
    | _ => pure none

/-- Operands joined by operators that bind at least as tightly as `level`. -/
def operation (flow : Flow) (level : Nat) : Parser Tree := do
  let first ← read (.operand flow)
  iterate first (operator? read flow level)

end RoleLint.Grammar.Parser
