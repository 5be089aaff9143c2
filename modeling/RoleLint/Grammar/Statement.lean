import RoleLint.Grammar.Expression

/- Statements and declarations. Every statement is an `other` node unless the
   analysis asks for it: blocks, returned values, declarators and function
   declarations keep their kind.

   1. blocks and variables;
   2. control flow;
   3. declarations of the typed languages;
   4. imports and exports;
   5. the choice between them by the first word.

   Correspondence with `tree_sitter_javascript` and `tree_sitter_typescript`: `statement`,
   `declaration`, `import_statement`, `export_statement`. -/
namespace RoleLint.Grammar.Parser

variable (read : Reader)

/-! ## Blocks and variables -/

/-- Statements in braces. Where `closable` is set the end of the text may close a
    block of a forgiving cursor, which leaves a `missing` node. -/
def block (closable : Bool) : Parser Tree :=
  branch .block do
    sign "\x7b"
    let body ← many (fun c => !c.onSign "\x7d" && c.token != .finish) do
      let s ← read .statement
      pure [s]
    let c ← cursor
    if closable && c.forgiving && c.token == .finish then
      pure (body ++ [Tree.leaf .missing c.ended.offset c.ended.offset])
    else
      sign "\x7d"
      settleLine
      pure body

/-- An expression as a statement. -/
def expressionStatement : Parser Tree :=
  branch .other do
    let x ← expressions read .outer
    semicolon ⟨true, false⟩
    pure [x]

/-- One variable of a declaration. -/
def declarator (flow : Flow) : Parser Tree :=
  branch .declarator do
    let c ← cursor
    let name ←
      if c.onSign "\x7b" || c.onSign "[" then read .pattern else bindingName
    let d ← cursor
    if d.language.typed && d.onSign "!" && d.next.onSign ":" then advance
    let t ← annotation? read flow
    let x ← initializer? read flow
    pure (name.filling .name :: t ++ x.map (·.filling .value))

/-- Whether the last of `ds` has a value, so that an operator could follow. -/
def endsInValue (ds : List Tree) : Bool :=
  ((ds.getLast?.bind (·.child? .value)).map fun _ => true).getD false

/-- `var a = 1, b;` from its first word on. -/
def variableDeclaration : Parser Tree :=
  branch .other do
    advance
    let ds ← commaList (declarator read .outer)
    semicolon ⟨endsInValue ds, false⟩
    pure ds

/-- Whether `let` declares something: a name or pattern follows, and no line
    break makes it a statement of its own. -/
def startsLet (c : Cursor) : Bool :=
  let d := c.next
  (d.onSign "\x7b" || d.onSign "[" ||
    (match d.token with
     | .word w => c.language.isBindingName w && w != "in" && w != "instanceof" && w != "of" ||
        (w == "of" && !d.next.onSomeWord)
     | _ => false)) && !d.lineEnds ⟨true, false⟩

/-! ## Control flow -/

/-- `if (a) b else c` -/
def ifStatement : Parser Tree :=
  branch .other do
    word "if"
    let test ← parenthesized read
    settle
    let yes ← read .statement
    if ← word? "else" then
      let no ← read .statement
      pure [test, yes, no]
    else pure [test, yes]

/-- A statement after a word and an expression in parentheses. -/
def guarded : Parser Tree :=
  branch .other do
    advance
    let test ← parenthesized read
    settle
    let body ← read .statement
    pure [test, body]

/-- `do a while (b)` -/
def doStatement : Parser Tree :=
  branch .other do
    word "do"
    let body ← read .statement
    word "while"
    let test ← parenthesized read
    unless ← sign? ";" do settleLine
    pure [body, test]

/-- Statements up to the next case or the closing brace. -/
def caseBody : Parser (List Tree) :=
  many
    (fun c => !(c.onSign "\x7d" || c.onWord "case" || c.onWord "default" || c.token == .finish)) do
    let s ← read .statement
    pure [s]

/-- One case of a switch. -/
def switchCase : Parser Tree :=
  branch .other do
    if ← word? "default" then
      sign ":"
      caseBody read
    else
      word "case"
      let x ← expressions read .inner
      sign ":"
      let body ← caseBody read
      pure (x :: body)

/-- `switch (a) { case b: ... }` -/
def switchStatement : Parser Tree :=
  branch .other do
    word "switch"
    let x ← parenthesized read
    settle
    sign "\x7b"
    let cases ← many (fun c => !c.onSign "\x7d" && c.token != .finish) do
      let k ← switchCase read
      pure [k]
    let c ← cursor
    if c.forgiving && c.token == .finish then
      pure (x :: cases ++ [Tree.leaf .missing c.ended.offset c.ended.offset])
    else
      sign "\x7d"
      settle
      pure (x :: cases)

/-- The head of a loop over the members of something: `(const a of b)`. -/
def memberLoopHead : Parser (List Tree) := do
  sign "("
  let c ← cursor
  let declares := c.onWord "var" || c.onWord "const" || (c.onWord "let" && startsLet c)
  let left ←
    if declares then do
      advance
      let p ←
        if (← cursor).onSign "\x7b" || (← cursor).onSign "[" then read .pattern else bindingName
      let x ←
        if c.onWord "var" then initializer? read { breaks := false, noIn := true } else pure []
      pure (p :: x)
    else if c.onSign "(" then do
      let p ← parenthesized read
      pure [p]
    else do
      let p ← read .pattern
      pure [p]
  let d ← cursor
  guard (d.onWord "in" || d.onWord "of")
  advance
  let right ← expressions read .inner
  sign ")"
  pure (left ++ [right])

/-- The head of a counting loop: `(a; b; c)`. -/
def countLoopHead : Parser (List Tree) := do
  sign "("
  let c ← cursor
  let start ←
    if c.onSign ";" then do
      advance
      pure []
    else if c.onWord "var" || c.onWord "const" || (c.onWord "let" && startsLet c) then do
      let d ← variableDeclaration read
      pure [d]
    else do
      let x ← expressions read .inner
      sign ";"
      pure [x]
  let test ←
    if ← sign? ";" then pure []
    else do
      let x ← expressions read .inner
      sign ";"
      pure [x]
  let step ←
    if ← sign? ")" then pure []
    else do
      let x ← expressions read .inner
      sign ")"
      pure [x]
  pure (start ++ test ++ step)

/-- A loop from the word `for` on. -/
def forStatement : Parser Tree :=
  branch .other do
    word "for"
    let head ←
      if ← word? "await" then memberLoopHead read
      else (memberLoopHead read).or (countLoopHead read)
    settle
    let body ← read .statement
    pure (head ++ [body])

/-- `try { } catch (e) { } finally { }`; both clauses are optional. -/
def tryStatement : Parser Tree :=
  branch .other do
    word "try"
    let body ← read (.block true)
    let handler ←
      if ← word? "catch" then do
        let param ←
          if ← sign? "(" then do
            let c ← cursor
            let p ← if c.onSign "\x7b" || c.onSign "[" then read .pattern else bindingName
            let t ← annotation? read .inner
            sign ")"
            pure (p :: t)
          else pure []
        let b ← read (.block true)
        pure (param ++ [b])
      else pure []
    let final ←
      if ← word? "finally" then (do let b ← read (.block true); pure [b]) else pure []
    pure (body :: handler ++ final)

/-- `break` and `continue`, with an optional label. -/
def jumpStatement : Parser Tree :=
  branch .other do
    advance
    let c ← cursor
    if c.onSign ";" || c.lineEnds ⟨false, false⟩ then
      semicolon ⟨false, false⟩
      pure []
    else
      let label ← anyWord
      semicolon ⟨false, false⟩
      pure [label]

/-- `return x` -/
def returnStatement : Parser Tree :=
  branch .returned do
    word "return"
    let c ← cursor
    if c.onSign ";" || c.lineEnds ⟨false, false⟩ then
      semicolon ⟨false, false⟩
      pure []
    else
      let x ← expressions read .outer
      semicolon ⟨true, false⟩
      pure [x]

/-- `throw x` -/
def throwStatement : Parser Tree :=
  branch .other do
    word "throw"
    let x ← expressions read .outer
    semicolon ⟨true, false⟩
    pure [x]

/-- `a: x` -/
def labelledStatement : Parser Tree :=
  branch .other do
    let label ← anyWord
    sign ":"
    let s ← read .statement
    pure [label, s]

/-! ## Declarations of the typed languages -/

/-- `type A<T> = B` -/
def typeAlias : Parser Tree :=
  branch .other do
    word "type"
    let name ← anyWord
    let types ← typeParameters? read
    sign "="
    let t ← read (.type .outer true)
    semicolon ⟨false, false⟩
    pure (name :: types ++ [t])

/-- `interface A extends B { }` -/
def interfaceDeclaration : Parser Tree :=
  branch .other do
    word "interface"
    let name ← anyWord
    let types ← typeParameters? read
    let supers ←
      if ← word? "extends" then commaList (read (.type .inner false)) else pure []
    let body ← objectType read
    settle
    pure (name :: types ++ supers ++ [body])

/-- `enum A { B, C = 1 }` -/
def enumDeclaration : Parser Tree :=
  branch .other do
    let _ ← word? "const"
    word "enum"
    let name ← anyWord
    sign "\x7b"
    let members ← strictList "\x7d" do
      branch .other do
        let n ← propertyName read
        let x ← initializer? read .inner
        pure (n :: x)
    settle
    pure (name :: members)

/-- `namespace A.B { }` and `module 'a' { }`; the body is optional. -/
def moduleDeclaration : Parser Tree :=
  branch .other do
    advance
    let c ← cursor
    let name ←
      if c.token == .quoted then (do let n ← leaf .other; pure [n])
      else do
        let head ← anyWord
        let tail ← many (·.onSign ".") do
          advance
          let w ← anyWord
          pure [w]
        pure (head :: tail)
    if ← atSign "\x7b" then
      let b ← read (.block true)
      pure (name ++ [b])
    else pure name

/-- Whether a namespace or module is declared here. -/
def startsModule (c : Cursor) : Bool :=
  (c.onWord "namespace" || c.onWord "module") &&
    (let d := c.next
     (d.onSomeWord && !operatorWords.any (d.onWord ·) || d.token == .quoted) &&
       !d.lineEnds ⟨true, false⟩)

/-- Whether a type alias is declared here. -/
def startsTypeAlias (c : Cursor) : Bool :=
  c.onWord "type" &&
    (let d := c.next
     d.onSomeWord && (d.next.onSign "=" || d.next.onSign "<") && !d.lineEnds ⟨true, false⟩)

/-- `a.b.c` as the target of an import alias. -/
def aliasTarget : Parser (List Tree) := do
  let head ← anyWord
  let tail ← many (·.onSign ".") do
    advance
    let w ← anyWord
    pure [w]
  pure (head :: tail)

/-! ## Imports and exports -/

/-- A name in an import or export list: a word or a text. -/
def exportName : Parser Tree := do
  let c ← cursor
  guard (c.onSomeWord || c.token == .quoted)
  leaf .other

/-- `a as b` in an import or export list; typed languages allow `type` before. -/
def specifier : Parser Tree :=
  branch .other do
    let c ← cursor
    let d := c.next
    let marked := c.language.typed && (c.onWord "type" || c.onWord "typeof") &&
      (d.onSomeWord || d.token == .quoted) &&
      !(d.onWord "as" && !(d.next.onWord "as" || d.next.onSign "," || d.next.onSign "\x7d"))
    if marked then advance
    let name ← exportName
    if ← word? "as" then
      let other ← exportName
      pure [name, other]
    else pure [name]

/-- `{ a, b as c }` -/
def specifiers : Parser Tree :=
  branch .other do
    sign "\x7b"
    strictList "\x7d" (specifier)

/-- `from 'a'`, with optional attributes after it. -/
def fromClause : Parser (List Tree) := do
  word "from"
  let source ← quotedText
  if ← word? "with" then
    let o ← objectLiteral read
    pure [source, o]
  else pure [source]

/-- `* as a` -/
def starImport : Parser Tree :=
  branch .other do
    sign "*"
    word "as"
    let n ← exportName
    pure [n]

/-- What an import binds. -/
def importClause : Parser (List Tree) := do
  let c ← cursor
  if c.onSign "*" then (do let s ← starImport; pure [s])
  else if c.onSign "\x7b" then (do let s ← specifiers; pure [s])
  else
    let name ← bindingName
    if ← sign? "," then
      let s ← if (← cursor).onSign "*" then starImport else specifiers
      pure [name, s]
    else pure [name]

/-- `a = require('b')` or `a = b.c` after the word `import`. -/
def importAlias : Parser (List Tree) := do
  let name ← bindingName
  sign "="
  let c ← cursor
  if c.onWord "require" && c.next.onSign "(" && c.next.next.token == .quoted then
    advance
    advance
    let s ← quotedText
    sign ")"
    semicolon ⟨false, false⟩
    pure [name, s]
  else
    let path ← aliasTarget
    semicolon ⟨false, false⟩
    pure (name :: path)

/-- An import statement. -/
def importStatement : Parser Tree :=
  branch .other do
    word "import"
    let c ← cursor
    if c.token == .quoted then
      let s ← quotedText
      let attrs ←
        if ← word? "with" then (do let o ← objectLiteral read; pure [o]) else pure []
      semicolon ⟨false, false⟩
      pure (s :: attrs)
    else
      let plain : Parser (List Tree) := do
        let names ← importClause
        let source ← fromClause read
        semicolon ⟨false, false⟩
        pure (names ++ source)
      if c.language.typed then
        let marked : Parser (List Tree) := do
          guard (c.onWord "type" || c.onWord "typeof")
          advance
          (plain).or importAlias
        (plain.or importAlias).or marked
      else plain

/-- What `export default` exports. -/
def defaultExport : Parser Tree := do
  let c ← cursor
  if startsFunctionDeclaration c || startsClassDeclaration c ||
      (c.language.typed && (c.onWord "abstract" || c.onWord "interface" || c.onWord "enum" ||
        startsTypeAlias c || startsModule c || c.onWord "declare" && c.next.onSomeWord)) then
    read .statement
  else
    let x ← read (.expression .outer)
    semicolon ⟨true, false⟩
    pure x

/-- Words that start a declaration that can be exported. -/
def startsDeclaration (c : Cursor) : Bool :=
  startsFunctionDeclaration c || startsClassDeclaration c || c.onSign "@" ||
    c.onWord "var" || c.onWord "const" || c.onWord "let" ||
    (c.language.typed &&
      (c.onWord "abstract" || c.onWord "interface" || c.onWord "enum" || c.onWord "declare" ||
        c.onWord "type" || startsModule c || c.onWord "import"))

/-- An export statement from the word `export` on. -/
def exportTail : Parser (List Tree) := do
  word "export"
  let c ← cursor
  if c.onSign "*" then
    advance
    let name ← if ← word? "as" then (do let n ← exportName; pure [n]) else pure []
    let source ← fromClause read
    semicolon ⟨false, false⟩
    pure (name ++ source)
  else if c.onSign "\x7b" || (c.language.typed && c.onWord "type" && c.next.onSign "\x7b") then
    let _ ← word? "type"
    let s ← specifiers
    let source ← if ← atWord "from" then fromClause read else pure []
    semicolon ⟨false, false⟩
    pure (s :: source)
  else if ← word? "default" then
    let d ← defaultExport read
    pure [d]
  else if c.language.typed && c.onSign "=" then
    advance
    let x ← read (.expression .outer)
    semicolon ⟨true, false⟩
    pure [x]
  else if c.language.typed && c.onWord "as" && c.next.onWord "namespace" then
    advance
    advance
    let n ← anyWord
    semicolon ⟨false, false⟩
    pure [n]
  else
    guard (startsDeclaration c)
    let d ← read .statement
    pure [d]

/-! ## The choice -/

/-- A statement with decorators before it: an export or a class. -/
def decorated : Parser Tree := do
  let declared : Parser Tree :=
    branch .other do
      let marks ← decorators read
      let c ← cursor
      if c.onWord "export" then
        let t ← exportTail read
        pure (marks ++ t)
      else
        if c.language.typed then
          let _ ← word? "abstract"
        let t ← classTail read true true
        settleLine
        pure (marks ++ t)
  declared.or (expressionStatement read)

/-- A statement that starts with an opening brace. -/
def bracedStatement : Parser Tree := do
  match braceReading (← cursor) with
  | .block => read (.block true)
  | .objectFirst => (expressionStatement read).or (read (.block true))
  | .blockFirst => (read (.block true)).or (expressionStatement read)

/-- What `declare` declares. -/
def ambientDeclaration : Parser Tree :=
  branch .other do
    word "declare"
    let c ← cursor
    if c.onWord "global" && c.next.onSign "\x7b" then
      advance
      let b ← read (.block true)
      pure [b]
    else
      guard (startsDeclaration c)
      let d ← read .statement
      pure [d]

/-- A declaration of a typed language, if its first word stands here. -/
def typedDeclaration? (c : Cursor) : Option (Parser Tree) :=
  if c.onWord "interface" then some (interfaceDeclaration read)
  else if c.onWord "enum" then some (enumDeclaration read)
  else if c.onWord "const" && c.next.onWord "enum" then some (enumDeclaration read)
  else if c.onWord "abstract" then some (classDeclaration read)
  else if startsTypeAlias c then some (typeAlias read)
  else if startsModule c then some (moduleDeclaration read)
  else if c.onWord "declare" && c.next.onSomeWord && !operatorWords.any (c.next.onWord ·) &&
      !c.next.lineEnds ⟨true, false⟩ then some (ambientDeclaration read)
  else none

/-- A statement by its first word. -/
def wordStatement (w : String) : Parser Tree := do
  let c ← cursor
  let typed? := if c.language.typed then typedDeclaration? read c else none
  match typed? with
  | some p => p
  | none =>
    if startsFunctionDeclaration c then functionDeclaration read
    else if startsClassDeclaration c then classDeclaration read
    else
      match w with
      | "var" | "const" => variableDeclaration read
      | "let" => if startsLet c then variableDeclaration read else expressionStatement read
      | "if" => ifStatement read
      | "for" => forStatement read
      | "while" | "with" => guarded read
      | "do" => doStatement read
      | "switch" => switchStatement read
      | "try" => tryStatement read
      | "break" | "continue" => jumpStatement
      | "return" => returnStatement read
      | "throw" => throwStatement read
      | "debugger" =>
        branch .other do
          advance
          semicolon ⟨false, false⟩
          pure []
      | "export" => branch .other (exportTail read)
      | "import" =>
        if c.next.onSign "(" || c.next.onSign "." then expressionStatement read
        else importStatement read
      | _ =>
        if c.next.onSign ":" && c.language.isOperandName w then labelledStatement read
        else expressionStatement read

/-- Any statement. -/
def statement : Parser Tree := do
  let c ← cursor
  match c.token with
  | .sign ";" => leaf .other
  | .sign "\x7b" => bracedStatement read
  | .sign "@" => decorated read
  | .word w => wordStatement read w
  | _ => expressionStatement read

end RoleLint.Grammar.Parser
