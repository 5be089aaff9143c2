import RoleLint.Grammar.Function

/- Classes. A decorator of a method stands inside the method in the untyped
   languages and beside it in the typed ones; a decorator of a field is always
   inside the field. Fields end like statements.

   Correspondence with `tree_sitter_javascript` and `tree_sitter_typescript`: `class`,
   `class_declaration`, `class_body`, `method_definition`, `field_definition`. -/
namespace RoleLint.Grammar.Parser

variable (read : Reader)

/-! ## Modifiers -/

/-- Words that may stand before a member of a class. -/
def memberModifiers (l : Language) : List String :=
  if l.typed then
    ["declare", "public", "private", "protected", "static", "override", "readonly", "abstract",
      "accessor", "async", "get", "set"]
  else ["static", "async", "get", "set"]

/-- `ms` without its head, if that is one of `ws`. -/
def dropHead (ws : List String) (ms : List String) : List String :=
  match ms with
  | [] => []
  | m :: rest => if ws.contains m then rest else m :: rest

/-- Words that say who may use a member. -/
def accessWords : List String :=
  ["public", "private", "protected"]

/-- Modifiers of a method, in their order. -/
def fitsMethod (ms : List String) : Bool :=
  (dropHead ["get", "set"] (dropHead ["async"] (dropHead ["readonly"] (dropHead ["override"]
    (dropHead ["static"] (dropHead accessWords ms)))))).isEmpty

/-- Modifiers of an abstract method, in their order. -/
def fitsAbstractMethod (ms : List String) : Bool :=
  match dropHead accessWords ms with
  | "abstract" :: rest => (dropHead ["get", "set"] (dropHead ["override"] rest)).isEmpty
  | _ => false

/-- Modifiers of a field, in one of their orders. -/
def fitsField (ms : List String) : Bool :=
  let rest :=
    match ms with
    | "declare" :: r => dropHead accessWords r
    | _ => if dropHead accessWords ms == ms then ms else dropHead ["declare"] (dropHead accessWords ms)
  (dropHead ["readonly"] (dropHead ["override"] (dropHead ["static"] rest))).isEmpty ||
    (dropHead ["readonly"] (dropHead ["abstract"] rest)).isEmpty ||
    (dropHead ["abstract"] (dropHead ["readonly"] rest)).isEmpty ||
    (dropHead ["accessor"] rest).isEmpty

/-- Whether the word here modifies the member after it: a name must follow on the
    same line, or the star of a generator. -/
def onModifier (c : Cursor) : Bool :=
  match c.token with
  | .word w =>
    (memberModifiers c.language).contains w &&
      (let d := c.next
       (d.startsPropertyName || d.onSign "*") && !d.lineEnds ⟨false, false⟩)
  | _ => false

/-- The modifiers that stand here, in order. -/
def modifiers : Parser (List String) :=
  many onModifier do
    let c ← cursor
    advance
    match c.token with
    | .word w => pure [w]
    | _ => pure []

/-! ## Members -/

/-- The end of a member without a body. -/
def memberEnd (follow : Follow) : Parser Unit := do
  let c ← cursor
  if c.language.typed && c.onSign "," then advance else semicolon follow

/-- `static { ... }` -/
def staticBlock : Parser Tree :=
  branch .other do
    word "static"
    let b ← read (.block false)
    pure [b.filling .body]

/-- A field from its name on. -/
def fieldTail (name : Tree) : Parser (List Tree) := do
  if ← typed then
    let c ← cursor
    if c.onSign "?" || c.onSign "!" then advance
  let t ← annotation? read .outer
  let c ← cursor
  let x ← initializer? read .outer
  memberEnd ⟨c.onSign "=", false⟩
  pure (name :: t ++ x)

/-- A method or field after its decorators `marks`. The answer holds the
    decorators where they belong. -/
def methodOrField (marks : List Tree) : Parser (List Tree) := do
  let c ← cursor
  let start := (marks.head?.map Tree.start).getD c.start.offset
  let ms ← modifiers
  let star ← sign? "*"
  let name ← propertyName read
  let d ← cursor
  let e := if d.language.typed && d.onSign "?" then d.next else d
  if e.onSign "(" || (e.language.typed && e.onSign "<") then
    resume e
    let s ← signature read .outer
    let f ← cursor
    if f.onSign "\x7b" || !f.language.typed then
      guard (fitsMethod ms)
      let b ← read (.block false)
      let g ← cursor
      let kids := name :: s ++ [b.filling .body]
      let _ ← sign? ";"
      if f.language.typed then
        pure (marks ++ [Tree.branch .method c.start.offset g.ended.offset kids])
      else pure [Tree.branch .method start g.ended.offset (marks ++ kids)]
    else
      guard (fitsMethod ms || fitsAbstractMethod ms)
      guard marks.isEmpty
      memberEnd ⟨false, true⟩
      pure [Tree.branch .other c.start.offset f.ended.offset (name :: s)]
  else
    guard (!star && (if d.language.typed then fitsField ms else (dropHead ["static"] ms).isEmpty))
    let kids ← fieldTail read name
    let g ← cursor
    pure [Tree.branch .other start g.ended.offset (marks ++ kids)]

/-- A member of a class body. -/
def classMember : Parser (List Tree) := do
  let c ← cursor
  if c.onSign ";" then
    advance
    pure []
  else if c.onWord "static" && c.next.onSign "\x7b" then
    let b ← staticBlock read
    pure [b]
  else
    let marks ← decorators read
    if c.language.typed && marks.isEmpty then
      let d := if c.onWord "readonly" then c.next else c
      if d.onSign "[" && d.next.onSomeWord then
        match ← attempt (indexSignature read .outer) with
        | some t =>
          memberEnd ⟨false, false⟩
          pure [t]
        | none => methodOrField read marks
      else methodOrField read marks
    else methodOrField read marks

/-- A class body in braces; an open one may be closed by the end of the text. -/
def classBody (closable : Bool) : Parser Tree :=
  branch .other do
    sign "\x7b"
    let members ← many (fun c => !c.onSign "\x7d" && c.token != .finish) (classMember read)
    let c ← cursor
    if closable && c.forgiving && c.token == .finish then
      pure (members ++ [Tree.leaf .missing c.ended.offset c.ended.offset])
    else
      sign "\x7d"
      pure members

/-! ## Heads -/

/-- A superclass in a typed language, with type arguments after it. -/
def typedHeritage : Parser (List Tree) := do
  let x ← read (.operand .inner)
  if ← atSign "<" then
    let t ← typeArguments read
    if ← atSign "(" then
      let call ← grow .call x do
        let a ← arguments read
        pure [x.filling .callee, t, a.filling .arguments]
      pure [call]
    else pure [x, t]
  else pure [x]

/-- What a class extends and implements. -/
def heritage : Parser (List Tree) := do
  if ← typed then
    let supers ←
      if ← word? "extends" then commaList (branch .other (typedHeritage read)) else pure []
    let faces ←
      if ← word? "implements" then commaList (read (.type .inner true)) else pure []
    pure (supers ++ faces)
  else if ← word? "extends" then
    let x ← read (.expression .inner)
    pure [x]
  else pure []

/-- A class from the word `class` on. -/
def classTail (nameRequired closable : Bool) : Parser (List Tree) := do
  word "class"
  let c ← cursor
  let named :=
    match c.token with
    | .word w =>
      c.language.isBindingName w &&
        (nameRequired || !(w == "extends" || (c.language.typed && w == "implements")))
    | _ => false
  let name ← if named || nameRequired then (do let n ← bindingName; pure [n]) else pure []
  let types ← typeParameters? read
  let supers ← heritage read
  let body ← classBody read closable
  pure (name ++ types ++ supers ++ [body])

/-- A class used as a value. -/
def classExpression : Parser Tree :=
  branch .other do
    let marks ← decorators read
    let tail ← classTail read false false
    pure (marks ++ tail)

/-- A class declaration after its decorators. -/
def classDeclaration : Parser Tree :=
  branch .other do
    let marks ← decorators read
    if ← typed then
      let _ ← word? "abstract"
    let tail ← classTail read true true
    settleLine
    pure (marks ++ tail)

/-- Whether a class with a name stands here. -/
def startsClassDeclaration (c : Cursor) : Bool :=
  c.onWord "class" &&
    (match c.next.token with
     | .word w =>
       c.language.isBindingName w && w != "extends" && !(c.language.typed && w == "implements")
     | _ => false)

end RoleLint.Grammar.Parser
