import RoleLint.Grammar.Parser

/- Words that are kept for the grammar. The untyped languages keep a fixed list
   everywhere; the typed ones keep a word only where it could start something,
   so that most keywords are plain names in most places.

   Correspondence: the reserved words of `tree_sitter_javascript` and the keywords of
   `tree_sitter_typescript`. -/
namespace RoleLint.Grammar

/-- Words that are never names in the untyped languages. -/
def reservedWords : List String :=
  ["break", "case", "catch", "class", "const", "continue", "debugger", "default", "delete", "do",
    "else", "export", "extends", "false", "finally", "for", "function", "if", "import", "in",
    "instanceof", "new", "null", "return", "super", "switch", "this", "throw", "true", "try",
    "typeof", "var", "void", "while", "with"]

/-- Words that start an operand of their own in every language. -/
def operandWords : List String :=
  ["class", "function", "new", "typeof", "void", "delete", "await", "yield", "this", "super",
    "true", "false", "null", "import"]

/-- Words that stand for a value by themselves. -/
def valueWords : List String :=
  ["this", "super", "true", "false", "null", "import"]

/-- Words that follow an operand as an operator. -/
def operatorWords : List String :=
  ["in", "instanceof", "as", "satisfies", "of"]

/-- Whether the word `w` can name a value where an operand is expected. -/
def Language.isOperandName (l : Language) (w : String) : Bool :=
  if l.typed then !operandWords.contains w
  else !reservedWords.contains w && w != "yield" && w != "await"

/-- Whether the word `w` can be declared. -/
def Language.isBindingName (l : Language) (w : String) : Bool :=
  l.typed || !reservedWords.contains w

/-- Whether an operand can start with the current token. -/
def Cursor.startsOperand (c : Cursor) : Bool :=
  match c.token with
  | .word w => !operatorWords.contains w
  | .privateName | .number | .quoted => true
  | .sign s =>
    ["(", "[", "\x7b", "`", "+", "-", "!", "~", "++", "--", "<", "/", "/=", "@"].contains s
  | .finish | .stray => false

/-- Whether a property name can start with the current token. -/
def Cursor.startsPropertyName (c : Cursor) : Bool :=
  match c.token with
  | .word _ | .privateName | .number | .quoted => true
  | .sign s => s == "["
  | .finish | .stray => false

namespace Parser

/-- A declared name. -/
def bindingName : Parser Tree := do
  match (← cursor).token with
  | .word w =>
    guard ((← cursor).language.isBindingName w)
    leaf .identifier
  | _ => fail

/-- A word, whatever it means elsewhere. -/
def anyWord : Parser Tree := do
  guard (← cursor).onSomeWord
  leaf .other

/-- A text in quotes. -/
def quotedText : Parser Tree := do
  guard ((← cursor).token == .quoted)
  leaf .other

end Parser

end RoleLint.Grammar
