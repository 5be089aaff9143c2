import RoleLint.Grammar.Character

/- Tokens. Every scanner here looks at the characters from some place on and
   answers how many of them belong to the token that starts there; zero, or
   `none` for scanners that may run off the end, means that none does.

   1. words, with their Unicode escapes;
   2. escape sequences, quoted texts and patterns between slashes;
   3. numbers;
   4. signs, the longest one first;
   5. `Token` and `Token.scan`, which put them together.

   Correspondence with `tree_sitter_javascript`: `identifier`, `string`, `regex_pattern`,
   `number` and the punctuation of all rules. -/
namespace RoleLint.Grammar

/-! ## Words -/

/-- The length of the hexadecimal run that a closing brace ends, brace included. -/
def bracedHexLength (seen : Nat) : List Char → Nat
  | [] => 0
  | c :: cs =>
    if isHexDigit c then bracedHexLength (seen + 1) cs
    else if c == '\x7d' && 0 < seen then seen + 1
    else 0

/-- The length of a Unicode escape whose backslash and `u` stand before `cs`. -/
def unicodeEscapeLength : List Char → Nat
  | '\x7b' :: cs =>
    match bracedHexLength 0 cs with
    | 0 => 0
    | n => n + 3
  | a :: b :: c :: d :: _ => if [a, b, c, d].all isHexDigit then 6 else 0
  | _ => 0

/-- The length of one unit of a word: a plain character or a Unicode escape. -/
def wordUnitLength : List Char → Nat
  | '\\' :: 'u' :: cs => unicodeEscapeLength cs
  | c :: _ => if isWordChar c then 1 else 0
  | [] => 0

/-- The length of a run of word units, `skip` characters of one unit to go. -/
def wordRunLength (skip : Nat) : List Char → Nat
  | [] => 0
  | c :: cs =>
    match skip with
    | k + 1 => 1 + wordRunLength k cs
    | 0 =>
      match wordUnitLength (c :: cs) with
      | 0 => 0
      | k + 1 => 1 + wordRunLength k cs

/-- The length of the word at the head; a word does not start with a digit. -/
def wordLength : List Char → Nat
  | [] => 0
  | c :: cs => if c.isDigit then 0 else wordRunLength 0 (c :: cs)

/-! ## Quoted texts and patterns -/

/-- The length of the escape sequence at the head, backslash included. -/
def escapeLength : List Char → Nat
  | '\\' :: 'x' :: a :: b :: _ => if isHexDigit a && isHexDigit b then 4 else 0
  | '\\' :: 'x' :: _ => 0
  | '\\' :: 'u' :: cs => unicodeEscapeLength cs
  | '\\' :: c :: cs =>
    if isOctalDigit c then 2 + ((cs.take 2).takeWhile isOctalDigit).length
    else
      match cs with
      | d :: _ => if (c == '\r' || c == '?') && (d == '\n' || isSeparator d) then 3 else 2
      | [] => 2
  | _ => 0

/-- The length of a quoted text after its opening quote, closing quote included.
    A raw line feed or carriage return is not allowed inside. -/
def quotedLength (quote : Char) (skip seen : Nat) : List Char → Option Nat
  | [] => none
  | c :: cs =>
    match skip with
    | k + 1 => quotedLength quote k (seen + 1) cs
    | 0 =>
      if c == quote then some (seen + 1)
      else if c == '\n' || c == '\r' then none
      else if c == '\\' then
        match escapeLength (c :: cs) with
        | 0 => none
        | k + 1 => quotedLength quote k (seen + 1) cs
      else quotedLength quote 0 (seen + 1) cs

/-- The length of a pattern after its opening slash, with the closing slash and
    the flags. `inClass` says that a character class is open. -/
def patternLength (inClass escaped : Bool) (seen : Nat) : List Char → Option Nat
  | [] => none
  | c :: cs =>
    if c == '\n' then none
    else if escaped then patternLength inClass false (seen + 1) cs
    else if c == '\\' then patternLength inClass true (seen + 1) cs
    else if inClass then patternLength (c != ']') false (seen + 1) cs
    else if c == '[' then patternLength true false (seen + 1) cs
    else if c == '/' then
      if seen == 0 then none
      else some (seen + 1 + (cs.takeWhile fun d => 'a' ≤ d && d ≤ 'z').length)
    else patternLength false false (seen + 1) cs

/-! ## Numbers -/

/-- The length of a run of digits with single underscores between them. -/
def digitRunLength (isDigit : Char → Bool) : List Char → Nat
  | [] => 0
  | [c] => if isDigit c then 1 else 0
  | c :: d :: cs =>
    if !isDigit c then 0
    else if d == '_' then
      match digitRunLength isDigit cs with
      | 0 => 1
      | n => n + 2
    else 1 + digitRunLength isDigit (d :: cs)

/-- The length of an exponent such as `e-7`. -/
def exponentLength : List Char → Nat
  | c :: d :: cs =>
    if c == 'e' || c == 'E' then
      if d == '+' || d == '-' then
        match digitRunLength Char.isDigit cs with
        | 0 => 0
        | n => n + 2
      else
        match digitRunLength Char.isDigit (d :: cs) with
        | 0 => 0
        | n => n + 1
    else 0
  | _ => 0

/-- The length of a number with a base mark, as `0x1F` and `0b1n`. -/
def radixLength : List Char → Nat
  | '0' :: m :: cs =>
    let isDigit? : Option (Char → Bool) :=
      if m == 'x' || m == 'X' then some isHexDigit
      else if m == 'o' || m == 'O' then some isOctalDigit
      else if m == 'b' || m == 'B' then some isBinaryDigit
      else none
    match isDigit? with
    | none => 0
    | some isDigit =>
      match digitRunLength isDigit cs with
      | 0 => 0
      | n => n + 2 + (if (cs.drop n).head? == some 'n' then 1 else 0)
  | _ => 0

/-- Whether the digits at the head may be followed by a fraction or an exponent:
    a single zero, or digits with at most one leading zero. -/
def isIntegerPart : List Char → Nat → Bool
  | c :: cs, n =>
    if c != '0' then true
    else n == 1 || (match cs with | d :: _ => d != '0' && d.isDigit | [] => false)
  | [], _ => false

/-- The length of the decimal number at the head. -/
def decimalLength (cs : List Char) : Nat :=
  match digitRunLength Char.isDigit cs with
  | 0 =>
    match cs with
    | '.' :: rest =>
      match digitRunLength Char.isDigit rest with
      | 0 => 0
      | n => n + 1 + exponentLength (rest.drop n)
    | _ => 0
  | n =>
    let rest := cs.drop n
    if isIntegerPart cs n then
      match rest with
      | '.' :: frac =>
        let k := digitRunLength Char.isDigit frac
        n + 1 + k + exponentLength (frac.drop k)
      | 'n' :: _ => n + 1
      | _ => n + exponentLength rest
    else if rest.head? == some 'n' then n + 1 else n

/-- The length of the number at the head. -/
def numberLength (cs : List Char) : Nat :=
  match radixLength cs with
  | 0 => decimalLength cs
  | n => n

/-! ## Signs -/

/-- The length of the sign at the head, the longest that fits. A question mark
    before a fraction such as `.5` stands alone. -/
def signLength : List Char → Nat
  | '>' :: '>' :: '>' :: '=' :: _ => 4
  | '.' :: '.' :: '.' :: _ => 3
  | '=' :: '=' :: '=' :: _ => 3
  | '!' :: '=' :: '=' :: _ => 3
  | '*' :: '*' :: '=' :: _ => 3
  | '<' :: '<' :: '=' :: _ => 3
  | '>' :: '>' :: '=' :: _ => 3
  | '>' :: '>' :: '>' :: _ => 3
  | '&' :: '&' :: '=' :: _ => 3
  | '|' :: '|' :: '=' :: _ => 3
  | '?' :: '?' :: '=' :: _ => 3
  | '?' :: '.' :: c :: _ => if c.isDigit then 1 else 2
  | c :: d :: _ =>
    if [('=', '>'), ('=', '='), ('!', '='), ('<', '='), ('>', '='), ('&', '&'), ('|', '|'),
        ('?', '?'), ('?', '.'), ('+', '+'), ('-', '-'), ('+', '='), ('-', '='), ('*', '='),
        ('/', '='), ('%', '='), ('&', '='), ('|', '='), ('^', '='), ('<', '<'), ('>', '>'),
        ('*', '*')].contains (c, d) then 2
    else if isPunctuation c && c != '\\' && c != '\x22' && c != '\x27' then 1 else 0
  | [c] => if isPunctuation c && c != '\\' && c != '\x22' && c != '\x27' then 1 else 0
  | [] => 0

/-! ## Tokens -/

/-- A token as it reads outside templates, patterns and markup. -/
inductive Token where
  /-- A name or keyword, as written. -/
  | word (text : String)
  /-- `#name` -/
  | privateName
  | number
  /-- A text in single or double quotes. -/
  | quoted
  | sign (text : String)
  /-- The end of the text. -/
  | finish
  /-- A character that starts no token, or a text whose quote is not closed. -/
  | stray
  deriving DecidableEq, Repr, Inhabited

/-- The token at the head and its length. -/
def Token.scan : List Char → Token × Nat
  | [] => (.finish, 0)
  | c :: cs =>
    if c == '\x22' || c == '\x27' then
      match quotedLength c 0 1 cs with
      | some n => (.quoted, n)
      | none => (.stray, 0)
    else if c.isDigit || (c == '.' && (cs.head?.map Char.isDigit).getD false) then
      (.number, numberLength (c :: cs))
    else if c == '#' then
      match wordLength cs with
      | 0 => (.sign "#", 1)
      | n => (.privateName, n + 1)
    else
      match wordLength (c :: cs) with
      | 0 =>
        match signLength (c :: cs) with
        | 0 => (.stray, 0)
        | n => (.sign (String.ofList ((c :: cs).take n)), n)
      | n => (.word (String.ofList ((c :: cs).take n)), n)

/-- Signs that assign. -/
def assignmentSigns : List String :=
  ["=", "+=", "-=", "*=", "/=", "%=", "**=", "<<=", ">>=", ">>>=", "&=", "|=", "^=", "&&=", "||=",
    "??="]

/-- Signs after which something has to follow: neither an operator nor the end of a
    statement can come. -/
def openSigns : List String :=
  [";", "\x7b", "(", "[", ",", ":", "?", "=>", "...", ".", "?.", "*"] ++ assignmentSigns

/-- Words after which something has to follow. -/
def openWords : List String :=
  ["case", "catch", "class", "const", "default", "delete", "do", "else", "export", "extends",
    "finally", "for", "function", "if", "import", "in", "instanceof", "new", "switch", "throw",
    "try", "typeof", "var", "void", "while", "with"]

/-- Whether something has to follow the token that stands after `before`. The word
    after a dot is a plain name. -/
def Token.isOpen (before : Token) : Token → Bool
  | .sign s => openSigns.contains s
  | .word w => before != .sign "." && before != .sign "?." && openWords.contains w
  | _ => false

end RoleLint.Grammar
