import RoleLint.Grammar.Character
import RoleLint.Toml.Fault

/- The smallest parts of a TOML text: blanks, comments, texts in quotes, and keys.

   Correspondence: the strings and keys of the crate `toml` ↔ `readQuoted`, `readKey`. -/
namespace RoleLint.Toml

/-! ## Blanks and comments -/

/-- The text after the spaces and tabs that it starts with. -/
def skipBlanks : List Char → List Char
  | [] => []
  | c :: cs => if c == ' ' || c == '\t' then skipBlanks cs else c :: cs

/-- The text after a line break, if it starts with one. -/
def afterBreak? : List Char → Option (List Char)
  | '\n' :: cs => some cs
  | '\r' :: '\n' :: cs => some cs
  | _ => none

/-- Characters that comments and texts in quotes may hold. -/
def isPrintable (c : Char) : Bool :=
  c == '\t' || (0x20 ≤ c.toNat && c.toNat != 0x7f)

/-- The text after the comment that it may start with. -/
def skipComment : List Char → List Char
  | '#' :: cs => cs.dropWhile isPrintable
  | cs => cs

/-- The end of a line: blanks, a comment, and a line break or the end of the text. -/
def lineEnd (cs : List Char) : Step Unit :=
  match skipComment (skipBlanks cs) with
  | [] => .ok ((), [])
  | rest =>
    match afterBreak? rest with
    | some after => .ok ((), after)
    | none => refuse rest

/-- Past blanks, line breaks and comments with a line break after them; `fuel`
    bounds their number. -/
def skipSpace : Nat → List Char → List Char
  | 0, cs => cs
  | fuel + 1, cs =>
    let rest := skipBlanks cs
    match afterBreak? (skipComment rest) with
    | some after => skipSpace fuel after
    | none => rest

/-! ## Escapes -/

/-- The character that hexadecimal digits stand for. -/
def hexChar? (ds : List Char) : Option Char :=
  match ds.mapM hexValue? with
  | none => none
  | some vs =>
    let n := vs.foldl (fun n v => 16 * n + v) 0
    if n.isValidChar then some (Char.ofNat n) else none

/-- The character that an escape stands for, after its backslash, and the number of
    characters it takes. -/
def escape? : List Char → Option (Char × Nat)
  | [] => none
  | c :: cs =>
    if c == '\x22' || c == '\\' then some (c, 1)
    else if c == 'b' then some ('\x08', 1)
    else if c == 't' then some ('\t', 1)
    else if c == 'n' then some ('\n', 1)
    else if c == 'f' then some ('\x0c', 1)
    else if c == 'r' then some ('\r', 1)
    else if c == 'u' && 4 ≤ cs.length then (hexChar? (cs.take 4)).map (·, 5)
    else if c == 'U' && 8 ≤ cs.length then (hexChar? (cs.take 8)).map (·, 9)
    else none

/-! ## Texts in quotes -/

/-- A character in front of what a step reads. -/
def consStep (c : Char) : Step (List Char) → Step (List Char)
  | .ok (s, rest) => .ok (c :: s, rest)
  | .error f => .error f

/-- A text on one line up to its closing quote. The next `skip` characters are the
    rest of an escape. -/
def readBasic (skip : Nat) : List Char → Step (List Char)
  | [] => refuse []
  | c :: cs =>
    match skip with
    | n + 1 => readBasic n cs
    | 0 =>
      if c == '\x22' then .ok ([], cs)
      else if c == '\\' then
        match escape? cs with
        | some (e, n) => consStep e (readBasic n cs)
        | none => refuse (c :: cs)
      else if isPrintable c then consStep c (readBasic 0 cs)
      else refuse (c :: cs)

/-- A text without escapes on one line up to its closing quote. -/
def readLiteral : List Char → Step (List Char)
  | [] => refuse []
  | c :: cs =>
    if c == '\x27' then .ok ([], cs)
    else if isPrintable c then consStep c (readLiteral cs)
    else refuse (c :: cs)

/-- What is left after blanks and line breaks. A carriage return counts only as
    part of a line break. -/
def skipBlankLines : List Char → List Char
  | '\r' :: '\n' :: cs => skipBlankLines cs
  | c :: cs => if c == ' ' || c == '\t' || c == '\n' then skipBlankLines cs else c :: cs
  | [] => []

/-- How many of the characters after a backslash belong to an escaped line break:
    blanks, the break, and all blanks and breaks after it. -/
def escapedBreak? (cs : List Char) : Option Nat :=
  (afterBreak? (skipBlanks cs)).map fun rest => cs.length - (skipBlankLines rest).length

/-- A text on several lines up to its three closing quotes; up to two more quotes
    before them are part of it. The next `skip` characters are the rest of something
    read before. Line breaks are line feeds. -/
def readLong (quote : Char) (escapes : Bool) (skip : Nat) : List Char → Step (List Char)
  | [] => refuse []
  | c :: cs =>
    match skip with
    | n + 1 => readLong quote escapes n cs
    | 0 =>
      if c == quote then
        let run := 1 + (cs.takeWhile (· == quote)).length
        if run < 3 then consStep c (readLong quote escapes 0 cs)
        else
          let extra := min (run - 3) 2
          .ok (List.replicate extra quote, cs.drop (extra + 2))
      else if escapes && c == '\\' then
        match escapedBreak? cs with
        | some n => readLong quote escapes n cs
        | none =>
          match escape? cs with
          | some (e, n) => consStep e (readLong quote escapes n cs)
          | none => refuse (c :: cs)
      else if c == '\n' then consStep c (readLong quote escapes 0 cs)
      else if c == '\r' then
        if cs.head? == some '\n' then readLong quote escapes 0 cs else refuse (c :: cs)
      else if isPrintable c then consStep c (readLong quote escapes 0 cs)
      else refuse (c :: cs)

/-- A text on several lines after its three opening quotes. A line break directly
    after them is not part of it. -/
def readLongText (quote : Char) (cs : List Char) : Step (List Char) :=
  readLong quote (quote == '\x22') 0 ((afterBreak? cs).getD cs)

/-- A text in quotes, from its first quote on. -/
def readQuoted : List Char → Step String
  | cs =>
    let text : Step (List Char) :=
      match cs with
      | '\x22' :: '\x22' :: '\x22' :: rest => readLongText '\x22' rest
      | '\x27' :: '\x27' :: '\x27' :: rest => readLongText '\x27' rest
      | '\x22' :: rest => readBasic 0 rest
      | '\x27' :: rest => readLiteral rest
      | rest => refuse rest
    match text with
    | .ok (s, rest) => .ok (String.ofList s, rest)
    | .error f => .error f

/-! ## Keys -/

/-- Characters of keys without quotes. -/
def isKeyChar (c : Char) : Bool :=
  c.isAlphanum || c == '-' || c == '_'

/-- One part of a key. -/
def readKeyPart (cs : List Char) : Step String :=
  match cs with
  | '\x22' :: rest =>
    match readBasic 0 rest with
    | .ok (s, rest) => .ok (String.ofList s, rest)
    | .error f => .error f
  | '\x27' :: rest =>
    match readLiteral rest with
    | .ok (s, rest) => .ok (String.ofList s, rest)
    | .error f => .error f
  | _ =>
    let part := cs.takeWhile isKeyChar
    if part.isEmpty then refuse cs else .ok (String.ofList part, cs.dropWhile isKeyChar)

/-- A key: parts with dots between them and blanks around them; `fuel` bounds their
    number. -/
def readKeyParts : Nat → List Char → Except Fault (List String × List Char)
  | 0, cs => refuse cs
  | fuel + 1, cs => do
    let (part, rest) ← readKeyPart (skipBlanks cs)
    match skipBlanks rest with
    | '.' :: rest =>
      let (parts, rest) ← readKeyParts fuel rest
      pure (part :: parts, rest)
    | rest => pure ([part], rest)

/-- The number of parts from which on a key is too long, and of brackets from which
    on they are nested too deep. -/
def depthLimit : Nat := 80

/-- A key. -/
def readKey (cs : List Char) : Except Fault (List String × List Char) := do
  let (parts, rest) ← readKeyParts cs.length cs
  if depthLimit ≤ parts.length then .error (Fault.here .tooDeep cs)
  else pure (parts, rest)

end RoleLint.Toml
