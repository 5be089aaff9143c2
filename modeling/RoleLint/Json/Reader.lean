import RoleLint.Grammar.Character
import RoleLint.Json

/- Reading JSON texts. The grammar is strict: nothing but one value, with blanks
   around its parts.

   1. texts, with surrogate pairs joined to one character;
   2. numbers;
   3. values; `Json.parse?` reads a whole text.

   Correspondence: `serde_json::from_str` ↔ `parse?`. -/
namespace RoleLint.Json

/-- The rest of a text after the blanks that it starts with. -/
def skipBlanks : List Char → List Char
  | [] => []
  | c :: cs =>
    if c == ' ' || c == '\t' || c == '\n' || c == '\r' then skipBlanks cs else c :: cs

/-! ## Texts -/

/-- What a text is made of: characters, and halves of surrogate pairs. -/
inductive TextUnit where
  | char (c : Char)
  | half (n : Nat)
  deriving DecidableEq, Repr

/-- The unit that four hexadecimal digits stand for. -/
def hexUnit? (a b c d : Char) : Option TextUnit :=
  match hexValue? a, hexValue? b, hexValue? c, hexValue? d with
  | some w, some x, some y, some z =>
    let n := ((w * 16 + x) * 16 + y) * 16 + z
    if 0xD800 ≤ n && n < 0xE000 then some (.half n) else some (.char (Char.ofNat n))
  | _, _, _, _ => none

/-- The character that a backslash before `c` stands for. -/
def escaped? (c : Char) : Option Char :=
  if c == '\x22' || c == '\\' || c == '/' then some c
  else if c == 'b' then some '\x08'
  else if c == 'f' then some '\x0c'
  else if c == 'n' then some '\n'
  else if c == 'r' then some '\r'
  else if c == 't' then some '\t'
  else none

/-- The units of a text up to its closing quote, and what comes after. -/
def readUnits : List Char → Option (List TextUnit × List Char)
  | [] => none
  | '\\' :: 'u' :: a :: b :: c :: d :: cs =>
    match hexUnit? a b c d, readUnits cs with
    | some u, some (us, rest) => some (u :: us, rest)
    | _, _ => none
  | '\\' :: e :: cs =>
    match escaped? e, readUnits cs with
    | some c, some (us, rest) => some (.char c :: us, rest)
    | _, _ => none
  | c :: cs =>
    if c == '\x22' then some ([], cs)
    else if c == '\\' || c.toNat < 0x20 then none
    else
      match readUnits cs with
      | some (us, rest) => some (.char c :: us, rest)
      | none => none

/-- The characters of a text, unless half of a pair stands alone. -/
def joinUnits : List TextUnit → Option (List Char)
  | [] => some []
  | .char c :: us => (joinUnits us).map (c :: ·)
  | .half h :: .half l :: us =>
    if h < 0xDC00 && 0xDC00 ≤ l then
      (joinUnits us).map (Char.ofNat (0x10000 + (h - 0xD800) * 0x400 + (l - 0xDC00)) :: ·)
    else none
  | .half _ :: _ => none

/-- A text after its opening quote; `none` inside stands for one that holds half of
    a pair. -/
def readText (cs : List Char) : Option (Option String × List Char) :=
  (readUnits cs).map fun (us, rest) => ((joinUnits us).map String.ofList, rest)

/-! ## Numbers -/

/-- The digits that a text starts with, and the rest. -/
def splitDigits (cs : List Char) : List Char × List Char :=
  (cs.takeWhile Char.isDigit, cs.dropWhile Char.isDigit)

/-- The number that digits stand for. -/
def ofDigits (ds : List Char) : Nat :=
  ds.foldl (fun n d => 10 * n + (d.toNat - '0'.toNat)) 0

/-- Whether digits may be the integer part of a number. -/
def isInteger (ds : List Char) : Bool :=
  !ds.isEmpty && (ds.head? != some '0' || ds.length == 1)

/-- What follows a fraction, if the text starts with one or with none at all; the
    flag says that there was one. -/
def skipFraction : List Char → Option (Bool × List Char)
  | '.' :: cs =>
    let (ds, rest) := splitDigits cs
    if ds.isEmpty then none else some (true, rest)
  | cs => some (false, cs)

/-- The same for an exponent. -/
def skipExponent : List Char → Option (Bool × List Char)
  | [] => some (false, [])
  | c :: cs =>
    if c == 'e' || c == 'E' then
      let body :=
        match cs with
        | '+' :: r | '-' :: r => r
        | r => r
      let (ds, rest) := splitDigits body
      if ds.isEmpty then none else some (true, rest)
    else some (false, c :: cs)

/-- A number. -/
def readNumber (cs : List Char) : Option (Json × List Char) :=
  let (negative, body) :=
    match cs with
    | '-' :: r => (true, r)
    | r => (false, r)
  let (ds, rest) := splitDigits body
  if isInteger ds then
    match skipFraction rest with
    | none => none
    | some (fraction, rest) =>
      match skipExponent rest with
      | none => none
      | some (exponent, rest) =>
        if negative || fraction || exponent then some (other, rest)
        else some (natural (ofDigits ds), rest)
  else none

/-! ## Values -/

/-- A member with its key in front; a key that cannot be used makes the object so. -/
def addMember (key : Option String) (x : Json) (o : Json) : Json :=
  match key, o with
  | some k, object ms => object ((k, x) :: ms)
  | _, _ => other

mutual

/-- A value at the start of a text; `fuel` bounds the nesting and the items. -/
def readValue : Nat → List Char → Option (Json × List Char)
  | 0, _ => none
  | fuel + 1, cs =>
    match skipBlanks cs with
    | 'n' :: 'u' :: 'l' :: 'l' :: rest => some (null, rest)
    | 't' :: 'r' :: 'u' :: 'e' :: rest => some (bool true, rest)
    | 'f' :: 'a' :: 'l' :: 's' :: 'e' :: rest => some (bool false, rest)
    | '\x22' :: rest =>
      (readText rest).map fun (s, rest) => ((s.map text).getD other, rest)
    | '[' :: rest =>
      match skipBlanks rest with
      | ']' :: rest => some (list [], rest)
      | rest => (readItems fuel rest).map fun (xs, rest) => (list xs, rest)
    | '\x7b' :: rest =>
      match skipBlanks rest with
      | '\x7d' :: rest => some (object [], rest)
      | rest => readMembers fuel rest
    | rest => readNumber rest

/-- The items of a list up to its closing bracket, which is passed. -/
def readItems : Nat → List Char → Option (List Json × List Char)
  | 0, _ => none
  | fuel + 1, cs =>
    match readValue fuel cs with
    | none => none
    | some (x, rest) =>
      match skipBlanks rest with
      | ']' :: rest => some ([x], rest)
      | ',' :: rest => (readItems fuel rest).map fun (xs, rest) => (x :: xs, rest)
      | _ => none

/-- The members of an object up to its closing brace, which is passed. -/
def readMembers : Nat → List Char → Option (Json × List Char)
  | 0, _ => none
  | fuel + 1, cs =>
    match skipBlanks cs with
    | '\x22' :: rest =>
      match readText rest with
      | none => none
      | some (key, rest) =>
        match skipBlanks rest with
        | ':' :: rest =>
          match readValue fuel rest with
          | none => none
          | some (x, rest) =>
            match skipBlanks rest with
            | '\x7d' :: rest => some (addMember key x (object []), rest)
            | ',' :: rest => (readMembers fuel rest).map fun (o, rest) => (addMember key x o, rest)
            | _ => none
        | _ => none
    | _ => none

end

/-- The value of a text that holds one value and blanks. -/
def parse? (s : String) : Option Json :=
  match readValue (2 * s.toList.length + 2) s.toList with
  | some (j, rest) => if (skipBlanks rest).isEmpty then some j else none
  | none => none

end RoleLint.Json
