import RoleLint.Json

/- JSON values as text, on one line or with an indentation of two spaces. In texts
   quotes, backslashes and control characters are escaped and nothing else is.

   Correspondence: `serde_json::to_string`, `to_string_pretty` ↔ `render`. -/
namespace RoleLint.Json

/-- The character of a hexadecimal digit. -/
def hexChar (n : Nat) : Char :=
  (Nat.toDigits 16 (n % 16)).headD '0'

/-- A character as it stands in a text. -/
def escapeChar (c : Char) : List Char :=
  if c == '\x22' then ['\\', '\x22']
  else if c == '\\' then ['\\', '\\']
  else if c == '\x08' then ['\\', 'b']
  else if c == '\t' then ['\\', 't']
  else if c == '\n' then ['\\', 'n']
  else if c == '\x0c' then ['\\', 'f']
  else if c == '\r' then ['\\', 'r']
  else if c.toNat < 0x20 then
    ['\\', 'u', '0', '0', hexChar (c.toNat / 16), hexChar (c.toNat % 16)]
  else [c]

/-- A text in quotes. -/
def quote (s : String) : List Char :=
  '\x22' :: s.toList.flatMap escapeChar ++ ['\x22']

/-- How values are laid out: on one line, or on lines that are indented by so many
    steps. -/
inductive Layout where
  | line
  | block (depth : Nat)
  deriving DecidableEq, Repr

namespace Layout

/-- The layout inside brackets. -/
def inner : Layout → Layout
  | line => line
  | block depth => block (depth + 1)

/-- What stands before an item or a closing bracket. -/
def gap : Layout → List Char
  | line => []
  | block depth => '\n' :: List.replicate (2 * depth) ' '

/-- What stands between a key and its value. -/
def colon : Layout → List Char
  | line => [':']
  | block _ => [':', ' ']

end Layout

mutual

/-- A value as text. A value that cannot be used is written as a number that
    cannot be used either. -/
def print (l : Layout) : Json → List Char
  | null => ['n', 'u', 'l', 'l']
  | bool true => ['t', 'r', 'u', 'e']
  | bool false => ['f', 'a', 'l', 's', 'e']
  | natural n => Nat.toDigits 10 n
  | text s => quote s
  | list [] => ['[', ']']
  | list (x :: xs) =>
    '[' :: l.inner.gap ++ print l.inner x ++ printItems l.inner xs ++ l.gap ++ [']']
  | object [] => ['\x7b', '\x7d']
  | object ((k, x) :: ms) =>
    '\x7b' :: l.inner.gap ++ quote k ++ l.inner.colon ++ print l.inner x ++
      printMembers l.inner ms ++ l.gap ++ ['\x7d']
  | other => ['-', '0']

/-- The items after the first one. -/
def printItems (l : Layout) : List Json → List Char
  | [] => []
  | x :: xs => ',' :: l.gap ++ print l x ++ printItems l xs

/-- The members after the first one. -/
def printMembers (l : Layout) : List (String × Json) → List Char
  | [] => []
  | (k, x) :: ms => ',' :: l.gap ++ quote k ++ l.colon ++ print l x ++ printMembers l ms

end

/-- A value as text, on one line or laid out for reading. -/
def render (pretty : Bool) (j : Json) : String :=
  String.ofList (print (if pretty then .block 0 else .line) j)

end RoleLint.Json
