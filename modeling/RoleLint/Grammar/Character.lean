/- Character classes of source text: what separates tokens, what ends a line, what a
   digit is worth and what a word may hold. Words are open to every character that is not a
   control, a blank or ASCII punctuation other than `$` and `_`, so letters of
   all scripts and pictographs are allowed.

   Correspondence: the character classes of `tree_sitter_javascript` (`extras`, `identifier`). -/
namespace RoleLint

/-- The value of a hexadecimal digit. -/
def hexValue? (c : Char) : Option Nat :=
  if '0' ≤ c && c ≤ '9' then some (c.toNat - '0'.toNat)
  else if 'a' ≤ c && c ≤ 'f' then some (c.toNat - 'a'.toNat + 10)
  else if 'A' ≤ c && c ≤ 'F' then some (c.toNat - 'A'.toNat + 10)
  else none

namespace Grammar

/-- Blanks between tokens: Unicode white space, the byte-order mark, the word
    joiner and the zero-width space. -/
def isBlank (c : Char) : Bool :=
  let n := c.toNat
  (9 ≤ n && n ≤ 13) || n == 32 || n == 0x85 || n == 0xA0 || n == 0x1680 ||
    (0x2000 ≤ n && n ≤ 0x200B) || n == 0x2028 || n == 0x2029 || n == 0x202F ||
    n == 0x205F || n == 0x2060 || n == 0x3000 || n == 0xFEFF

/-- The six ASCII blanks. -/
def isAsciiBlank (c : Char) : Bool :=
  let n := c.toNat
  (9 ≤ n && n ≤ 13) || n == 32

/-- The two line separators outside ASCII. -/
def isSeparator (c : Char) : Bool :=
  c.toNat == 0x2028 || c.toNat == 0x2029

/-- Where a `//` comment ends. -/
def isLineEnd (c : Char) : Bool :=
  c == '\n' || c == '\r' || isSeparator c

/-- ASCII punctuation that no word may hold. -/
def isPunctuation (c : Char) : Bool :=
  let n := c.toNat
  33 ≤ n && n ≤ 126 && !c.isAlphanum && c != '$' && c != '_'

/-- Characters that may stand inside a word. -/
def isWordChar (c : Char) : Bool :=
  32 ≤ c.toNat && !isBlank c && !isPunctuation c

/-- Hexadecimal digits. -/
def isHexDigit (c : Char) : Bool :=
  (hexValue? c).isSome

/-- Octal digits. -/
def isOctalDigit (c : Char) : Bool :=
  '0' ≤ c && c ≤ '7'

/-- Binary digits. -/
def isBinaryDigit (c : Char) : Bool :=
  c == '0' || c == '1'

end Grammar

end RoleLint
