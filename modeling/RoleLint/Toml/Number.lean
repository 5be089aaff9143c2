import RoleLint.Toml.Text

/- Integers and floating point numbers of TOML texts. Integers have 64 bits.

   Correspondence: the integers and floats of the crate `toml` ↔ `readInteger`, `readFloat`. -/
namespace RoleLint.Toml

/-- The number that digits of a base stand for, with `_` left out. -/
def valueIn (base : Nat) (ds : List Char) : Nat :=
  (ds.filterMap hexValue?).foldl (fun n v => base * n + v) 0

/-- Digits with single underscores between them; the text has to start with one. -/
def digitRun (isDigit : Char → Bool) : List Char → Step (List Char)
  | [] => refuse []
  | c :: cs =>
    if isDigit c then
      match cs with
      | '_' :: d :: rest =>
        if isDigit d then consStep c (consStep '_' (digitRun isDigit (d :: rest)))
        else refuse (d :: rest)
      | ['_'] => refuse []
      | d :: rest => if isDigit d then consStep c (digitRun isDigit (d :: rest)) else .ok ([c], cs)
      | [] => .ok ([c], [])
    else refuse (c :: cs)

/-- The sign of a number, and the text after it. -/
def splitSign : List Char → Bool × List Char
  | '-' :: cs => (true, cs)
  | '+' :: cs => (false, cs)
  | cs => (false, cs)

/-- The digits of a decimal integer; one that starts with zero is zero. -/
def decimalDigits : List Char → Step (List Char)
  | '0' :: cs => .ok (['0'], cs)
  | cs => digitRun Char.isDigit cs

/-- A number that fits 64 bits. -/
def bounded (negative : Bool) (n : Nat) (cs rest : List Char) : Step Int :=
  if n < Nat.pow 2 63 || (negative && n == Nat.pow 2 63) then
    .ok (if negative then -Int.ofNat n else Int.ofNat n, rest)
  else .error (Fault.here .outOfRange cs)

/-- Whether a character is a digit of the base with the given mark. -/
def radix? : Char → Option (Nat × (Char → Bool))
  | 'x' => some (16, fun c => (hexValue? c).isSome)
  | 'o' => some (8, fun c => '0' ≤ c && c ≤ '7')
  | 'b' => some (2, fun c => c == '0' || c == '1')
  | _ => none

/-- An integer. -/
def readInteger (cs : List Char) : Except Fault (Int × List Char) :=
  let decimal : Except Fault (Int × List Char) := do
    let (negative, body) := splitSign cs
    let (ds, rest) ← decimalDigits body
    bounded negative (valueIn 10 ds) cs rest
  match cs with
  | '0' :: mark :: body =>
    match radix? mark with
    | some (base, isDigit) => do
      let (ds, rest) ← digitRun isDigit body
      bounded false (valueIn base ds) cs rest
    | none => decimal
  | _ => decimal

/-- The exponent of a number, if one stands here: its sign and digits. -/
def readExponent (cs : List Char) : Except Fault (Option (Bool × List Char) × List Char) :=
  match cs with
  | 'e' :: body | 'E' :: body => do
    let (negative, body) := splitSign body
    let (ds, rest) ← digitRun Char.isDigit body
    pure (some (negative, ds), rest)
  | _ => .ok (none, cs)

/-- The digits of a fraction, if one stands here. -/
def readFraction (cs : List Char) : Except Fault (Option (List Char) × List Char) :=
  match cs with
  | '.' :: body => do
    let (ds, rest) ← digitRun Char.isDigit body
    pure (some ds, rest)
  | _ => .ok (none, cs)

/-- Whether `m * 10 ^ e` is too large for a floating point number of 64 bits, where
    `e` is `up - down`. Numbers far from the bound are told by their length. -/
def overflows (m up down : Nat) : Bool :=
  let size := (Nat.toDigits 10 m).length
  if m == 0 || size + up < 300 + down then false
  else if 400 + down < size + up then true
  else (Nat.pow 2 1024 - Nat.pow 2 970) * Nat.pow 10 down ≤ m * Nat.pow 10 up

/-- A number with a fraction or an exponent; nothing if it has neither. -/
def readFloat (cs : List Char) : Except Fault (Bool × List Char) := do
  let (negative, body) := splitSign cs
  let (whole, rest) ← decimalDigits body
  let (fraction, rest) ← readFraction rest
  let (exponent, rest) ← readExponent rest
  if fraction.isNone && exponent.isNone then pure (false, cs)
  else
    let part := fraction.getD []
    let places := (part.filter (· != '_')).length
    let power := valueIn 10 ((exponent.map Prod.snd).getD [])
    let down := (exponent.map Prod.fst).getD false
    let m := valueIn 10 (whole ++ part)
    let tooLarge := if down then overflows m 0 (places + power) else overflows m power places
    if tooLarge && !negative then .error (Fault.here .outOfRange cs) else pure (true, rest)

/-- The text after `inf` or `nan`, with or without a sign. -/
def afterSpecial? (cs : List Char) : Option (List Char) :=
  match (splitSign cs).2 with
  | 'i' :: 'n' :: 'f' :: rest => some rest
  | 'n' :: 'a' :: 'n' :: rest => some rest
  | _ => none

end RoleLint.Toml
