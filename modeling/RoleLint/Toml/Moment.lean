import RoleLint.Toml.Fault

/- Dates and times of TOML texts: only whether a text starts with one, and where it
   ends.

   Correspondence: `toml::value::Datetime` ↔ `readMoment`. -/
namespace RoleLint.Toml

/-- Whether a text starts with something: it does not, it starts like it and then
    breaks the rules, or it does and so much is left. -/
inductive Attempt where
  | miss
  | broken
  | hit (rest : List Char)
  deriving DecidableEq, Repr

/-- The number that the first `n` characters stand for, if all are digits. -/
def digits? (n : Nat) (cs : List Char) : Option (Nat × List Char) :=
  let ds := cs.take n
  if ds.length == n && ds.all Char.isDigit then
    some (ds.foldl (fun k d => 10 * k + (d.toNat - '0'.toNat)) 0, cs.drop n)
  else none

/-- The number of days of a month. -/
def daysIn (year month : Nat) : Nat :=
  if month == 2 then
    if year % 4 == 0 && (year % 100 != 0 || year % 400 == 0) then 29 else 28
  else if [4, 6, 9, 11].contains month then 30
  else 31

/-- A date, as `1979-05-27`. -/
def readDate (cs : List Char) : Attempt :=
  match digits? 4 cs with
  | some (year, '-' :: rest) =>
    match digits? 2 rest with
    | some (month, '-' :: rest) =>
      match digits? 2 rest with
      | some (day, rest) =>
        if 1 ≤ month && month ≤ 12 && 1 ≤ day && day ≤ daysIn year month then .hit rest
        else .broken
      | none => .broken
    | _ => .broken
  | _ => .miss

/-- The text after a fraction of a second, if it starts with one. -/
def skipSecondFraction : List Char → List Char
  | '.' :: c :: cs => if c.isDigit then cs.dropWhile Char.isDigit else '.' :: c :: cs
  | cs => cs

/-- A time of day, as `07:32:00.5`. -/
def readTime (cs : List Char) : Attempt :=
  match digits? 2 cs with
  | some (hour, ':' :: rest) =>
    if 23 < hour then .miss
    else
      match digits? 2 rest with
      | some (minute, ':' :: rest) =>
        match digits? 2 rest with
        | some (second, rest) =>
          if minute ≤ 59 && second ≤ 60 then .hit (skipSecondFraction rest) else .broken
        | none => .broken
      | _ => .broken
  | _ => .miss

/-- The text after a time offset, if it starts with one. -/
def skipOffset (cs : List Char) : Attempt :=
  let signed (rest : List Char) : Attempt :=
    match digits? 2 rest with
    | some (hour, ':' :: rest) =>
      match digits? 2 rest with
      | some (minute, rest) => if hour ≤ 23 && minute ≤ 59 then .hit rest else .broken
      | none => .broken
    | _ => .broken
  match cs with
  | 'Z' :: rest | 'z' :: rest => .hit rest
  | '+' :: rest | '-' :: rest => signed rest
  | rest => .hit rest

/-- Whether a character may stand between a date and a time. -/
def isTimeMark (c : Char) : Bool :=
  c == 'T' || c == 't' || c == ' '

/-- A date, a time, or both. -/
def readMoment (cs : List Char) : Attempt :=
  match readDate cs with
  | .miss => readTime cs
  | .broken => .broken
  | .hit rest =>
    match rest with
    | [] => .hit []
    | mark :: after =>
      if isTimeMark mark then
        match readTime after with
        | .miss => .hit rest
        | .broken => .broken
        | .hit rest => skipOffset rest
      else .hit rest

end RoleLint.Toml
