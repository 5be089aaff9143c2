/- Texts as the system hands them over: bytes that are UTF-8 as a rule, but need not be.

   1. `RawText`, and the bytes of a text.
   2. `decode` - bytes read as UTF-8, one byte at a time.
   3. `shown`, `text?` - a raw text for people, and as a text if it is one.

   Correspondence:
     `std::ffi::OsString`      ↔ `RawText`
     `OsStr::to_str`           ↔ `text?`
     `Path::display` (lossy)   ↔ `shown` -/
namespace RoleLint

/-- A text that need not be UTF-8. -/
structure RawText where
  bytes : List UInt8
  deriving DecidableEq, Repr, Inhabited

namespace RawText

/-- The bytes of some characters. -/
def encode (cs : List Char) : List UInt8 :=
  cs.flatMap String.utf8EncodeChar

/-- A text as its bytes. -/
def ofString (s : String) : RawText := ⟨encode s.toList⟩

instance : Coe String RawText := ⟨ofString⟩

/-- Whether there are no bytes. -/
def isEmpty (r : RawText) : Bool := r.bytes.isEmpty

/-! ## Decoding -/

/-- A character of which only some bytes have been read. -/
structure Begun where
  /-- The bits that these bytes carry. -/
  bits : Nat
  /-- The least byte that may come next. -/
  low : Nat
  /-- The greatest byte that may come next. -/
  high : Nat
  /-- How many bytes come after the next one. -/
  more : Nat
  deriving DecidableEq, Repr

/-- The character that a leading byte begins. The bounds of the second byte leave out
    overlong forms, surrogates and numbers beyond the last character. -/
def begun? (b : Nat) : Option Begun :=
  if b < 0xc2 then none
  else if b < 0xe0 then some ⟨b - 0xc0, 0x80, 0xbf, 0⟩
  else if b = 0xe0 then some ⟨0, 0xa0, 0xbf, 1⟩
  else if b = 0xed then some ⟨0xd, 0x80, 0x9f, 1⟩
  else if b < 0xf0 then some ⟨b - 0xe0, 0x80, 0xbf, 1⟩
  else if b = 0xf0 then some ⟨0, 0x90, 0xbf, 2⟩
  else if b < 0xf4 then some ⟨b - 0xf0, 0x80, 0xbf, 2⟩
  else if b = 0xf4 then some ⟨4, 0x80, 0x8f, 2⟩
  else none

/-- What is shown in place of bytes that are no character. -/
def replacement : Char := '\ufffd'

/-- A byte between two characters: what it lets one write down, and what it begins. -/
def start (b : Nat) : List Char × Option Begun :=
  if b < 0x80 then ([Char.ofNat b], none)
  else
    match begun? b with
    | some p => ([], some p)
    | none => ([replacement], none)

/-- A byte after `state`. One that does not fit what is begun ends that and is read
    afresh. -/
def step (state : Option Begun) (b : Nat) : List Char × Option Begun :=
  match state with
  | none => start b
  | some p =>
    if p.low ≤ b ∧ b ≤ p.high then
      let bits := p.bits * 0x40 + (b - 0x80)
      match p.more with
      | 0 => ([Char.ofNat bits], none)
      | more + 1 => ([], some ⟨bits, 0x80, 0xbf, more⟩)
    else
      let (cs, next) := start b
      (replacement :: cs, next)

/-- The characters of some bytes after `state`. -/
def decode : Option Begun → List UInt8 → List Char
  | none, [] => []
  | some _, [] => [replacement]
  | state, b :: bs =>
    let (cs, next) := step state b.toNat
    cs ++ decode next bs

/-! ## Readings -/

/-- The characters of a raw text; what is none has its replacement. -/
def chars (r : RawText) : List Char := decode none r.bytes

/-- A raw text for people. -/
def shown (r : RawText) : String := String.ofList r.chars

/-- A raw text as a text, if nothing in it had to be replaced. -/
def text? (r : RawText) : Option String :=
  if encode r.chars = r.bytes then some r.shown else none

end RawText

end RoleLint
