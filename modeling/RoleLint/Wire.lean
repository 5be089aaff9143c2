import RoleLint.Config
import RoleLint.Json

/- The wire forms: how values are written as JSON and read back. Reading is strict
   about types and lenient about shape: an object may hold members that mean
   nothing, a structure may also be a list of its fields in order, and a word may
   also be an object with that word as its only key.

   1. words, texts, numbers and lists;
   2. members of objects;
   3. one pair of functions per type.

   Correspondence: the `Serialize` and `Deserialize` instances that `serde` derives for the types
   of `rag_core::types` and `rag_core::config` ↔ the pairs `ofX`, `x?` below. A path that is
   not UTF-8 has no wire form there either. -/
namespace RoleLint.Wire

/-! ## Parts -/

/-- The one of `choices` whose name is the word. -/
def readWord {α : Type} (name : α → String) (choices : List α) : Json → Option α
  | .text s => choices.find? fun a => name a == s
  | .object [(s, .null)] => choices.find? fun a => name a == s
  | _ => none

/-- A text. -/
def readText : Json → Option String
  | .text s => some s
  | _ => none

/-- A truth value. -/
def readBool : Json → Option Bool
  | .bool b => some b
  | _ => none

/-- The bound that numbers of 64 bits stay below. -/
def numberLimit : Nat := Nat.pow 2 64

/-- A number that fits 64 bits. -/
def readNumber : Json → Option Nat
  | .natural n => if n < numberLimit then some n else none
  | _ => none

/-- A list of values, each read by `item`. -/
def readList {α : Type} (item : Json → Option α) : Json → Option (List α)
  | .list xs => xs.mapM item
  | _ => none

/-- What an object holds under a key. -/
inductive Member where
  | absent
  | once (value : Json)
  | repeated

/-- What is held under the key `k`. -/
def member (k : String) : List (String × Json) → Member
  | [] => .absent
  | (k', x) :: ms =>
    if k' = k then
      match member k ms with
      | .absent => .once x
      | _ => .repeated
    else member k ms

/-- The value under a key that has to be there. -/
def required {α : Type} (item : Json → Option α) (k : String) (ms : List (String × Json)) :
    Option α :=
  match member k ms with
  | .once x => item x
  | _ => none

/-- The value under a key that may be left out. -/
def optional {α : Type} (item : Json → Option α) (default : α) (k : String)
    (ms : List (String × Json)) : Option α :=
  match member k ms with
  | .absent => some default
  | .once x => item x
  | .repeated => none

/-! ## Types -/

/-- A severity as JSON. -/
def ofSeverity (s : Severity) : Json := .text s.name

/-- A severity from JSON. -/
def severity? : Json → Option Severity :=
  readWord Severity.name Severity.all

/-- A role as JSON. -/
def ofRole (r : Role) : Json := .text r.name

/-- A role from JSON. -/
def role? : Json → Option Role :=
  readWord Role.name Role.all

/-- A dialect as JSON. -/
def ofDialect (d : Dialect) : Json := .text d.name

/-- A dialect from JSON. -/
def dialect? : Json → Option Dialect :=
  readWord Dialect.name Dialect.all

/-- A location as JSON. -/
def ofLocation (l : Location) : Json :=
  .object [("line", .natural l.line), ("column", .natural l.column)]

/-- A location from JSON. -/
def location? : Json → Option Location
  | .object ms => do
    let line ← required readNumber "line" ms
    let column ← required readNumber "column" ms
    pure ⟨line, column⟩
  | .list [l, c] => do
    let line ← readNumber l
    let column ← readNumber c
    pure ⟨line, column⟩
  | _ => none

/-- A descriptor as JSON. -/
def ofDescriptor (d : Descriptor) : Json :=
  .object
    [("name", .text d.name), ("kind", ofRole d.role), ("location", ofLocation d.location),
      ("apiCalls", .list (d.apiCalls.map ofLocation)),
      ("jsxReturns", .list (d.markupReturns.map ofLocation))]

/-- A descriptor from JSON. -/
def descriptor? : Json → Option Descriptor
  | .object ms => do
    let name ← required readText "name" ms
    let role ← required role? "kind" ms
    let location ← required location? "location" ms
    let calls ← required (readList location?) "apiCalls" ms
    let returns ← required (readList location?) "jsxReturns" ms
    pure ⟨name, role, location, calls, returns⟩
  | .list [n, k, l, a, m] => do
    let name ← readText n
    let role ← role? k
    let location ← location? l
    let calls ← readList location? a
    let returns ← readList location? m
    pure ⟨name, role, location, calls, returns⟩
  | _ => none

/-- A list of descriptors as JSON. -/
def ofDescriptors (ds : List Descriptor) : Json :=
  .list (ds.map ofDescriptor)

/-- A list of descriptors from JSON. -/
def descriptors? : Json → Option (List Descriptor) :=
  readList descriptor?

/-- A function reference as JSON. -/
def ofFunctionRef (f : FunctionRef) : Json :=
  .object [("name", .text f.name), ("kind", ofRole f.kind)]

/-- A function reference from JSON. -/
def functionRef? : Json → Option FunctionRef
  | .object ms => do
    let name ← required readText "name" ms
    let kind ← required role? "kind" ms
    pure ⟨name, kind⟩
  | .list [n, k] => do
    let name ← readText n
    let kind ← role? k
    pure ⟨name, kind⟩
  | _ => none

/-- A violation as JSON. -/
def ofViolation (v : Violation) : Json :=
  .object
    [("ruleId", .text v.ruleId), ("message", .text v.message), ("severity", ofSeverity v.severity),
      ("function", ofFunctionRef v.function), ("location", ofLocation v.location)]

/-- A violation from JSON. -/
def violation? : Json → Option Violation
  | .object ms => do
    let ruleId ← required readText "ruleId" ms
    let message ← required readText "message" ms
    let severity ← required severity? "severity" ms
    let function ← required functionRef? "function" ms
    let location ← required location? "location" ms
    pure ⟨ruleId, message, severity, function, location⟩
  | .list [r, m, s, f, l] => do
    let ruleId ← readText r
    let message ← readText m
    let severity ← severity? s
    let function ← functionRef? f
    let location ← location? l
    pure ⟨ruleId, message, severity, function, location⟩
  | _ => none

/-- A path as JSON. Only one that is a text has a form. -/
def ofPath? (p : Path) : Option Json :=
  p.text?.map .text

/-- A path from JSON. -/
def path? (j : Json) : Option Path :=
  (readText j).map RawText.ofString

/-- A result as JSON, if its path has a form. -/
def ofResult? (r : Result) : Option Json :=
  (ofPath? r.filePath).map fun path =>
    .object
      [("schemaVersion", .text r.schemaVersion), ("filePath", path),
        ("violations", .list (r.violations.map ofViolation))]

/-- A result from JSON. -/
def result? : Json → Option Result
  | .object ms => do
    let version ← required readText "schemaVersion" ms
    let path ← required path? "filePath" ms
    let violations ← required (readList violation?) "violations" ms
    pure ⟨version, path, violations⟩
  | .list [v, p, vs] => do
    let version ← readText v
    let path ← path? p
    let violations ← readList violation? vs
    pure ⟨version, path, violations⟩
  | _ => none

/-- The name of a format as JSON, or nothing. -/
def ofFormat : Option String → Json
  | none => .null
  | some s => .text s

/-- The name of a format from JSON; it may be missing. -/
def format? : Json → Option (Option String)
  | .null => some none
  | .text s => some (some s)
  | _ => none

/-- The first item of a list, or a default if the list is at its end. -/
def nextOr {α : Type} (item : Json → Option α) (default : α) : List Json → Option (α × List Json)
  | [] => some (default, [])
  | x :: xs => (item x).map fun a => (a, xs)

/-- Output settings as JSON. -/
def ofOutputSettings (o : OutputSettings) : Json :=
  .object
    [("format", ofFormat o.format), ("pretty", .bool o.pretty),
      ("fail_on_error", .bool o.failOnError)]

/-- Output settings from JSON. -/
def outputSettings? : Json → Option OutputSettings
  | .object ms => do
    let format ← optional format? none "format" ms
    let pretty ← optional readBool false "pretty" ms
    let fail ← optional readBool false "fail_on_error" ms
    pure ⟨format, pretty, fail⟩
  | .list xs => do
    let (format, xs) ← nextOr format? none xs
    let (pretty, xs) ← nextOr readBool false xs
    let (fail, xs) ← nextOr readBool false xs
    if xs.isEmpty then pure ⟨format, pretty, fail⟩ else none
  | _ => none

/-- Overrides as JSON. -/
def ofOverrides (o : Overrides) : Json :=
  .object (o.entries.map fun e => (e.1, ofDialect e.2))

/-- Overrides from JSON. -/
def overrides? : Json → Option Overrides
  | .object ms =>
    (ms.mapM fun m => (dialect? m.2).map fun d => (m.1, d)).map Overrides.ofList
  | _ => none

/-- A configuration as JSON. -/
def ofConfig (c : Config) : Json :=
  .object [("output", ofOutputSettings c.output), ("dialects", ofOverrides c.dialects)]

/-- A configuration from JSON. -/
def config? : Json → Option Config
  | .object ms => do
    let output ← optional outputSettings? {} "output" ms
    let dialects ← optional overrides? Overrides.empty "dialects" ms
    pure ⟨output, dialects⟩
  | .list xs => do
    let (output, xs) ← nextOr outputSettings? {} xs
    let (dialects, xs) ← nextOr overrides? Overrides.empty xs
    if xs.isEmpty then pure ⟨output, dialects⟩ else none
  | _ => none

end RoleLint.Wire
