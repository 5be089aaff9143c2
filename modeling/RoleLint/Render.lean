import RoleLint.Analysis
import RoleLint.Json.Printer
import RoleLint.Wire

/- How results are printed: as JSON, as text for people, or with one line for each
   finding. The two texts count columns from one, in 64 bits.

   Correspondence with `rag_cli::commands::output`: `render`, `render_json`, `render_text`,
   `render_compact` ↔ the functions of `Result` with these names; `OutputFormat` of
   `rag_cli` ↔ `OutputFormat`. -/
namespace RoleLint

/-- An output format. -/
inductive OutputFormat where
  | json
  | text
  | compact
  deriving DecidableEq, Repr, Inhabited

namespace OutputFormat

/-- The format's name. -/
def name : OutputFormat → String
  | json => "json"
  | text => "text"
  | compact => "compact"

/-- All formats. -/
def all : List OutputFormat := [json, text, compact]

/-- The format called `s`. -/
def ofName? (s : String) : Option OutputFormat :=
  all.find? fun f => f.name == s

/-- The format called `s`; case does not matter. -/
def ofNameAnyCase? (s : String) : Option OutputFormat :=
  all.find? fun f => lowerText f.name.toList == lowerText s.toList

end OutputFormat

/-- Why a result could not be printed. -/
inductive RenderError where
  /-- The path of the file is not UTF-8. -/
  | pathNotText
  deriving DecidableEq, Repr

/-- The wording of a render error. -/
def RenderError.message : RenderError → String
  | pathNotText => "path contains invalid UTF-8 characters"

namespace Result

/-- The column of a location counted from one. -/
def shownColumn (l : Location) : Nat :=
  (l.column + 1) % Wire.numberLimit

/-- `file:line:column`, with the column counted from one. -/
def place (file : String) (l : Location) : String :=
  file ++ ":" ++ Nat.repr l.line ++ ":" ++ Nat.repr (shownColumn l)

/-- Lets a terminal go on in red. -/
def red : String := "\x1b[31m"

/-- Lets a terminal go on in green. -/
def green : String := "\x1b[32m"

/-- Lets a terminal go on in yellow. -/
def yellow : String := "\x1b[33m"

/-- Lets a terminal go on in its own colour. -/
def plain : String := "\x1b[0m"

/-- The colour of a severity. -/
def colour : Severity → String
  | .error => red
  | .warning => yellow

/-- A finding for people. -/
def textEntry (file : String) (v : Violation) : String :=
  v.ruleId ++ " at " ++ place file v.location ++ "\n" ++
    "  " ++ colour v.severity ++ v.severity.name ++ plain ++ ": " ++ v.message ++ "\n" ++
    "  = in " ++ v.function.kind.name ++ " `" ++ v.function.name ++ "`\n\n"

/-- The colour of the last line: that of the worst finding. -/
def summaryColour (r : Result) : String :=
  if 0 < r.errorCount then red else if 0 < r.warningCount then yellow else green

/-- A result for people: the findings and how many there are. -/
def renderText (r : Result) : String :=
  String.join (r.violations.map (textEntry r.filePath.shown)) ++
    r.summaryColour ++ "Found " ++ Nat.repr r.errorCount ++ " error(s), " ++
    Nat.repr r.warningCount ++ " warning(s) in " ++ r.filePath.shown ++ plain ++ "\n"

/-- A finding on one line. -/
def compactEntry (file : String) (v : Violation) : String :=
  place file v.location ++ ": " ++ v.severity.name ++ " [" ++ v.ruleId ++ "] " ++ v.message ++ "\n"

/-- A result with one line for each finding. -/
def renderCompact (r : Result) : String :=
  String.join (r.violations.map (compactEntry r.filePath.shown))

/-- A result as JSON. -/
def renderJson (r : Result) (pretty : Bool) : Except RenderError String :=
  match Wire.ofResult? r with
  | some j => .ok (j.render pretty ++ "\n")
  | none => .error .pathNotText

/-- A result in the given format. Only JSON can fail: the other two show the path as
    well as they can. -/
def render (r : Result) (format : OutputFormat) (pretty : Bool) : Except RenderError String :=
  match format with
  | .json => r.renderJson pretty
  | .text => .ok r.renderText
  | .compact => .ok r.renderCompact

end Result

end RoleLint
