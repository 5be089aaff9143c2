import RoleLint.Dialect
import RoleLint.Extract
import RoleLint.Rule

/- The analysis of one file, from its text to the findings, and what can go wrong
   on the way.

   1. `ReadError`, `AnalysisError` and their wording.
   2. `readTree`, `extract` - the functions of a text.
   3. `Result`, `analyzeTree`, `analyze` - the findings about a text.

   Correspondence:
     `rag_core::error::AnalysisError`             ↔ `AnalysisError` and its texts
     `rag_ts::javascript::JsExtractor`: `extract` ↔ `extract`, `readTree`
     `rag_core::types::AnalysisResult`            ↔ `Result`
       (`count_by_severity` ↔ `errorCount`, `warningCount`)
     `rag::runner`: `finish`, `analyze_source`    ↔ `judge`, `analyze` -/
namespace RoleLint

/-! ## Errors -/

/-- Why a file could not be read. -/
inductive ReadError where
  | notFound
  | isDirectory
  | notDirectory
  /-- The bytes of the file are not UTF-8. -/
  | invalidText
  | other (message : String)
  deriving DecidableEq, Repr

/-- The wording of a read error. -/
def ReadError.message : ReadError → String
  | notFound => "No such file or directory (os error 2)"
  | isDirectory => "Is a directory (os error 21)"
  | notDirectory => "Not a directory (os error 20)"
  | invalidText => "stream did not contain valid UTF-8"
  | other text => text

/-- Why a file could not be analyzed. -/
inductive AnalysisError where
  /-- The file could not be read. -/
  | unreadable (path : Path) (reason : ReadError)
  /-- The text does not fit the grammar of the dialect from a byte offset on. -/
  | invalidSyntax (path : Path) (dialect : Dialect) (location : Location) (offset : Nat)
  /-- There is no parser for the dialect. -/
  | noParser (dialect : Dialect) (reason : String)
  deriving DecidableEq, Repr

namespace AnalysisError

/-- The wording of an error. -/
def message : AnalysisError → String
  | unreadable path reason => "failed to read " ++ path.shown ++ ": " ++ reason.message
  | invalidSyntax path dialect location _ =>
    "syntax error in " ++ path.shown ++ " at " ++ location.text ++ " (" ++ dialect.name ++ ")"
  | noParser dialect reason => dialect.name ++ " parser unavailable: " ++ reason

/-- The code under which an error is documented. -/
def code : AnalysisError → String
  | unreadable .. => "rag::io"
  | invalidSyntax .. => "rag::syntax"
  | noParser .. => "rag::grammar"

/-- Advice on an error. -/
def help? : AnalysisError → Option String
  | invalidSyntax .. => some "check that the file extension or --dialect matches the source"
  | _ => none

/-- Whether the text did not fit the grammar. -/
def isSyntax : AnalysisError → Bool
  | invalidSyntax .. => true
  | _ => false

end AnalysisError

/-! ## Functions of a text -/

/-- The language that this analysis is about. -/
def languageId : String := "javascript"

/-- The functions of a text whose syntax tree is `tree`, unless the tree has a
    fault; then the first one is the error. -/
def readTree (path : Path) (dialect : Dialect) (text : List Char) (tree : Tree) :
    Except AnalysisError (List Descriptor) :=
  let source := Source.ofText text
  match tree.firstFault with
  | some fault => .error (.invalidSyntax path dialect (source.locationOf fault) fault.start)
  | none => .ok (descriptors source tree)

/-- The functions of a text. The path only serves error messages. -/
def extract (path : Path) (dialect : Dialect) (text : List Char) :
    Except AnalysisError (List Descriptor) :=
  readTree path dialect text (dialect.parse text)

/-! ## Findings about a text -/

/-- The version of the form in which results are written. -/
def schemaVersion : String := "1.0.0"

/-- The outcome of analyzing a file. -/
structure Result where
  schemaVersion : String
  filePath : Path
  /-- The findings in the order of reports. -/
  violations : List Violation
  deriving DecidableEq, Repr, Inhabited

namespace Result

/-- The result of a file with the given findings. -/
def ofViolations (path : Path) (violations : List Violation) : Result :=
  ⟨RoleLint.schemaVersion, path, violations⟩

/-- Whether nothing was found. -/
def isClean (r : Result) : Bool :=
  r.violations.isEmpty

/-- Whether some finding is an error. -/
def hasErrors (r : Result) : Bool :=
  r.violations.any fun v => v.severity == .error

/-- How many findings are errors. -/
def errorCount (r : Result) : Nat :=
  r.violations.countP fun v => v.severity == .error

/-- How many findings are no errors. -/
def warningCount (r : Result) : Nat :=
  r.violations.length - r.errorCount

end Result

/-- The result that some functions of a file lead to. -/
def judge (path : Path) (functions : List Descriptor) : Result :=
  Result.ofViolations path (report Rule.all functions)

/-- The findings about a text whose syntax tree is `tree`. -/
def analyzeTree (path : Path) (dialect : Dialect) (text : List Char) (tree : Tree) :
    Except AnalysisError Result :=
  (readTree path dialect text tree).map (judge path)

/-- The findings about a text. -/
def analyze (path : Path) (dialect : Dialect) (text : List Char) :
    Except AnalysisError Result :=
  analyzeTree path dialect text (dialect.parse text)

end RoleLint
