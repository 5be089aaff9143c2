import RoleLint.Render

/- Why a run fails, and how that is printed.

   Correspondence: the errors that the commands of `rag_cli` end with, as `anyhow` prints them
   (`explained`) and, for a failed analysis, `miette` (`branches`). -/
namespace RoleLint

/-- Why a run fails. -/
inductive Failure where
  /-- The configuration at a path cannot be used. -/
  | config (path : Path) (cause : ConfigError)
  /-- The configuration names an output format that does not exist. -/
  | format (name : String)
  /-- The file could not be analyzed. -/
  | analysis (cause : AnalysisError)
  /-- The result could not be printed. -/
  | render (cause : RenderError)
  /-- A file that would be written is there already. -/
  | alreadyThere (path : Path)
  /-- A file could not be written. -/
  | unwritable (path : Path) (cause : ReadError)
  deriving DecidableEq, Repr

namespace Failure

/-- A text with every line after the first one indented. -/
def hang (indent : String) (text : String) : String :=
  String.ofList (text.toList.flatMap fun c => if c == '\n' then '\n' :: indent.toList else [c])

/-- Causes, each on lines of its own; more than one are numbered from zero. -/
def causeLines : List String → String
  | [] => ""
  | [cause] => "\n\nCaused by:\n    " ++ hang "    " cause
  | causes =>
    "\n\nCaused by:" ++
      String.join
        (causes.zipIdx.map fun (cause, i) => "\n    " ++ Nat.repr i ++ ": " ++ hang "       " cause)

/-- A message with its causes. -/
def explained (message : String) (causes : List String) : String :=
  "Error: " ++ message ++ causeLines causes ++ "\n"

/-- The causes of a configuration error, the outermost first. -/
def configCauses (e : ConfigError) : List String :=
  match e with
  | .unreadable _ reason => [e.message, reason.message]
  | .invalid _ => [e.message]

/-- The causes of a failed analysis, the outermost first. -/
def analysisCauses (e : AnalysisError) : List String :=
  match e with
  | .unreadable _ reason => [e.message, reason.message]
  | _ => [e.message]

/-- Causes as branches below a message. -/
def branches : List String → String
  | [] => ""
  | [cause] => "  ╰─▶ " ++ cause ++ "\n"
  | cause :: causes => "  ├─▶ " ++ cause ++ "\n" ++ branches causes

/-- How a failure is printed. -/
def text : Failure → String
  | config path cause => explained ("Failed to load config: " ++ path.shown) (configCauses cause)
  | format name => explained ("Invalid output format in config: invalid variant: " ++ name) []
  | analysis cause =>
    cause.code ++ "\n\n  × failed to analyze file\n" ++ branches (analysisCauses cause) ++
      ((cause.help?.map fun h => "  help: " ++ h ++ "\n").getD "") ++ "\n"
  | render cause => explained cause.message []
  | alreadyThere path =>
    explained
      ("Configuration file already exists at " ++ path.shown ++ ". Use --force to overwrite.") []
  | unwritable path cause => explained ("Failed to write " ++ path.shown) [cause.message]

end Failure

end RoleLint
