import RoleLint.Command.Arguments
import RoleLint.Command.ConfigLookup
import RoleLint.Command.Failure

/- Runs of the program, from the words of the command line to what is printed and
   written.

   1. `Outcome` of a run.
   2. the commands: `check`, `extract`, `list-rules`, `init`.
   3. `run`.

   Correspondence with `rag_cli`:
     `commands::check::run`                       ↔ `checkFile` up to the analysis, `runCheck`
     `commands::check::resolve_format`            ↔ `resolveFormat`
     `commands::extract::run`                     ↔ `runExtract`
     `commands::list_rules::run`                  ↔ `ruleList`
     `commands::init`: `run`, `write_template`    ↔ `runInit`
     `main`                                       ↔ `run` -/
namespace RoleLint

/-- What a run leaves behind. -/
structure Outcome where
  exit : Nat
  stdout : String
  stderr : String
  files : FileSystem
  deriving DecidableEq, Repr

namespace Outcome

/-- A run that prints something and changes no files. -/
def printed (fs : FileSystem) (exit : Nat) (text : String) : Outcome :=
  ⟨exit, text, "", fs⟩

/-- A run that fails and changes no files. -/
def failed (fs : FileSystem) (f : Failure) : Outcome :=
  ⟨1, "", f.text, fs⟩

end Outcome

/-! ## Check and extract -/

/-- The output format: the one on the command line, else the one in the
    configuration, else JSON. -/
def resolveFormat (flag : Option OutputFormat) (config : Config) : Except Failure OutputFormat :=
  match flag, config.output.format with
  | some f, _ => .ok f
  | none, none => .ok .json
  | none, some name =>
    match OutputFormat.ofNameAnyCase? name with
    | some f => .ok f
    | none => .error (.format name)

/-- The configuration for a file. -/
def configFor (fs : FileSystem) (env : Environment) (file : Path) (flag : Option Path) :
    Except Failure Config :=
  (loadConfig fs env file flag).mapError fun (path, e) => .config path e

/-- A file that has been analyzed, with the settings it was analyzed under. -/
structure Checked where
  config : Config
  format : OutputFormat
  result : Result
  deriving DecidableEq, Repr

/-- Analyze a file. The configuration is loaded first, then the format is resolved,
    then the file is read. -/
def checkFile (fs : FileSystem) (env : Environment) (flag : Option Path) (file : Path)
    (format : Option OutputFormat) (dialect : Option Dialect) : Except Failure Checked := do
  let config ← configFor fs env file flag
  let format ← resolveFormat format config
  let result ← (analyzeFile fs file (dialect.getD (config.dialectFor file))).mapError .analysis
  pure ⟨config, format, result⟩

/-- Analyze a file and print what was found. -/
def runCheck (fs : FileSystem) (env : Environment) (flag : Option Path) (file : Path)
    (format : Option OutputFormat) (dialect : Option Dialect) (pretty failOnError : Bool) :
    Except Failure Outcome := do
  let checked ← checkFile fs env flag file format dialect
  let output := checked.config.output
  let text ← (checked.result.render checked.format (pretty || output.pretty)).mapError .render
  let fails := (failOnError || output.failOnError) && checked.result.hasErrors
  pure (.printed fs (if fails then 1 else 0) text)

/-- Print the functions of a file. -/
def runExtract (fs : FileSystem) (env : Environment) (flag : Option Path) (file : Path)
    (dialect : Option Dialect) (pretty : Bool) : Except Failure Outcome := do
  let config ← configFor fs env file flag
  let functions ←
    (extractFile fs file (dialect.getD (config.dialectFor file))).mapError .analysis
  let text := (Wire.ofDescriptors functions).render (pretty || config.output.pretty)
  pure (.printed fs 0 (text ++ "\n"))

/-! ## The list of rules -/

/-- A text filled up with blanks. -/
def padded (width : Nat) (s : String) : String :=
  s ++ String.ofList (List.replicate (width - s.length) ' ')

/-- The line of a rule. -/
def ruleLine (r : Rule) : String :=
  padded 30 r.id ++ " " ++ r.severity.name ++ " " ++ r.description ++ "\n"

/-- The list of rules. -/
def ruleList : String :=
  "Available rules:\n\n" ++
    padded 30 "Id" ++ " " ++ padded 10 "Severity" ++ " Description\n" ++
    String.ofList (List.replicate 80 '-') ++ "\n" ++
    String.join (Rule.all.map ruleLine) ++
    "\nFunctions are classified by name:\n" ++
    "  hook       - `use` followed by an uppercase letter (useData)\n" ++
    "  component  - leading uppercase letter (Widget)\n" ++
    "  utility    - anything else\n"

/-! ## A new configuration file -/

/-- The file that `init` writes. -/
def initPath : Path := "rag.toml"

/-- What `init` writes. -/
def initTemplate : String :=
  "# rag configuration\n" ++
  "#\n" ++
  "# Searched next to the analyzed file (rag.toml, then .rag.toml), then in\n" ++
  "# $RAG_CONFIG_DIR/config.toml or ~/.rag/config.toml.\n" ++
  "\n" ++
  "[output]\n" ++
  "# Default output format: \"json\", \"text\" or \"compact\"\n" ++
  "format = \"json\"\n" ++
  "\n" ++
  "# Pretty-print JSON output\n" ++
  "pretty = false\n" ++
  "\n" ++
  "# Exit with status 1 when an error-severity violation is reported\n" ++
  "fail_on_error = false\n" ++
  "\n" ++
  "# Extension to dialect overrides.\n" ++
  "# Dialects: \"javascript\", \"jsx\", \"typescript\", \"tsx\"\n" ++
  "[dialects]\n" ++
  "# \".js\" = \"jsx\"\n" ++
  "# \".es6\" = \"javascript\"\n"

/-- What `init` prints. -/
def initReport : String :=
  "Created rag.toml\n" ++
  "\nNext steps:\n" ++
  "  1. Edit rag.toml to set output and dialect options\n" ++
  "  2. Run: rag check src/App.tsx\n"

/-- Write a configuration file; one that is there already is only replaced by
    force. -/
def runInit (fs : FileSystem) (force : Bool) : Except Failure Outcome :=
  if fs.contains initPath && !force then .error (.alreadyThere initPath)
  else
    match fs.writeText initPath initTemplate with
    | .error e => .error (.unwritable initPath e)
    | .ok fs' => .ok ⟨0, initReport, "", fs'⟩

/-! ## Runs -/

/-- What is printed when the version is asked for. -/
def versionText : String := "rag 0.2.0\n"

/-- How the program is used. -/
def usageText : String :=
  "Usage: rag [OPTIONS] <COMMAND>\n\n" ++
  "Commands:\n" ++
  "  check       Analyze one source file\n" ++
  "  extract     Print the functions found in a file, as JSON\n" ++
  "  list-rules  List available rules\n" ++
  "  init        Initialize configuration file\n"

/-- A command run. -/
def runCommand (fs : FileSystem) (env : Environment) (config : Option Path) :
    Command → Except Failure Outcome
  | .check file format dialect pretty fail =>
    runCheck fs env config file format dialect pretty fail
  | .extract file dialect pretty => runExtract fs env config file dialect pretty
  | .listRules => .ok (.printed fs 0 ruleList)
  | .init force => runInit fs force

/-- The program: what the words of a command line lead to. -/
def run (fs : FileSystem) (env : Environment) (words : List RawText) : Outcome :=
  match Request.ofWords words with
  | .version => .printed fs 0 versionText
  | .help => .printed fs 0 usageText
  | .misuse => ⟨2, "", usageText, fs⟩
  | .run command config _ =>
    match runCommand fs env config command with
    | .ok o => o
    | .error f => .failed fs f

end RoleLint
