import RoleLint.Render

/- The command line: which words ask for what. Words are raw texts; the values of some
   options, and the names of commands, have to be texts.

   1. `Command`, `Request` - what can be asked for.
   2. `Switch` - options, with or without a value.
   3. `scan` - the options and other words of one level. A command name ends the
      first level and starts the second, which has options of its own.
   4. `Request.ofWords`.

   Correspondence: `Cli`, `Commands` of `rag_cli`, as `clap` derives their parser, ↔ `Request`,
   `Command` and `Request.ofWords`. -/
namespace RoleLint

/-! ## Requests -/

/-- A command with its options. -/
inductive Command where
  | check (file : Path) (format : Option OutputFormat) (dialect : Option Dialect)
      (pretty failOnError : Bool)
  | extract (file : Path) (dialect : Option Dialect) (pretty : Bool)
  | listRules
  | init (force : Bool)
  deriving DecidableEq, Repr

/-- What a command line asks for. -/
inductive Request where
  | run (command : Command) (config : Option Path) (verbose : Bool)
  | version
  | help
  /-- The words do not fit. -/
  | misuse
  deriving DecidableEq, Repr

namespace Arguments

/-! ## Options -/

/-- An option: its names, and which values it accepts if it takes one. -/
structure Switch where
  short : Option Char
  long : String
  accepts : Option (RawText → Bool)

/-- A switch without a value. -/
def Switch.plain (short : Option Char) (long : String) : Switch :=
  ⟨short, long, none⟩

/-- Whether a byte is the letter of a switch. -/
def Switch.hasLetter (s : Switch) (b : UInt8) : Bool :=
  s.short.map Char.toUInt8 == some b

/-- Options that every level has. -/
def sharedSwitches : List Switch :=
  [Switch.plain (some 'h') "help", Switch.plain (some 'v') "verbose",
    ⟨some 'c', "config", some fun s => !s.isEmpty⟩]

/-- The option that names a dialect. -/
def dialectSwitch : Switch :=
  ⟨some 'd', "dialect", some fun s => (s.text?.bind Dialect.ofName?).isSome⟩

/-- The options before a command. -/
def rootSwitches : List Switch :=
  Switch.plain (some 'V') "version" :: sharedSwitches

/-- The options of a command. -/
def switchesOf : String → List Switch
  | "check" =>
    ⟨some 'f', "format", some fun s => (s.text?.bind OutputFormat.ofName?).isSome⟩ ::
      dialectSwitch :: Switch.plain none "pretty" :: Switch.plain none "fail-on-error" ::
      sharedSwitches
  | "extract" => dialectSwitch :: Switch.plain none "pretty" :: sharedSwitches
  | "init" => Switch.plain none "force" :: sharedSwitches
  | _ => sharedSwitches

/-! ## Levels -/

/-- Why reading the words ends early. -/
inductive Halt where
  | version
  | help
  | misuse
  deriving DecidableEq, Repr

/-- What has been read: options with their values, and other words. -/
structure Found where
  options : List (String × RawText) := []
  operands : List RawText := []

/-- Note an option. Asking for help or for the version ends everything; an option
    that is given twice is misuse, as is a value that is not accepted. -/
def Found.note (f : Found) (s : Switch) (value : RawText) : Except Halt Found :=
  if s.long == "help" then .error .help
  else if s.long == "version" then .error .version
  else if f.options.any fun o => o.1 == s.long then .error .misuse
  else
    match s.accepts with
    | some accepts =>
      if accepts value then .ok { f with options := f.options ++ [(s.long, value)] }
      else .error .misuse
    | none => .ok { f with options := f.options ++ [(s.long, value)] }

/-- Note another word; a level takes at most `limit` of them, and none is empty. -/
def Found.operand (f : Found) (limit : Nat) (word : RawText) : Except Halt Found :=
  if f.operands.length < limit && !word.isEmpty then
    .ok { f with operands := f.operands ++ [word] }
  else .error .misuse

/-- The byte between an option and its value. -/
def equalsSign : UInt8 := 0x3d

/-- A value that stands in the same word as its option, without an equals sign
    before it. -/
def attached (bs : List UInt8) : RawText :=
  if bs.head? == some equalsSign then ⟨bs.tail⟩ else ⟨bs⟩

/-- Options that are written as letters after one dash. The answer holds an option
    that still waits for its value. -/
def letters (switches : List Switch) : List UInt8 → Found → Except Halt (Found × Option Switch)
  | [], f => .ok (f, none)
  | b :: bs, f =>
    match switches.find? fun s => s.hasLetter b with
    | none => .error .misuse
    | some s =>
      if s.accepts.isSome then
        if bs.isEmpty then .ok (f, some s)
        else (f.note s (attached bs)).map fun f => (f, none)
      else do
        let f ← f.note s ""
        letters switches bs f

/-- An option that is written out after two dashes. -/
def written (switches : List Switch) (bs : List UInt8) (f : Found) :
    Except Halt (Found × Option Switch) :=
  let name : RawText := ⟨bs.takeWhile (· != equalsSign)⟩
  let value := bs.dropWhile (· != equalsSign)
  match switches.find? fun s => RawText.ofString s.long == name with
  | none => .error .misuse
  | some s =>
    if s.accepts.isSome then
      if value.isEmpty then .ok (f, some s) else (f.note s (attached value)).map fun f => (f, none)
    else if value.isEmpty then (f.note s "").map fun f => (f, none)
    else .error .misuse

/-- What kind of word this is. -/
inductive WordKind where
  /-- Two dashes alone: all words after them are plain. -/
  | separator
  | writtenOption (rest : List UInt8)
  | letterOptions (rest : List UInt8)
  | plain
  deriving DecidableEq, Repr

/-- The byte that options start with. -/
def dash : UInt8 := 0x2d

/-- The kind of a word. A dash alone is plain. -/
def kindOf (word : RawText) : WordKind :=
  if word.bytes == [dash, dash] then .separator
  else if [dash, dash].isPrefixOf word.bytes then .writtenOption (word.bytes.drop 2)
  else if word.bytes.head? == some dash && word.bytes != [dash] then
    .letterOptions (word.bytes.drop 1)
  else .plain

/-- The words of one level. `waiting` is an option that needs the next word as its
    value. At a level with commands the first plain word ends it. -/
def scan (switches : List Switch) (commands : Bool) (limit : Nat) :
    Option Switch → Found → List RawText → Except Halt (Found × List RawText)
  | some _, _, [] => .error .misuse
  | none, f, [] => .ok (f, [])
  | some s, f, word :: words =>
    match kindOf word with
    | .plain => do
      let f ← f.note s word
      scan switches commands limit none f words
    | _ => .error .misuse
  | none, f, word :: words =>
    match kindOf word with
    | .plain =>
      if commands then .ok (f, word :: words)
      else do
        let f ← f.operand limit word
        scan switches commands limit none f words
    | .separator =>
      if commands then .error .misuse
      else do
        let f ← words.foldlM (fun f w => f.operand limit w) f
        pure (f, [])
    | .writtenOption bs => do
      let (f, waiting) ← written switches bs f
      scan switches commands limit waiting f words
    | .letterOptions bs => do
      let (f, waiting) ← letters switches bs f
      scan switches commands limit waiting f words

/-! ## Commands -/

/-- The value of an option. -/
def Found.value? (f : Found) (long : String) : Option RawText :=
  (f.options.find? fun o => o.1 == long).map Prod.snd

/-- The value of an option that is a text. -/
def Found.textValue? (f : Found) (long : String) : Option String :=
  (f.value? long).bind RawText.text?

/-- Whether an option is given. -/
def Found.has (f : Found) (long : String) : Bool :=
  f.options.any fun o => o.1 == long

/-- The names of the commands. -/
def commandNames : List String := ["check", "extract", "list-rules", "init", "help"]

/-- How many plain words a command takes. -/
def operandLimit (name : String) : Nat :=
  if name == "check" || name == "extract" then 1 else 0

/-- The command with the given name and words. -/
def command? (name : String) (f : Found) : Option Command :=
  let dialect := (f.textValue? "dialect").bind Dialect.ofName?
  match name, f.operands with
  | "check", [file] =>
    some (.check file ((f.textValue? "format").bind OutputFormat.ofName?) dialect (f.has "pretty")
      (f.has "fail-on-error"))
  | "extract", [file] => some (.extract file dialect (f.has "pretty"))
  | "list-rules", [] => some .listRules
  | "init", [] => some (.init (f.has "force"))
  | _, _ => none

/-- Help may be asked for about commands that exist. -/
def helpRequest (words : List RawText) : Except Halt Request :=
  match words with
  | [] => .error .help
  | [name] => if name.text?.any commandNames.contains then .error .help else .error .misuse
  | _ => .error .misuse

/-- What the words after the options of the first level ask for. -/
def readCommand (root : Found) : List RawText → Except Halt Request
  | [] => .error .misuse
  | word :: words =>
    match word.text? with
    | none => .error .misuse
    | some name =>
      if name == "help" then helpRequest words
      else if commandNames.contains name then do
        let (f, _) ← scan (switchesOf name) false (operandLimit name) none {} words
        match command? name f with
        | none => .error .misuse
        | some c =>
          let config := (f.value? "config").orElse fun _ => root.value? "config"
          pure (.run c config (f.has "verbose" || root.has "verbose"))
      else .error .misuse

/-- What the words ask for, unless reading them ends early. -/
def read (words : List RawText) : Except Halt Request := do
  let (root, rest) ← scan rootSwitches true 0 none {} words
  readCommand root rest

end Arguments

/-- What the words of a command line ask for. -/
def Request.ofWords (words : List RawText) : Request :=
  match Arguments.read words with
  | .ok r => r
  | .error .version => .version
  | .error .help => .help
  | .error .misuse => .misuse

end RoleLint
