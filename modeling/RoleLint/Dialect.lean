import RoleLint.Grammar.Program
import RoleLint.Path

/- The dialects a source file can be written in, and how one is chosen: by name, by
   the extension of a file, or by its path.

   Correspondence with `rag_core::types::Dialect`: `from_extension`, `from_path`, `from_str`,
   `as_str`, `ALL` ↔ `ofExtension`, `ofPath`, `ofName?`, `name`, `all`; and
   `JsExtractor::language` of `rag_ts::javascript` ↔ `language`. -/
namespace RoleLint

/-- The language a file is read as. -/
inductive Dialect where
  | javascript
  | jsx
  | typescript
  | tsx
  deriving DecidableEq, Repr, Inhabited

/-- A letter `A` to `Z` in lower case; other characters stay. -/
def lowerText (cs : List Char) : List Char :=
  cs.map Char.toLower

/-- A text without the dots it starts with. -/
def dropDots (cs : List Char) : List Char :=
  cs.dropWhile (· == '.')

namespace Dialect

/-- All dialects, in the order in which they are listed. -/
def all : List Dialect := [javascript, jsx, typescript, tsx]

/-- The dialect's name in configuration files and on the command line. -/
def name : Dialect → String
  | javascript => "javascript"
  | jsx => "jsx"
  | typescript => "typescript"
  | tsx => "tsx"

/-- The grammar of a dialect. The two untyped ones share theirs. -/
def language : Dialect → Grammar.Language
  | javascript | jsx => ⟨false, true⟩
  | typescript => ⟨true, false⟩
  | tsx => ⟨true, true⟩

/-- The dialect of files with the extension `ext`, with or without its dot; case
    does not matter. An extension without a dialect of its own means typed text. -/
def ofExtension (ext : String) : Dialect :=
  match String.ofList (lowerText (dropDots ext.toList)) with
  | "tsx" => tsx
  | "jsx" => jsx
  | "js" | "mjs" | "cjs" => javascript
  | _ => typescript

/-- The dialect of the file that a path names. -/
def ofPath (path : Path) : Dialect :=
  match Path.extension? path with
  | some ext => ofExtension ext
  | none => typescript

/-- The dialect called `text`; case does not matter. -/
def ofName? (text : String) : Option Dialect :=
  all.find? fun d => lowerText d.name.toList == lowerText text.toList

/-- What is said about a text that names no dialect. -/
def unknownMessage (text : String) : String :=
  "unknown dialect '" ++ text ++ "' (expected javascript, jsx, typescript or tsx)"

/-- The syntax tree of a text in the dialect. -/
def parse (d : Dialect) (text : List Char) : Tree :=
  Grammar.parse d.language text

end Dialect

end RoleLint
