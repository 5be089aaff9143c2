import RoleLint.Config
import RoleLint.Toml.Document

/- Configuration files. A file is a TOML text; what it says about other things is
   passed over, and what it leaves out has its default. A table may also be an array
   of its fields in order.

   1. how values are named when another type is expected;
   2. fields, tables and words;
   3. `Config.parse`.

   Correspondence: `rag_core::config::Config::parse`, with the deserializers that are derived
   for `Config`, `OutputConfig` and `Dialect` over the crate `toml`, ↔ `Config.parse`. -/
namespace RoleLint.ConfigFile

open Toml

/-! ## Names of values -/

/-- A character inside quotes, as messages show it. -/
def shownChar (c : Char) : List Char :=
  if c == '\x22' then ['\\', '\x22']
  else if c == '\\' then ['\\', '\\']
  else if c == '\n' then ['\\', 'n']
  else if c == '\r' then ['\\', 'r']
  else if c == '\t' then ['\\', 't']
  else if c == '\x00' then ['\\', '0']
  else if c.toNat < 0x20 || c == '\x7f' then
    ['\\', 'u', '\x7b'] ++ Nat.toDigits 16 c.toNat ++ ['\x7d']
  else [c]

/-- A text in quotes, as messages show it. -/
def shownText (s : String) : String :=
  String.ofList ('\x22' :: s.toList.flatMap shownChar ++ ['\x22'])

/-- What a node is called. -/
def nameOf : Node → String
  | .scalar _ (.text s) => "string " ++ shownText s
  | .scalar _ (.integer n) => "integer " ++ ticked (toString n)
  | .scalar _ (.decimal literal) => "floating point " ++ ticked literal
  | .scalar _ (.truth b) => "boolean " ++ ticked (if b then "true" else "false")
  | .scalar _ (.moment _) => "map"
  | .array .. | .tables _ => "sequence"
  | .table .. => "map"

/-- The fault that a node is not what is expected. -/
def unexpected {α : Type} (node : Node) (expected : String) : Except Fault α :=
  .error ⟨.wrongType (nameOf node) expected, node.span, false⟩

/-! ## Parts -/

/-- A text. -/
def readText : Node → Except Fault String
  | .scalar _ (.text s) => .ok s
  | node => unexpected node "a string"

/-- A truth value. -/
def readTruth : Node → Except Fault Bool
  | .scalar _ (.truth b) => .ok b
  | node => unexpected node "a boolean"

/-- Whether a node has parts but holds none. -/
def isHollow : Node → Bool
  | .array _ items => items.isEmpty
  | .tables items => items.isEmpty
  | .table _ _ entries => entries.isEmpty
  | .scalar .. => false

/-- The dialect with the given name. -/
def dialectNamed (name : String) (span : Span) : Except Fault Dialect :=
  match Dialect.all.find? fun d => d.name == name with
  | some d => .ok d
  | none => .error ⟨.unknownWord name (Dialect.all.map Dialect.name), span, false⟩

/-- A dialect: its name, or a table with its name as key and nothing under it. -/
def readDialect : Node → Except Fault Dialect
  | .scalar span (.text s) => dialectNamed s span
  | .table span origin ((key, node) :: more) => do
    if origin == .closed && !more.isEmpty then .error ⟨.notWord, span, false⟩
    else
      let d ← dialectNamed key span
      if isHollow node then pure d else .error ⟨.notWord, node.span, false⟩
  | node => .error ⟨.notWord, node.span, false⟩

/-! ## Tables -/

/-- The settings with one field changed, if the key names one. -/
def readOutputField (o : OutputSettings) (entry : String × Node) : Except Fault OutputSettings :=
  match entry.1 with
  | "format" => (readText entry.2).map fun s => { o with format := some s }
  | "pretty" => (readTruth entry.2).map fun b => { o with pretty := b }
  | "fail_on_error" => (readTruth entry.2).map fun b => { o with failOnError := b }
  | _ => .ok o

/-- Output settings. A date or time says nothing about them. -/
def readOutput : Node → Except Fault OutputSettings
  | .table _ _ entries => entries.foldlM readOutputField {}
  | .array _ items | .tables items =>
    (["format", "pretty", "fail_on_error"].zip items).foldlM readOutputField {}
  | .scalar _ (.moment _) => .ok {}
  | node => unexpected node "struct OutputConfig"

/-- The overrides of a table. -/
def readOverrides : Node → Except Fault Overrides
  | .table _ _ entries =>
    entries.foldlM (fun o e => (readDialect e.2).map (o.insert e.1)) Overrides.empty
  | .scalar span (.moment literal) => (dialectNamed literal span).map fun _ => Overrides.empty
  | node => unexpected node "a map"

/-- The configuration with one part changed, if the key names one. -/
def readPart (c : Config) (entry : String × Node) : Except Fault Config :=
  match entry.1 with
  | "output" => (readOutput entry.2).map fun o => { c with output := o }
  | "dialects" => (readOverrides entry.2).map fun o => { c with dialects := o }
  | _ => .ok c

/-- The configuration of a document. -/
def ofEntries (entries : Entries) : Except Fault Config :=
  entries.foldlM readPart {}

end RoleLint.ConfigFile

namespace RoleLint

/-- The configuration that a text describes. -/
def Config.parse (text : String) : Except ConfigError Config :=
  match Toml.parse text.toList >>= ConfigFile.ofEntries with
  | .ok c => .ok c
  | .error fault => .error (.invalid (fault.message text.toList))

end RoleLint
