import RoleLint.Analysis

/- Configuration: how results are written, and which dialects the extensions of
   files stand for.

   1. `Overrides` - dialects by extension, in the order of their keys.
   2. `OutputSettings`, `Config`.
   3. `Config.dialectFor` - the dialect of a file.

   Correspondence with `rag_core::config`:
     `Config`, `OutputConfig`, `ConfigError` ↔ `Config`, `OutputSettings`, `ConfigError`
     `Config::dialect_for`                   ↔ `Config.dialectFor` -/
namespace RoleLint

/-! ## Overrides -/

/-- An entry added to a list that is ordered by key; it takes the place of one with
    the same key. -/
def insertEntry (key : String) (d : Dialect) : List (String × Dialect) → List (String × Dialect)
  | [] => [(key, d)]
  | (k, e) :: rest =>
    if key = k then (key, d) :: rest
    else if key < k then (key, d) :: (k, e) :: rest
    else (k, e) :: insertEntry key d rest

/-- The keys after an insertion are the old ones and the new one. -/
theorem mem_insertEntry {key : String} {d : Dialect} {x : String × Dialect} :
    ∀ {es : List (String × Dialect)}, x ∈ insertEntry key d es → x = (key, d) ∨ x ∈ es
  | [], h => by simpa [insertEntry] using h
  | (k, e) :: rest, h => by
    simp only [insertEntry] at h
    split at h
    · rcases List.mem_cons.1 h with h | h
      · exact .inl h
      · exact .inr (List.mem_cons_of_mem _ h)
    · split at h
      · rcases List.mem_cons.1 h with h | h
        · exact .inl h
        · exact .inr h
      · rcases List.mem_cons.1 h with h | h
        · exact .inr (h ▸ List.mem_cons_self)
        · rcases mem_insertEntry h with h | h
          · exact .inl h
          · exact .inr (List.mem_cons_of_mem _ h)

/-- Of two different keys one comes first. -/
theorem key_lt_of_not_lt {a b : String} (hne : a ≠ b) (h : ¬a < b) : b < a := by
  have hba : b ≤ a := String.not_lt.1 h
  exact String.not_le.1 fun hab => hne (String.le_antisymm hab hba)

/-- An insertion keeps the order. -/
theorem pairwise_insertEntry (key : String) (d : Dialect) :
    ∀ {es : List (String × Dialect)}, es.Pairwise (fun a b => a.1 < b.1) →
      (insertEntry key d es).Pairwise (fun a b => a.1 < b.1)
  | [], _ => by simp [insertEntry]
  | (k, e) :: rest, h => by
    obtain ⟨hk, hrest⟩ := List.pairwise_cons.1 h
    simp only [insertEntry]
    split
    · next heq =>
      subst heq
      exact List.pairwise_cons.2 ⟨hk, hrest⟩
    · next hne =>
      split
      · next hlt =>
        refine List.pairwise_cons.2 ⟨fun x hx => ?_, h⟩
        rcases List.mem_cons.1 hx with hx | hx
        · exact hx ▸ hlt
        · exact String.lt_trans hlt (hk x hx)
      · next hnlt =>
        refine List.pairwise_cons.2 ⟨fun x hx => ?_, pairwise_insertEntry key d hrest⟩
        rcases mem_insertEntry hx with hx | hx
        · exact hx ▸ key_lt_of_not_lt hne hnlt
        · exact hk x hx

/-- Dialects by extension, in the order of their keys; no key is repeated. -/
structure Overrides where
  entries : List (String × Dialect)
  sorted : entries.Pairwise (fun a b => a.1 < b.1)
  deriving DecidableEq, Repr

namespace Overrides

/-- No overrides. -/
def empty : Overrides := ⟨[], .nil⟩

instance : Inhabited Overrides := ⟨empty⟩

/-- Let `key` stand for `d`, whatever it stood for before. -/
def insert (o : Overrides) (key : String) (d : Dialect) : Overrides :=
  ⟨insertEntry key d o.entries, pairwise_insertEntry key d o.sorted⟩

/-- The overrides of a list of entries; of entries with the same key the last one
    counts. -/
def ofList (es : List (String × Dialect)) : Overrides :=
  es.foldl (fun o e => o.insert e.1 e.2) empty

/-- Whether a key stands for an extension: its leading dots do not matter, nor does
    case. -/
def keyMatches (ext key : String) : Bool :=
  lowerText (dropDots key.toList) == lowerText ext.toList

/-- The dialect of the first key that stands for an extension. -/
def find? (o : Overrides) (ext : String) : Option Dialect :=
  (o.entries.find? fun e => keyMatches ext e.1).map Prod.snd

end Overrides

/-! ## Configurations -/

/-- How results are written. -/
structure OutputSettings where
  /-- The name of the output format. -/
  format : Option String := none
  /-- Whether JSON is laid out for reading. -/
  pretty : Bool := false
  /-- Whether findings that are errors make a run fail. -/
  failOnError : Bool := false
  deriving DecidableEq, Repr, Inhabited

/-- A configuration. -/
structure Config where
  output : OutputSettings := {}
  dialects : Overrides := Overrides.empty
  deriving DecidableEq, Repr, Inhabited

/-- The dialect of the file that a path names: the one that its extension is
    overridden with, else the one it has by itself. -/
def Config.dialectFor (c : Config) (path : Path) : Dialect :=
  match Path.extension? path with
  | none => Dialect.ofPath path
  | some ext => (c.dialects.find? ext).getD (Dialect.ofPath path)

/-- Why there is no configuration. -/
inductive ConfigError where
  /-- The file could not be read. -/
  | unreadable (path : Path) (reason : ReadError)
  /-- The text is no configuration. -/
  | invalid (reason : String)
  deriving DecidableEq, Repr

/-- The wording of a configuration error. -/
def ConfigError.message : ConfigError → String
  | unreadable path reason => "Failed to read config file " ++ path.shown ++ ": " ++ reason.message
  | invalid reason => "Failed to parse config: " ++ reason

end RoleLint
