import RoleLint.Toml.Fault

/- What a TOML text says: a tree of tables. Every node knows where it stands, and
   every table how it came to be, because that decides who may add to it.

   1. `Scalar`, `Origin`, `Node` and the entries of tables.
   2. `descend` - the way to a table along a key.
   3. `addEntry`, `addTable`, `pushTable` - how documents grow.

   Correspondence: `toml::Table`, while it is being read, ↔ `Node`. -/
namespace RoleLint.Toml

/-- A value without parts. -/
inductive Scalar where
  | text (s : String)
  | integer (n : Int)
  /-- A floating point number, as it is written. -/
  | decimal (literal : String)
  | truth (b : Bool)
  /-- A date or time, as it is written. -/
  | moment (literal : String)
  deriving DecidableEq, Repr

/-- How a table came to be. -/
inductive Origin where
  /-- By a header of its own. -/
  | header
  /-- By a longer header that leads through it. -/
  | implied
  /-- By a key with dots. -/
  | dotted
  /-- By braces; nothing can be added to it. -/
  | closed
  deriving DecidableEq, Repr

/-- A node of the tree. -/
inductive Node where
  | scalar (span : Span) (value : Scalar)
  | array (span : Span) (items : List Node)
  | table (span : Span) (origin : Origin) (entries : List (String × Node))
  /-- A list of tables that headers in double brackets make. -/
  | tables (items : List Node)
  deriving Repr

/-- The entries of a table, in the order they were added. -/
abbrev Entries : Type := List (String × Node)

/-- Where a node stands. -/
def Node.span : Node → Span
  | scalar span _ => span
  | array span _ => span
  | table span _ _ => span
  | tables items =>
    match items with
    | table span _ _ :: _ => span
    | _ => ⟨0, 0⟩

/-- The entry with the given key. -/
def find? (key : String) (es : Entries) : Option Node :=
  (es.find? fun e => e.1 == key).map Prod.snd

/-- The entries with another node under a key, which is added at the end if it is
    new. -/
def replace (key : String) (node : Node) : Entries → Entries
  | [] => [(key, node)]
  | (k, n) :: es => if k == key then (k, node) :: es else (k, n) :: replace key node es

/-- The entries without a key. -/
def erase (key : String) (es : Entries) : Entries :=
  es.filter fun e => e.1 != key

/-- What went wrong on the way along a key. -/
abbrev Outcome (α : Type) : Type := Except Reason α

/-- Change the table that `path` leads to from a table with the given origin and
    entries. Tables that are missing on the way are made with the origin `made`. A
    key with dots must not lead through a table that has a header of its own; the way
    through a list of tables is its last one. -/
def descend {α : Type} (made : Origin) (span : Span)
    (change : Origin → Entries → Outcome (Entries × α)) :
    List String → Origin → Entries → Outcome (Entries × α)
  | [], origin, es => change origin es
  | key :: keys, _, es =>
    match find? key es with
    | none => do
      let (inner, a) ← descend made span change keys made []
      pure (es ++ [(key, .table span made inner)], a)
    | some (.table place origin inner) =>
      if origin == .closed then .error (.notTable (key :: keys))
      else if made == .dotted && origin == .header then .error (.duplicateKey key none)
      else do
        let (inner, a) ← descend made span change keys origin inner
        pure (replace key (.table place origin inner) es, a)
    | some (.tables items) =>
      match items.getLast? with
      | some (.table place origin inner) => do
        let (inner, a) ← descend made span change keys origin inner
        pure (replace key (.tables (items.dropLast ++ [.table place origin inner])) es, a)
      | _ => .error (.notTable (key :: keys))
    | some _ => .error (.notTable (key :: keys))

/-- A key cut into the parts before its last one, and that one. -/
def splitKey (key : List String) : List String × String :=
  (key.dropLast, key.getLastD "")

/-- Add a node under a key to a table with the given name and origin. Only tables
    that keys with dots have made can be reached by such keys. -/
def addEntry (name : Option (List String)) (key : List String) (node : Node) (origin : Origin)
    (es : Entries) : Outcome Entries :=
  let (path, last) := splitKey key
  let add : Origin → Entries → Outcome (Entries × Unit) := fun origin es =>
    if !path.isEmpty && origin != .dotted then .error (.duplicateKey last none)
    else if (find? last es).isSome then .error (.duplicateKey last name)
    else .ok (es ++ [(last, node)], ())
  (descend .dotted node.span add path origin es).map Prod.fst

/-- Open the table of a header. If a longer header has made it, it is taken out of
    the document with what it holds; if it came to be in another way, it cannot be
    opened again. The answer is the rest of the document and what the table holds. -/
def openTable (span : Span) (header : List String) (root : Entries) :
    Outcome (Entries × Entries) :=
  let (path, last) := splitKey header
  let take : Origin → Entries → Outcome (Entries × Entries) := fun _ es =>
    match find? last es with
    | none => .ok (es, [])
    | some (.table _ .implied inner) => .ok (erase last es, inner)
    | some _ => .error (.duplicateKey last (some path))
  descend .implied span take path .header root

/-- Open a new table of the list that a header in double brackets names. -/
def openTables (span : Span) (header : List String) (root : Entries) : Outcome Entries :=
  let (path, last) := splitKey header
  let make : Origin → Entries → Outcome (Entries × Unit) := fun _ es =>
    match find? last es with
    | none => .ok (es ++ [(last, .tables [])], ())
    | some (.tables _) => .ok (es, ())
    | some _ => .error (.duplicateKey last (some path))
  (descend .implied span make path .header root).map Prod.fst

/-- Put a table that is complete into the document: under its header, or at the end
    of the list that its header names. -/
def closeTable (span : Span) (header : List String) (listed : Bool) (table : Entries)
    (root : Entries) : Outcome Entries :=
  let (path, last) := splitKey header
  let node : Node := .table span .header table
  let put : Origin → Entries → Outcome (Entries × Unit) := fun _ es =>
    match find? last es, listed with
    | some (.tables items), true => .ok (replace last (.tables (items ++ [node])) es, ())
    | none, false => .ok (es ++ [(last, node)], ())
    | _, _ => .error (.duplicateKey last (some path))
  (descend .implied span put path .header root).map Prod.fst

end RoleLint.Toml
