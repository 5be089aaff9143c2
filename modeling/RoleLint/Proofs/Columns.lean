import RoleLint.Proofs.Exactness
import RoleLint.Proofs.LineIndex
import RoleLint.Render

/- What the printed places of a result can be. Two of the output formats count columns from
   one, in 64 bits, and do not look whether the successor of a column still fits; for the
   result of an analysis it always does.

   1. `Location.InText`, `locate_inText` - a location of a text has a line and a column that
      the text has room for, whatever offset it belongs to.
   2. `descriptors_inText`, `report_inText` - extraction and the rules add no other locations.
   3. `exactPlace`, `Result.exactText`, `Result.exactCompact` - the two formats in unbounded
      arithmetic; the program's own differ from them in the successors of columns only.
   4. `printed_columns_exact` - the printed columns are the exact successors. -/
namespace RoleLint

/-! ## Locations of a text -/

/-- A text has room for a location: there are at most as many lines after the first one, and
    as many columns, as the text has bytes. -/
structure Location.InText (text : List Char) (l : Location) : Prop where
  line_pos : 1 ≤ l.line
  line_le : l.line ≤ byteLength text + 1
  column_le : l.column ≤ byteLength text

theorem locate_inText (text : List Char) (n : Nat) :
    ((Source.ofText text).locate n).InText text where
  line_pos := (lineIndex_ofText text).lineOf_pos n
  line_le := Source.locate_line_le text n
  column_le := Source.locate_column_le text n

theorem descriptors_inText {text : List Char} {tree : Tree} {d : Descriptor}
    (hd : d ∈ descriptors (Source.ofText text) tree) :
    d.location.InText text ∧ (∀ l ∈ d.apiCalls, l.InText text) ∧
      ∀ l ∈ d.markupReturns, l.InText text :=
  descriptors_located hd (locate_inText text)

theorem report_inText {text : List Char} {tree : Tree} {v : Violation}
    (hv : v ∈ report Rule.all (descriptors (Source.ofText text) tree)) :
    v.location.InText text := by
  refine report_located ?_ hv
  intro d hd
  exact (descriptors_inText hd).2

/-- In a text of less than 2⁶³ bytes the successor of a column fits 64 bits. -/
theorem Location.InText.shownColumn_eq {text : List Char} {l : Location} (h : l.InText text)
    (hlen : byteLength text < 2 ^ 63) :
    l.column + 1 < Wire.numberLimit ∧ Result.shownColumn l = l.column + 1 := by
  have hcolumn := h.column_le
  have hlimit : 2 ^ 63 + 1 ≤ Wire.numberLimit := by decide
  have hlt : l.column + 1 < Wire.numberLimit := by omega
  exact ⟨hlt, Nat.mod_eq_of_lt hlt⟩

/-! ## Printed places -/

/-- `file:line:column`, with the column counted from one, however large it is. -/
def exactPlace (file : String) (l : Location) : String :=
  file ++ ":" ++ Nat.repr l.line ++ ":" ++ Nat.repr (l.column + 1)

namespace Result

/-- A finding for people, at the place given. -/
def textEntryAt (place : String) (v : Violation) : String :=
  v.ruleId ++ " at " ++ place ++ "\n" ++
    "  " ++ colour v.severity ++ v.severity.name ++ plain ++ ": " ++ v.message ++ "\n" ++
    "  = in " ++ v.function.kind.name ++ " `" ++ v.function.name ++ "`\n\n"

/-- A finding on one line, at the place given. -/
def compactEntryAt (place : String) (v : Violation) : String :=
  place ++ ": " ++ v.severity.name ++ " [" ++ v.ruleId ++ "] " ++ v.message ++ "\n"

/-- A result for people, with exact places. -/
def exactText (r : Result) : String :=
  String.join (r.violations.map fun v => textEntryAt (exactPlace r.filePath.shown v.location) v) ++
    r.summaryColour ++ "Found " ++ Nat.repr r.errorCount ++ " error(s), " ++
    Nat.repr r.warningCount ++ " warning(s) in " ++ r.filePath.shown ++ plain ++ "\n"

/-- A result with one line for each finding, with exact places. -/
def exactCompact (r : Result) : String :=
  String.join (r.violations.map fun v => compactEntryAt (exactPlace r.filePath.shown v.location) v)

theorem place_eq_exactPlace {l : Location} (h : shownColumn l = l.column + 1) (file : String) :
    place file l = exactPlace file l := by
  rw [place, h]
  rfl

section
variable {r : Result} (h : ∀ v ∈ r.violations, shownColumn v.location = v.location.column + 1)
include h

theorem renderText_eq_exactText : r.renderText = r.exactText := by
  have hentries : r.violations.map (textEntry r.filePath.shown) =
      r.violations.map fun v => textEntryAt (exactPlace r.filePath.shown v.location) v := by
    apply List.map_congr_left
    intro v hv
    show textEntryAt (place r.filePath.shown v.location) v = _
    rw [place_eq_exactPlace (h v hv)]
  rw [renderText, hentries]
  rfl

theorem renderCompact_eq_exactCompact : r.renderCompact = r.exactCompact := by
  have hentries : r.violations.map (compactEntry r.filePath.shown) =
      r.violations.map fun v => compactEntryAt (exactPlace r.filePath.shown v.location) v := by
    apply List.map_congr_left
    intro v hv
    show compactEntryAt (place r.filePath.shown v.location) v = _
    rw [place_eq_exactPlace (h v hv)]
  rw [renderCompact, hentries]
  rfl

end

end Result

/-- **Printed columns cannot wrap.** A text of less than 2⁶³ bytes with a tree that has no
    faults gets functions and a result; every location in them is one that the text has room
    for. So the successors of the columns of the findings fit 64 bits, and the two formats
    that print them print what they would print in unbounded arithmetic. -/
theorem printed_columns_exact (path : Path) (dialect : Dialect) (text : List Char)
    (tree : Tree) (hlen : byteLength text < 2 ^ 63) (hfree : ErrorFree tree) :
    ∃ ds r, readTree path dialect text tree = .ok ds ∧
      analyzeTree path dialect text tree = .ok r ∧
      (∀ d ∈ ds, d.location.InText text ∧ (∀ l ∈ d.apiCalls, l.InText text) ∧
        ∀ l ∈ d.markupReturns, l.InText text) ∧
      (∀ v ∈ r.violations, v.location.InText text ∧
        v.location.column + 1 < 2 ^ 64 ∧
        Result.shownColumn v.location = v.location.column + 1) ∧
      ∀ pretty, r.render .text pretty = .ok r.exactText ∧
        r.render .compact pretty = .ok r.exactCompact := by
  obtain ⟨hread, hanalyze⟩ := @analyzeTree_eq_ok path dialect text tree hfree
  have hcolumns : ∀ v ∈ report Rule.all (descriptors (Source.ofText text) tree),
      v.location.column + 1 < 2 ^ 64 ∧
        Result.shownColumn v.location = v.location.column + 1 :=
    fun v hv => (report_inText hv).shownColumn_eq hlen
  refine ⟨_, _, hread, hanalyze, fun d hd => descriptors_inText hd, ?_, ?_⟩
  · intro v hv
    exact ⟨report_inText hv, hcolumns v hv⟩
  · intro pretty
    exact ⟨congrArg Except.ok (Result.renderText_eq_exactText fun v hv => (hcolumns v hv).2),
      congrArg Except.ok (Result.renderCompact_eq_exactCompact fun v hv => (hcolumns v hv).2)⟩

theorem printed_columns_exact_sample :
    (byteLength sampleText < 2 ^ 63 ∧ ErrorFree sampleTree) ∧
    ∃ ds r, extract "card.tsx" .tsx sampleText = .ok ds ∧
      analyze "card.tsx" .tsx sampleText = .ok r ∧
      (∀ d ∈ ds, d.location.InText sampleText) ∧
      r.render .text false = .ok r.exactText ∧ r.render .compact false = .ok r.exactCompact := by
  have hlen : byteLength sampleText < 2 ^ 63 := by decide +kernel
  have hfree : ErrorFree sampleTree := sample_fits.1
  obtain ⟨ds, r, hread, hanalyze, hfunctions, -, hprinted⟩ :=
    printed_columns_exact "card.tsx" .tsx sampleText sampleTree hlen hfree
  obtain ⟨htext, hcompact⟩ := hprinted false
  exact ⟨⟨hlen, hfree⟩, ds, r, hread, hanalyze, fun d hd => (hfunctions d hd).1, htext, hcompact⟩

end RoleLint
