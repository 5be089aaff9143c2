import Mathlib.Data.List.Forall2
import RoleLint.Proofs.RawText
import RoleLint.Render

/- The output with one line for each finding says which findings there are. Each field of a
   line ends at a mark that does not occur in it, so lines are taken apart field by field; only
   the path may hold anything, and it is the same in all lines.

   1. `append_cons_cancel` - texts with the same mark behind their first parts.
   2. `Result.compactLine`, `Result.toList_renderCompact` - a line, field by field.
   3. `Violation.OnOneLine`, `ShowsAlike`, `compactLine_cancel` - equal lines show the same of
      two findings, and equal texts go on with equal texts behind the lines.
   4. `showsAlike_of_lines`, `splitOn_renderCompact` - the findings of a whole output, and its
      lines.
   5. `compact_unambiguous` - both in one statement. -/
namespace RoleLint

/-! ## Marks between fields -/

/-- What stands in front of the first mark, and behind it, is fixed by the whole. -/
theorem append_cons_cancel {α : Type} {m : α} {a b x y : List α} (ha : m ∉ a) (hb : m ∉ b)
    (h : a ++ m :: x = b ++ m :: y) : a = b ∧ x = y := by
  induction a generalizing b with
  | nil =>
    cases b with
    | nil => simpa using h
    | cons d b =>
      have hd : m = d := (List.cons.inj h).1
      exact absurd (hd ▸ List.mem_cons_self) hb
  | cons c a ih =>
    cases b with
    | nil =>
      have hc : c = m := (List.cons.inj h).1
      exact absurd (hc ▸ List.mem_cons_self) ha
    | cons d b =>
      obtain ⟨rfl, hrest⟩ := List.cons.inj h
      obtain ⟨rfl, rfl⟩ := ih (fun hm => ha (List.mem_cons_of_mem c hm))
        (fun hm => hb (List.mem_cons_of_mem c hm)) hrest
      exact ⟨rfl, rfl⟩

theorem not_mem_toDigits {c : Char} (hc : c.isDigit = false) (n : Nat) :
    c ∉ Nat.toDigits 10 n := by
  intro h
  have hdigit := Nat.isDigit_of_mem_toDigits (b := 10) (by decide) (by decide) h
  rw [hc] at hdigit
  cases hdigit

theorem eq_of_toDigits_eq {m n : Nat} (h : Nat.toDigits 10 m = Nat.toDigits 10 n) : m = n := by
  rw [← @Nat.ofDigitChars_ten_toDigits m, h, Nat.ofDigitChars_ten_toDigits]

theorem Severity.not_mem_name {c : Char} (hc : c.isAlpha = false) (s : Severity) :
    c ∉ s.name.toList := by
  have halpha : s.name.toList.all Char.isAlpha = true := by
    cases s <;> decide
  intro h
  have hletter := List.all_eq_true.mp halpha c h
  rw [hc] at hletter
  cases hletter

theorem Severity.eq_of_name_eq {s t : Severity} (h : s.name.toList = t.name.toList) : s = t := by
  cases s with
  | warning =>
    cases t with
    | warning => rfl
    | error => exact absurd h (by decide)
  | error =>
    cases t with
    | warning => exact absurd h (by decide)
    | error => rfl

namespace Result

/-! ## Lines -/

/-- The line of a finding, without its end. -/
def compactLine (file : String) (v : Violation) : List Char :=
  file.toList ++ ':' :: (Nat.toDigits 10 v.location.line ++
    ':' :: (Nat.toDigits 10 (shownColumn v.location) ++ ':' :: ' ' :: (v.severity.name.toList ++
      ' ' :: '[' :: (v.ruleId.toList ++ ']' :: ' ' :: v.message.toList))))

theorem toList_compactEntry (file : String) (v : Violation) :
    (compactEntry file v).toList = compactLine file v ++ ['\n'] := by
  simp [compactEntry, place, compactLine]

theorem toList_renderCompact (r : Result) :
    r.renderCompact.toList =
      r.violations.flatMap fun v => compactLine r.filePath.shown v ++ ['\n'] := by
  rw [renderCompact, String.toList_join, List.flatMap_map]
  simp only [toList_compactEntry]

end Result

/-- A finding can be told from its line: its column can be counted from one, no bracket closes
    inside its rule, and neither its rule nor its message ends the line. -/
structure Violation.OnOneLine (v : Violation) : Prop where
  column : v.location.column < Wire.numberLimit - 1
  rule_bracket : ']' ∉ v.ruleId.toList
  rule_end : '\n' ∉ v.ruleId.toList
  message_end : '\n' ∉ v.message.toList

/-- Two findings agree on all that a line shows. -/
structure ShowsAlike (v w : Violation) : Prop where
  line : v.location.line = w.location.line
  column : v.location.column = w.location.column
  severity : v.severity = w.severity
  ruleId : v.ruleId = w.ruleId
  message : v.message = w.message

theorem column_eq_of_shown {v w : Violation} (hv : v.OnOneLine) (hw : w.OnOneLine)
    (h : Result.shownColumn v.location = Result.shownColumn w.location) :
    v.location.column = w.location.column := by
  have hv' := hv.column
  have hw' := hw.column
  unfold Result.shownColumn at h
  rw [Nat.mod_eq_of_lt (by omega), Nat.mod_eq_of_lt (by omega)] at h
  omega

/-- **A line is read field by field.** Texts that start with the lines of two findings about
    the same file are equal only if the findings look alike and the rest is equal. -/
theorem compactLine_cancel {file : String} {v w : Violation} {x y : List Char}
    (hv : v.OnOneLine) (hw : w.OnOneLine)
    (h : Result.compactLine file v ++ '\n' :: x = Result.compactLine file w ++ '\n' :: y) :
    ShowsAlike v w ∧ x = y := by
  simp only [Result.compactLine, List.append_assoc, List.cons_append] at h
  -- The path is cancelled as a whole, whatever it holds; from there on a field ends at the first
  -- colon, blank, bracket or line end.
  have hplace := (List.cons.inj (List.append_cancel_left h)).2
  have hcolon := not_mem_toDigits (c := ':') rfl
  have hblank := Severity.not_mem_name (c := ' ') rfl
  obtain ⟨hline, hplace⟩ := append_cons_cancel (hcolon _) (hcolon _) hplace
  obtain ⟨hcolumn, hkind⟩ := append_cons_cancel (hcolon _) (hcolon _) hplace
  obtain ⟨hseverity, hrule⟩ :=
    append_cons_cancel (hblank _) (hblank _) (List.cons.inj hkind).2
  obtain ⟨hruleId, hmessage⟩ :=
    append_cons_cancel hv.rule_bracket hw.rule_bracket (List.cons.inj hrule).2
  obtain ⟨hmessage, hrest⟩ :=
    append_cons_cancel hv.message_end hw.message_end (List.cons.inj hmessage).2
  refine ⟨?_, hrest⟩
  exact {
    line := eq_of_toDigits_eq hline
    column := column_eq_of_shown hv hw (eq_of_toDigits_eq hcolumn)
    severity := Severity.eq_of_name_eq hseverity
    ruleId := String.toList_inj.mp hruleId
    message := String.toList_inj.mp hmessage }

/-! ## Whole outputs -/

theorem showsAlike_of_lines {file : String} {vs ws : List Violation}
    (hv : ∀ v ∈ vs, v.OnOneLine) (hw : ∀ w ∈ ws, w.OnOneLine)
    (h : (vs.flatMap fun v => Result.compactLine file v ++ ['\n']) =
      ws.flatMap fun w => Result.compactLine file w ++ ['\n']) :
    List.Forall₂ ShowsAlike vs ws := by
  induction vs generalizing ws with
  | nil =>
    cases ws with
    | nil => exact .nil
    | cons w ws => simp at h
  | cons v vs ih =>
    cases ws with
    | nil => simp at h
    | cons w ws =>
      rw [List.forall_mem_cons] at hv hw
      simp only [List.flatMap_cons, List.append_assoc, List.singleton_append] at h
      obtain ⟨halike, hrest⟩ := compactLine_cancel hv.1 hw.1 h
      exact .cons halike (ih hv.2 hw.2 hrest)

theorem newline_not_mem_compactLine {file : String} {v : Violation} (hfile : '\n' ∉ file.toList)
    (hv : v.OnOneLine) : '\n' ∉ Result.compactLine file v := by
  have hdigits := not_mem_toDigits (c := '\n') rfl
  have hname := Severity.not_mem_name (c := '\n') rfl
  simp [Result.compactLine, hfile, hdigits, hname, hv.rule_end, hv.message_end]

/-- Parts with a mark behind each of them have a mark between any two, and nothing behind the
    last one. -/
theorem flatMap_append_mark {α β : Type} (l : List β) (part : β → List α) (m : α) :
    (l.flatMap fun b => part b ++ [m]) = [m].intercalate (l.map part ++ [[]]) := by
  induction l with
  | nil => rfl
  | cons b l ih =>
    rw [List.flatMap_cons, ih, List.map_cons, List.cons_append, List.append_assoc]
    cases l <;> rfl

/-- **One line for each finding.** -/
theorem splitOn_renderCompact {r : Result} (hpath : '\n' ∉ r.filePath.shown.toList)
    (hr : ∀ v ∈ r.violations, v.OnOneLine) :
    r.renderCompact.toList.splitOn '\n' =
      r.violations.map (Result.compactLine r.filePath.shown) ++ [[]] := by
  rw [Result.toList_renderCompact, flatMap_append_mark]
  apply List.splitOn_intercalate
  · intro line hline
    rcases List.mem_append.mp hline with hline | hline
    · obtain ⟨v, hv, rfl⟩ := List.mem_map.mp hline
      exact newline_not_mem_compactLine hpath (hr v hv)
    · rw [List.mem_singleton.mp hline]
      exact List.not_mem_nil
  · simp

/-- **Compact output is unambiguous.** Two results about the same file, the path of which may be
    any raw text, are printed alike only if they have as many findings and these show the same,
    one by one. If no line ends in the path either, cutting the output at its line ends gives one
    line for each finding, in the order of the findings, and nothing behind the last line end. -/
theorem compact_unambiguous (r r' : Result) (hpath : r.filePath = r'.filePath)
    (hr : ∀ v ∈ r.violations, v.OnOneLine) (hr' : ∀ v ∈ r'.violations, v.OnOneLine) :
    (r.renderCompact = r'.renderCompact →
      List.Forall₂ ShowsAlike r.violations r'.violations) ∧
    ('\n' ∉ r.filePath.shown.toList → r.renderCompact.toList.splitOn '\n' =
      r.violations.map (Result.compactLine r.filePath.shown) ++ [[]]) := by
  refine ⟨?_, fun hend => splitOn_renderCompact hend hr⟩
  intro h
  have hlines := congrArg String.toList h
  rw [Result.toList_renderCompact, Result.toList_renderCompact, ← hpath] at hlines
  exact showsAlike_of_lines hr hr' hlines

instance (v : Violation) : Decidable v.OnOneLine :=
  decidable_of_iff (_ ∧ _ ∧ _ ∧ _)
    ⟨fun ⟨a, b, c, d⟩ => ⟨a, b, c, d⟩, fun ⟨a, b, c, d⟩ => ⟨a, b, c, d⟩⟩

/-- A finding at the last column, with a message that looks like the end of a line. -/
def lookalikeFinding (name : String) : Violation :=
  ⟨"a[b", "c] d: error [e] f", .error, ⟨name, .hook⟩, ⟨1, Wire.numberLimit - 2⟩⟩

/-- Two findings that look alike, about a file whose name looks like a line. -/
def lookalikeResult (name name' : String) : Result :=
  .ofViolations "x:1:2: error [y] z" [lookalikeFinding name, lookalikeFinding name']

theorem compact_unambiguous_lookalike :
    ((∀ v ∈ (lookalikeResult "useA" "useB").violations, v.OnOneLine) ∧
      (∀ v ∈ (lookalikeResult "useB" "useA").violations, v.OnOneLine) ∧
      (lookalikeResult "useA" "useB").renderCompact =
        (lookalikeResult "useB" "useA").renderCompact) ∧
    List.Forall₂ ShowsAlike [lookalikeFinding "useA", lookalikeFinding "useB"]
      [lookalikeFinding "useB", lookalikeFinding "useA"] ∧
    (lookalikeResult "useA" "useB").renderCompact.toList.splitOn '\n' =
      [Result.compactLine "x:1:2: error [y] z" (lookalikeFinding "useA"),
        Result.compactLine "x:1:2: error [y] z" (lookalikeFinding "useB"), []] := by
  have hlines : (∀ v ∈ (lookalikeResult "useA" "useB").violations, v.OnOneLine) ∧
      ∀ v ∈ (lookalikeResult "useB" "useA").violations, v.OnOneLine := by
    decide
  have hequal : (lookalikeResult "useA" "useB").renderCompact =
      (lookalikeResult "useB" "useA").renderCompact := rfl
  obtain ⟨halike, hsplit⟩ := compact_unambiguous (lookalikeResult "useA" "useB")
    (lookalikeResult "useB" "useA") rfl hlines.1 hlines.2
  have hshown : (lookalikeResult "useA" "useB").filePath.shown = "x:1:2: error [y] z" :=
    RawText.shown_ofString _
  rw [hshown] at hsplit
  exact ⟨⟨hlines.1, hlines.2, hequal⟩, halike hequal, hsplit (by decide)⟩

end RoleLint
