import RoleLint.Proofs.Agreement
import RoleLint.Proofs.Outcomes
import RoleLint.Proofs.RoundTrip

/- The two layouts of JSON. On one line nothing but the end of the line is a control character,
   whatever the texts hold, and the indented layout differs by blanks alone.

   1. `Ordinary`, `escapeChar_cases` - how a character stands in a text.
   2. `Printable`, `printable_print` - a value on one line has no control characters.
   3. `withoutBlanks`, `withoutBlanks_print` - a value without the blanks outside its texts is
      the value on one line.
   4. `LayoutsAgree`, `json_layouts` - results and lists of functions as they are printed. -/
namespace RoleLint

namespace Json

/-! ## Characters of texts -/

/-- Characters that stand in a text as they are. -/
def Ordinary (c : Char) : Prop :=
  c ≠ '\x22' ∧ c ≠ '\\' ∧ 0x20 ≤ c.toNat

instance (c : Char) : Decidable (Ordinary c) :=
  inferInstanceAs (Decidable (_ ∧ _ ∧ _))

theorem ordinary_hexChar (n : Nat) : Ordinary (hexChar n) := by
  have hdigits : ∀ m < 16, Ordinary ((Nat.toDigits 16 m).headD '0') := by decide
  exact hdigits (n % 16) (Nat.mod_lt n (by decide))

/-- Characters that stand in a text as a backslash and one other character. -/
def shortEscapes : List Char :=
  ['\x22', '\\', '\x08', '\t', '\n', '\x0c', '\r']

theorem escapeChar_of_mem : ∀ c ∈ shortEscapes,
    ∃ e, escapeChar c = ['\\', e] ∧ 0x20 ≤ e.toNat := by
  simp only [shortEscapes, List.forall_mem_cons]
  exact ⟨⟨'\x22', rfl, by decide⟩, ⟨'\\', rfl, by decide⟩, ⟨'b', rfl, by decide⟩,
    ⟨'t', rfl, by decide⟩, ⟨'n', rfl, by decide⟩, ⟨'f', rfl, by decide⟩, ⟨'r', rfl, by decide⟩,
    by simp⟩

/-- A character stands in a text as it is, or as a backslash with one character and perhaps
    ordinary ones behind it. -/
theorem escapeChar_cases (c : Char) :
    (escapeChar c = [c] ∧ Ordinary c) ∨
      ∃ e rest, escapeChar c = '\\' :: e :: rest ∧ 0x20 ≤ e.toNat ∧ ∀ d ∈ rest, Ordinary d := by
  by_cases hshort : c ∈ shortEscapes
  · obtain ⟨e, heq, he⟩ := escapeChar_of_mem c hshort
    exact .inr ⟨e, [], heq, he, by simp⟩
  · simp only [shortEscapes, List.mem_cons, List.not_mem_nil, or_false, not_or] at hshort
    by_cases hcontrol : c.toNat < 0x20
    · right
      refine ⟨'u', ['0', '0', hexChar (c.toNat / 16), hexChar (c.toNat % 16)], ?_, by decide, ?_⟩
      · simp [escapeChar, hshort, hcontrol]
      · simp only [List.forall_mem_cons]
        exact ⟨by decide, by decide, ordinary_hexChar _, ordinary_hexChar _, by simp⟩
    · left
      refine ⟨?_, hshort.1, hshort.2.1, by omega⟩
      simp [escapeChar, hshort, hcontrol]

/-! ## Control characters -/

/-- No character of a text is a control character. -/
def Printable (cs : List Char) : Prop :=
  ∀ c ∈ cs, 0x20 ≤ c.toNat

instance (cs : List Char) : Decidable (Printable cs) :=
  List.decidableBAll (fun c : Char => 0x20 ≤ c.toNat) cs

theorem printable_cons {c : Char} {cs : List Char} :
    Printable (c :: cs) ↔ 0x20 ≤ c.toNat ∧ Printable cs :=
  List.forall_mem_cons

theorem printable_append {cs ds : List Char} :
    Printable (cs ++ ds) ↔ Printable cs ∧ Printable ds :=
  List.forall_mem_append

theorem printable_escapeChar (c : Char) : Printable (escapeChar c) := by
  rcases escapeChar_cases c with ⟨heq, hc⟩ | ⟨e, rest, heq, he, hrest⟩
  · rw [heq]
    exact printable_cons.mpr ⟨hc.2.2, by simp [Printable]⟩
  · rw [heq, printable_cons, printable_cons]
    exact ⟨by decide, he, fun d hd => (hrest d hd).2.2⟩

theorem printable_quote (s : String) : Printable (quote s) := by
  rw [quote, List.cons_append, printable_cons, printable_append]
  refine ⟨by decide, ?_, by decide⟩
  intro c hc
  obtain ⟨d, -, hd⟩ := List.mem_flatMap.mp hc
  exact printable_escapeChar d c hd

theorem isDigit_of_mem_natural {n : Nat} {c : Char} (h : c ∈ Nat.toDigits 10 n) :
    c.isDigit = true :=
  Nat.isDigit_of_mem_toDigits (by decide) (by decide) h

theorem printable_natural (n : Nat) : Printable (Nat.toDigits 10 n) := by
  intro c hc
  have hdigit := isDigit_of_mem_natural hc
  simp only [Char.isDigit, Bool.and_eq_true, decide_eq_true_eq] at hdigit
  have hzero : (48 : UInt32).toNat ≤ c.val.toNat := hdigit.1
  show 32 ≤ c.val.toNat
  exact Nat.le_trans (by decide) hzero

theorem printable_printItems {xs : List Json} (h : ∀ x ∈ xs, Printable (print .line x)) :
    Printable (printItems .line xs) := by
  induction xs with
  | nil => simp [printItems, Printable]
  | cons x xs ih =>
    rw [List.forall_mem_cons] at h
    rw [printItems]
    simp only [Layout.gap, List.cons_append, List.nil_append, printable_cons, printable_append]
    exact ⟨by decide, h.1, ih h.2⟩

theorem printable_printMembers {ms : List (String × Json)}
    (h : ∀ m ∈ ms, Printable (print .line m.2)) : Printable (printMembers .line ms) := by
  induction ms with
  | nil => simp [printMembers, Printable]
  | cons m ms ih =>
    rw [List.forall_mem_cons] at h
    rw [printMembers]
    simp only [Layout.gap, Layout.colon, List.cons_append, List.nil_append, List.append_assoc,
      printable_cons, printable_append]
    exact ⟨by decide, printable_quote m.1, by decide, h.1, ih h.2⟩

/-- **A value on one line has no control characters**, whatever its texts hold. -/
theorem printable_print {j : Json} (h : Plain j) : Printable (print .line j) := by
  induction h with
  | null => decide
  | bool b => cases b <;> decide
  | natural n => exact printable_natural n
  | text s => exact printable_quote s
  | @list xs _ ih =>
    cases xs with
    | nil => decide
    | cons x xs =>
      rw [List.forall_mem_cons] at ih
      rw [print]
      simp only [Layout.inner, Layout.gap, List.cons_append, List.nil_append, List.append_nil,
        printable_cons, printable_append]
      exact ⟨by decide, ⟨ih.1, printable_printItems ih.2⟩, by decide⟩
  | @object ms _ ih =>
    cases ms with
    | nil => decide
    | cons m ms =>
      rw [List.forall_mem_cons] at ih
      rw [print]
      simp only [Layout.inner, Layout.gap, Layout.colon, List.cons_append, List.nil_append,
        List.append_nil, List.append_assoc, printable_cons, printable_append]
      exact ⟨by decide, printable_quote m.1, by decide, ih.1, printable_printMembers ih.2,
        by decide⟩

/-! ## Blanks -/

/-- Characters that mean nothing outside texts. -/
def isBlank (c : Char) : Bool :=
  c == ' ' || c == '\t' || c == '\n' || c == '\r'

mutual

/-- What is left of a JSON text without the blanks outside its quotes. -/
def withoutBlanks : List Char → List Char
  | [] => []
  | c :: cs =>
    if c == '\x22' then c :: keepQuoted cs
    else if isBlank c then withoutBlanks cs
    else c :: withoutBlanks cs

/-- The same from inside a quote on; a backslash takes the next character with it. -/
def keepQuoted : List Char → List Char
  | [] => []
  | '\\' :: e :: cs => '\\' :: e :: keepQuoted cs
  | c :: cs => if c == '\x22' then c :: withoutBlanks cs else c :: keepQuoted cs

end

theorem keepQuoted_ordinary {cs : List Char} (h : ∀ c ∈ cs, Ordinary c) (rest : List Char) :
    keepQuoted (cs ++ rest) = cs ++ keepQuoted rest := by
  induction cs with
  | nil => rfl
  | cons c cs ih =>
    rw [List.forall_mem_cons] at h
    rw [List.cons_append, keepQuoted, if_neg (by simpa using h.1.1), ih h.2, List.cons_append]
    intro e ds hc
    exact absurd hc h.1.2.1

theorem keepQuoted_escapeChar (c : Char) (rest : List Char) :
    keepQuoted (escapeChar c ++ rest) = escapeChar c ++ keepQuoted rest := by
  rcases escapeChar_cases c with ⟨heq, hc⟩ | ⟨e, ds, heq, -, hds⟩
  · rw [heq]
    exact keepQuoted_ordinary (by simpa using hc) rest
  · rw [heq, List.cons_append, List.cons_append, keepQuoted, keepQuoted_ordinary hds]
    rfl

theorem keepQuoted_escape (cs rest : List Char) :
    keepQuoted (cs.flatMap escapeChar ++ '\x22' :: rest) =
      cs.flatMap escapeChar ++ '\x22' :: withoutBlanks rest := by
  induction cs with
  | nil => simp [keepQuoted]
  | cons c cs ih =>
    rw [List.flatMap_cons, List.append_assoc, keepQuoted_escapeChar, ih, List.append_assoc]

theorem withoutBlanks_quote (s : String) (rest : List Char) :
    withoutBlanks (quote s ++ rest) = quote s ++ withoutBlanks rest := by
  simp only [quote, List.cons_append, List.append_assoc, List.nil_append]
  rw [withoutBlanks, if_pos (by decide), keepQuoted_escape]

/-- Characters that stay and open no quote. -/
def isBare (c : Char) : Bool :=
  c != '\x22' && !isBlank c

theorem isBare_of_isDigit {c : Char} (h : c.isDigit = true) : isBare c = true := by
  by_contra hbare
  simp only [isBare, isBlank, Bool.and_eq_true, bne_iff_ne, Bool.not_eq_true', Bool.or_eq_false_iff,
    beq_eq_false_iff_ne, not_and_or, not_not] at hbare
  rcases hbare with rfl | ((rfl | rfl) | rfl) | rfl <;> cases h

theorem withoutBlanks_cons {c : Char} (h : isBare c = true) (cs : List Char) :
    withoutBlanks (c :: cs) = c :: withoutBlanks cs := by
  simp only [isBare, Bool.and_eq_true, bne_iff_ne, Bool.not_eq_true'] at h
  rw [withoutBlanks, if_neg (by simpa using h.1), if_neg (by simp [h.2])]

theorem withoutBlanks_append {cs : List Char} (h : cs.all isBare = true) (rest : List Char) :
    withoutBlanks (cs ++ rest) = cs ++ withoutBlanks rest := by
  induction cs with
  | nil => rfl
  | cons c cs ih =>
    rw [List.all_cons, Bool.and_eq_true] at h
    rw [List.cons_append, withoutBlanks_cons h.1, ih h.2, List.cons_append]

theorem withoutBlanks_gap (l : Layout) (rest : List Char) :
    withoutBlanks (l.gap ++ rest) = withoutBlanks rest := by
  have hspaces : ∀ n, withoutBlanks (List.replicate n ' ' ++ rest) = withoutBlanks rest := by
    intro n
    induction n with
    | zero => rfl
    | succ n ih => rw [List.replicate_succ, List.cons_append, withoutBlanks, ih]; rfl
  cases l with
  | line => rfl
  | block depth =>
    rw [Layout.gap, List.cons_append, withoutBlanks, hspaces]
    rfl

theorem withoutBlanks_colon (l : Layout) (rest : List Char) :
    withoutBlanks (l.colon ++ rest) = ':' :: withoutBlanks rest := by
  cases l with
  | line => exact withoutBlanks_cons (by decide) rest
  | block depth =>
    rw [Layout.colon, List.cons_append, withoutBlanks_cons (by decide)]
    rfl

/-- Without the blanks outside its texts a value is as on one line, wherever it stands. -/
def Squeezes (j : Json) : Prop :=
  ∀ (l : Layout) (rest : List Char),
    withoutBlanks (print l j ++ rest) = print .line j ++ withoutBlanks rest

theorem withoutBlanks_printItems {xs : List Json} (h : ∀ x ∈ xs, Squeezes x) (l : Layout)
    (rest : List Char) :
    withoutBlanks (printItems l xs ++ rest) = printItems .line xs ++ withoutBlanks rest := by
  induction xs with
  | nil => rfl
  | cons x xs ih =>
    rw [List.forall_mem_cons] at h
    rw [printItems, printItems]
    simp only [List.cons_append, List.append_assoc]
    rw [withoutBlanks_cons (by decide), withoutBlanks_gap, h.1, ih h.2]
    rfl

theorem withoutBlanks_printMembers {ms : List (String × Json)} (h : ∀ m ∈ ms, Squeezes m.2)
    (l : Layout) (rest : List Char) :
    withoutBlanks (printMembers l ms ++ rest) = printMembers .line ms ++ withoutBlanks rest := by
  induction ms with
  | nil => rfl
  | cons m ms ih =>
    rw [List.forall_mem_cons] at h
    rw [printMembers, printMembers]
    simp only [List.cons_append, List.append_assoc]
    rw [withoutBlanks_cons (by decide), withoutBlanks_gap, withoutBlanks_quote,
      withoutBlanks_colon, h.1, ih h.2]
    rfl

theorem squeezes_of_bare {j : Json} {cs : List Char} (hprint : ∀ l, print l j = cs)
    (h : cs.all isBare = true) : Squeezes j := by
  intro l rest
  rw [hprint, hprint, withoutBlanks_append h]

/-- **The layouts differ by blanks alone.** -/
theorem withoutBlanks_print {j : Json} (h : Plain j) : Squeezes j := by
  induction h with
  | null => exact squeezes_of_bare (fun _ => rfl) (by decide)
  | bool b => cases b <;> exact squeezes_of_bare (fun _ => rfl) (by decide)
  | natural n =>
    apply squeezes_of_bare (fun _ => rfl)
    rw [List.all_eq_true]
    intro c hc
    exact isBare_of_isDigit (isDigit_of_mem_natural hc)
  | text s =>
    intro l rest
    exact withoutBlanks_quote s rest
  | @list xs _ ih =>
    intro l rest
    cases xs with
    | nil =>
      have hbrackets : ['[', ']'].all isBare = true := by decide
      exact withoutBlanks_append hbrackets rest
    | cons x xs =>
      rw [List.forall_mem_cons] at ih
      rw [print, print]
      simp only [List.cons_append, List.append_assoc, List.nil_append]
      rw [withoutBlanks_cons (by decide), withoutBlanks_gap, ih.1,
        withoutBlanks_printItems ih.2, withoutBlanks_gap, withoutBlanks_cons (by decide)]
      rfl
  | @object ms _ ih =>
    intro l rest
    cases ms with
    | nil =>
      have hbraces : ['\x7b', '\x7d'].all isBare = true := by decide
      exact withoutBlanks_append hbraces rest
    | cons m ms =>
      rw [List.forall_mem_cons] at ih
      rw [print, print]
      simp only [List.cons_append, List.append_assoc, List.nil_append]
      rw [withoutBlanks_cons (by decide), withoutBlanks_gap, withoutBlanks_quote,
        withoutBlanks_colon, ih.1, withoutBlanks_printMembers ih.2, withoutBlanks_gap,
        withoutBlanks_cons (by decide)]
      rfl

end Json

/-! ## What is printed -/

/-- A text of one line: the only line end is its last character, and there is no other control
    character. -/
structure OneLine (s : String) : Prop where
  line_ends : s.toList.count '\n' = 1
  last : s.toList.getLast? = some '\n'
  control : ∀ c ∈ s.toList, c.toNat < 0x20 → c = '\n'

theorem oneLine_of_printable {cs : List Char} (h : Json.Printable cs) :
    OneLine (String.ofList cs ++ "\n") := by
  have hno : '\n' ∉ cs := by
    intro hmem
    exact absurd (h '\n' hmem) (by decide)
  have hlist : (String.ofList cs ++ "\n").toList = cs ++ ['\n'] := by simp
  refine ⟨?_, ?_, ?_⟩
  · rw [hlist, List.count_append, List.count_eq_zero.mpr hno]
    rfl
  · rw [hlist, List.getLast?_append]
    rfl
  · rw [hlist]
    intro c hc hlt
    rcases List.mem_append.mp hc with hc | hc
    · have := h c hc
      omega
    · exact List.mem_singleton.mp hc

/-- A value is printed twice, on one line and laid out: the first text is one line, the second
    differs from it by blanks outside quotes alone, and from both the value is read back. -/
structure LayoutsAgree {α : Type} (form : Json → Option α) (a : α) (line block : String) :
    Prop where
  one_line : OneLine line
  blanks : Json.withoutBlanks block.toList ++ ['\n'] = line.toList
  line_read : Wire.decode form line = some a
  block_read : Wire.decode form block = some a

theorem layoutsAgree_of_carries {α : Type} {form : Json → Option α} {j : Json} {a : α}
    (h : Wire.Carries form j a) :
    LayoutsAgree form a (j.render false ++ "\n") (j.render true ++ "\n") where
  one_line := oneLine_of_printable (Json.printable_print h.plain)
  blanks := by
    have hsqueezed := Json.withoutBlanks_print h.plain (.block 0) ['\n']
    have hend : Json.withoutBlanks ['\n'] = [] := rfl
    rw [hend, List.append_nil] at hsqueezed
    simp [Json.render, hsqueezed]
  line_read := (h.decode false).1
  block_read := (h.decode true).1

/-- A list of functions as `extract` prints it. -/
def printedFunctions (ds : List Descriptor) (pretty : Bool) : String :=
  (Wire.ofDescriptors ds).render pretty ++ "\n"

/-- **JSON is printed on one line, and laying it out changes blanks alone.** A result whose path
    is a text can be printed in both layouts. For it, and for a list of functions as `extract`
    prints it, with numbers that fit 64 bits and any texts: the one-line text has one line end,
    its last character, and no other control character; the other text is the same but for
    blanks outside quotes; from both, the value is read back. What `extract` prints is such a
    text of the functions of its file. -/
theorem json_layouts :
    (∀ r : Result, r.Fits →
      ∃ line block, r.render .json false = .ok line ∧ r.render .json true = .ok block ∧
        LayoutsAgree Wire.result? r line block) ∧
    (∀ ds : List Descriptor, (∀ d ∈ ds, d.Fits) →
      LayoutsAgree Wire.descriptors? ds (printedFunctions ds false) (printedFunctions ds true)) ∧
    ∀ fs env flag file dialect pretty c ds, configFor fs env file flag = .ok c →
      extractFile fs file (dialect.getD (c.dialectFor file)) = .ok ds →
      (∀ d ∈ ds, d.Fits) ∧ runExtract fs env flag file dialect pretty =
        .ok (.printed fs 0 (printedFunctions ds (pretty || c.output.pretty))) := by
  refine ⟨?_, ?_, ?_⟩
  · intro r hr
    obtain ⟨j, hcarries, hrender⟩ := hr.render_json
    exact ⟨_, _, hrender false, hrender true, layoutsAgree_of_carries hcarries⟩
  · intro ds hds
    exact layoutsAgree_of_carries (Wire.carries_descriptors hds)
  · intro fs env flag file dialect pretty c ds hc hds
    refine ⟨extractFile_fits hds, ?_⟩
    rw [runExtract_eq hc, hds]
    rfl

/-- A result with line ends and other control characters in all its texts. -/
def unprintableResult : Result :=
  ⟨"\x00", "a\nb\t.tsx", [⟨"\x1f", "\"\r\n\\ \x7f", .warning, ⟨"\x08\x0c\u2028", .hook⟩,
    ⟨1, Wire.numberLimit - 1⟩⟩]⟩

/-- A directory with a file that declares one function. -/
def smallFiles : FileSystem :=
  ⟨[], [(Path.names "/a.ts", .file (some "function f()\x7b\x7d"))]⟩

theorem json_layouts_unprintable :
    (unprintableResult.Fits ∧
      ∃ line block, unprintableResult.render .json false = .ok line ∧
        unprintableResult.render .json true = .ok block ∧
        LayoutsAgree Wire.result? unprintableResult line block) ∧
    ((∀ d ∈ [sampleDescriptor], d.Fits) ∧
      LayoutsAgree Wire.descriptors? [sampleDescriptor] (printedFunctions [sampleDescriptor] false)
        (printedFunctions [sampleDescriptor] true)) ∧
    runExtract smallFiles ⟨none, none⟩ none "a.ts" none true =
      .ok (.printed smallFiles 0 (printedFunctions [.ofName "f" ⟨1, 9⟩] true)) := by
  obtain ⟨hresult, hfunctions, hprinted⟩ := json_layouts
  have hr : unprintableResult.Fits := ⟨⟨_, rfl⟩, by decide⟩
  have hds : ∀ d ∈ [sampleDescriptor], d.Fits := by decide
  have hconfig : configFor smallFiles ⟨none, none⟩ "a.ts" none = .ok {} := by
    decide +kernel
  have hextract : extractFile smallFiles "a.ts" .typescript = .ok [.ofName "f" ⟨1, 9⟩] := by
    decide +kernel
  refine ⟨⟨hr, hresult _ hr⟩, ⟨hds, hfunctions _ hds⟩, ?_⟩
  exact (hprinted smallFiles ⟨none, none⟩ none "a.ts" none true {} _ hconfig hextract).2

end RoleLint
