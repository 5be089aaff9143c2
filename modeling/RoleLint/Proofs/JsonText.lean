import RoleLint.Json.Printer
import RoleLint.Json.Reader

/- What is written as JSON is read back as it was, in every layout.

   1. `readUnits_escape`, `readText_quote` - texts.
   2. `readNumber_toDigits` - numbers, up to a character that cannot go on with one.
   3. `Plain`, `readValue_print` - values without parts that cannot be used.
   4. `parse?_render` - whole texts. -/
namespace RoleLint.Json

/-! ## Texts -/

/-- Control characters are written with four hexadecimal digits. -/
theorem hexUnit?_control : ∀ n < 0x20,
    hexUnit? '0' '0' (hexChar (n / 16)) (hexChar (n % 16)) = some (.char (Char.ofNat n)) := by
  decide

/-- One character, as it is written, is read as one unit. -/
theorem readUnits_escapeChar (c : Char) {cs rest : List Char} {us : List TextUnit}
    (h : readUnits cs = some (us, rest)) :
    readUnits (escapeChar c ++ cs) = some (.char c :: us, rest) := by
  by_cases hquote : c = '\x22'
  · subst hquote; simp [escapeChar, readUnits, escaped?, h]
  by_cases hslash : c = '\\'
  · subst hslash; simp [escapeChar, readUnits, escaped?, h]
  by_cases hback : c = '\x08'
  · subst hback; simp [escapeChar, readUnits, escaped?, h]
  by_cases htab : c = '\t'
  · subst htab; simp [escapeChar, readUnits, escaped?, h]
  by_cases hline : c = '\n'
  · subst hline; simp [escapeChar, readUnits, escaped?, h]
  by_cases hform : c = '\x0c'
  · subst hform; simp [escapeChar, readUnits, escaped?, h]
  by_cases hreturn : c = '\r'
  · subst hreturn; simp [escapeChar, readUnits, escaped?, h]
  by_cases hcontrol : c.toNat < 0x20
  · have hunit := hexUnit?_control c.toNat hcontrol
    rw [Char.ofNat_toNat] at hunit
    simp [escapeChar, hquote, hslash, hback, htab, hline, hform, hreturn, hcontrol, readUnits,
      hunit, h]
  · have hplain : escapeChar c = [c] := by
      simp [escapeChar, hquote, hslash, hback, htab, hline, hform, hreturn, hcontrol]
    rw [hplain, List.singleton_append, readUnits]
    · simp [hquote, hslash, hcontrol, h]
    · intro a b c d cs hc
      exact absurd hc hslash
    · intro e cs hc
      exact absurd hc hslash

theorem readUnits_escape (cs rest : List Char) :
    readUnits (cs.flatMap escapeChar ++ '\x22' :: rest) = some (cs.map .char, rest) := by
  induction cs with
  | nil => simp [readUnits]
  | cons c cs ih =>
    rw [List.flatMap_cons, List.append_assoc, readUnits_escapeChar c ih, List.map_cons]

theorem joinUnits_chars (cs : List Char) : joinUnits (cs.map .char) = some cs := by
  induction cs with
  | nil => rfl
  | cons c cs ih => rw [List.map_cons, joinUnits, ih, Option.map_some]

/-- A text in quotes, without the opening one, is read back. -/
theorem readText_quote (s : String) (rest : List Char) :
    readText (s.toList.flatMap escapeChar ++ '\x22' :: rest) = some (some s, rest) := by
  simp [readText, readUnits_escape, joinUnits_chars]

/-! ## Numbers -/

/-- What may come after a value: nothing, or a character that no number goes on with. -/
def Ends (rest : List Char) : Prop :=
  ∀ c ∈ rest.head?, c = ',' ∨ c = ']' ∨ c = '\x7d' ∨ c = '\n'

theorem Ends.not_isDigit {rest : List Char} (h : Ends rest) {c : Char} (hc : c ∈ rest.head?) :
    c.isDigit = false ∧ c ≠ '.' ∧ c ≠ 'e' ∧ c ≠ 'E' := by
  rcases h c hc with rfl | rfl | rfl | rfl <;> decide

theorem splitDigits_append {ds rest : List Char} (hd : ∀ d ∈ ds, d.isDigit = true)
    (hr : Ends rest) : splitDigits (ds ++ rest) = (ds, rest) := by
  rw [splitDigits, List.takeWhile_append_of_pos hd, List.dropWhile_append_of_pos hd]
  cases rest with
  | nil => simp
  | cons c rest =>
    have hc := (hr.not_isDigit (c := c) rfl).1
    simp [hc]

theorem ofDigits_toDigits (n : Nat) : ofDigits (Nat.toDigits 10 n) = n :=
  Nat.ofDigitChars_ten_toDigits

theorem isInteger_toDigits (n : Nat) : isInteger (Nat.toDigits 10 n) = true := by
  have hhead : ∀ n, 0 < n → (Nat.toDigits 10 n).head? ≠ some '0' := by
    -- The first digit of a larger number is that of the number without its last digit.
    intro n
    induction n using Nat.strongRecOn with
    | ind n ih =>
      intro hn
      by_cases hlt : n < 10
      · rw [Nat.toDigits_of_lt_base hlt]
        have : ∀ m < 10, 0 < m → [m.digitChar].head? ≠ some '0' := by decide
        exact this n hlt hn
      · rw [Nat.toDigits_of_base_le (by decide) (by omega), List.head?_append]
        have := ih (n / 10) (by omega) (by omega)
        cases hd : (Nat.toDigits 10 (n / 10)).head? with
        | none => exact absurd (List.head?_eq_none_iff.mp hd) Nat.toDigits_ne_nil
        | some d => simpa [hd] using this
  cases n with
  | zero => decide
  | succ n =>
    have h := hhead (n + 1) (by omega)
    have hne : Nat.toDigits 10 (n + 1) ≠ [] := Nat.toDigits_ne_nil
    simp [isInteger, h, hne]

theorem skipFraction_ends {rest : List Char} (h : Ends rest) :
    skipFraction rest = some (false, rest) := by
  cases rest with
  | nil => rfl
  | cons c rest =>
    rw [skipFraction]
    intro cs hc
    cases hc
    exact (h.not_isDigit (c := '.') rfl).2.1 rfl

theorem skipExponent_ends {rest : List Char} (h : Ends rest) :
    skipExponent rest = some (false, rest) := by
  cases rest with
  | nil => rfl
  | cons c rest =>
    obtain ⟨-, -, he, hE⟩ := h.not_isDigit (c := c) rfl
    simp [skipExponent, he, hE]

/-- A number is read back up to where it ends. -/
theorem readNumber_toDigits (n : Nat) {rest : List Char} (h : Ends rest) :
    readNumber (Nat.toDigits 10 n ++ rest) = some (natural n, rest) := by
  have hdigits : ∀ d ∈ Nat.toDigits 10 n, d.isDigit = true := fun d hd =>
    Nat.isDigit_of_mem_toDigits (by decide) (by decide) hd
  have hsign : ∀ cs, Nat.toDigits 10 n ++ rest ≠ '-' :: cs := by
    intro cs heq
    cases hd : Nat.toDigits 10 n with
    | nil => exact Nat.toDigits_ne_nil hd
    | cons d ds =>
      rw [hd, List.cons_append] at heq
      have := hdigits d (by rw [hd]; exact List.mem_cons_self)
      cases heq
      cases this
  unfold readNumber
  split
  · next negative body heq =>
    split at heq
    · next r hr => exact absurd hr (hsign r)
    · cases heq
      rw [splitDigits_append hdigits h]
      simp [isInteger_toDigits, skipFraction_ends h, skipExponent_ends h, ofDigits_toDigits]

/-! ## Blanks -/

theorem skipBlanks_gap (l : Layout) (cs : List Char) : skipBlanks (l.gap ++ cs) = skipBlanks cs := by
  have hspaces : ∀ n, skipBlanks (List.replicate n ' ' ++ cs) = skipBlanks cs := by
    intro n
    induction n with
    | zero => rfl
    | succ n ih => simp [List.replicate_succ, skipBlanks, ih]
  cases l with
  | line => rfl
  | block depth => simp [Layout.gap, skipBlanks, hspaces]

theorem skipBlanks_cons {c : Char} (h : c ≠ ' ' ∧ c ≠ '\t' ∧ c ≠ '\n' ∧ c ≠ '\r')
    (cs : List Char) : skipBlanks (c :: cs) = c :: cs := by
  simp [skipBlanks, h]

/-- A text that starts with no blank and closes no list. -/
def Starts (cs : List Char) : Prop :=
  ∃ c rest, cs = c :: rest ∧ (c ≠ ' ' ∧ c ≠ '\t' ∧ c ≠ '\n' ∧ c ≠ '\r') ∧ c ≠ ']'

theorem starts_toDigits (n : Nat) : Starts (Nat.toDigits 10 n) := by
  obtain ⟨d, ds, hd⟩ := List.exists_cons_of_ne_nil (@Nat.toDigits_ne_nil n 10)
  have hdigit := Nat.isDigit_of_mem_toDigits (b := 10) (n := n) (c := d) (by decide) (by decide)
    (by rw [hd]; exact List.mem_cons_self)
  refine ⟨d, ds, hd, ⟨?_, ?_, ?_, ?_⟩, ?_⟩ <;> rintro rfl <;> cases hdigit

theorem starts_print (l : Layout) (j : Json) : Starts (print l j) := by
  cases j with
  | null => exact ⟨_, _, rfl, by decide⟩
  | bool b => cases b <;> exact ⟨_, _, rfl, by decide⟩
  | natural n => exact starts_toDigits n
  | text s => exact ⟨_, _, rfl, by decide⟩
  | list xs =>
    cases xs <;> simp only [print, List.cons_append] <;> exact ⟨_, _, rfl, by decide⟩
  | object ms =>
    rcases ms with _ | ⟨⟨k, x⟩, ms⟩ <;> simp only [print, List.cons_append] <;>
      exact ⟨_, _, rfl, by decide⟩
  | other => exact ⟨_, _, rfl, by decide⟩

/-! ## Values -/

/-- A value without parts that cannot be used. -/
inductive Plain : Json → Prop where
  | null : Plain null
  | bool (b : Bool) : Plain (bool b)
  | natural (n : Nat) : Plain (natural n)
  | text (s : String) : Plain (text s)
  | list {xs : List Json} : (∀ x ∈ xs, Plain x) → Plain (list xs)
  | object {ms : List (String × Json)} : (∀ m ∈ ms, Plain m.2) → Plain (object ms)

/-- A value is read back wherever its text stands, with fuel for every character. -/
def ReadsBack (j : Json) : Prop :=
  ∀ (l : Layout) (fuel : Nat) (rest : List Char), 2 * (print l j).length ≤ fuel → Ends rest →
    readValue fuel (print l j ++ rest) = some (j, rest)

theorem readValue_gap (fuel : Nat) (l : Layout) (cs : List Char) :
    readValue fuel (l.gap ++ cs) = readValue fuel cs := by
  cases fuel with
  | zero => rfl
  | succ fuel => rw [readValue, readValue, skipBlanks_gap]

theorem ends_gap (l : Layout) {cs : List Char} (h : Ends cs) : Ends (l.gap ++ cs) := by
  cases l with
  | line => exact h
  | block depth =>
    intro c hc
    cases hc
    exact .inr (.inr (.inr rfl))

theorem ends_printItems (l : Layout) (xs : List Json) {cs : List Char} (h : Ends cs) :
    Ends (printItems l xs ++ cs) := by
  cases xs with
  | nil => exact h
  | cons x xs =>
    intro c hc
    rw [printItems] at hc
    cases hc
    exact .inl rfl

theorem ends_printMembers (l : Layout) (ms : List (String × Json)) {cs : List Char}
    (h : Ends cs) : Ends (printMembers l ms ++ cs) := by
  rcases ms with _ | ⟨⟨k, x⟩, ms⟩
  · exact h
  · intro c hc
    rw [printMembers] at hc
    cases hc
    exact .inl rfl

theorem ends_close (l : Layout) (rest : List Char) :
    Ends (l.gap ++ ']' :: rest) ∧ Ends (l.gap ++ '\x7d' :: rest) := by
  refine ⟨ends_gap l ?_, ends_gap l ?_⟩
  · intro c hc
    cases hc
    exact .inr (.inl rfl)
  · intro c hc
    cases hc
    exact .inr (.inr (.inl rfl))

theorem readItems_gap (fuel : Nat) (l : Layout) (cs : List Char) :
    readItems fuel (l.gap ++ cs) = readItems fuel cs := by
  cases fuel with
  | zero => rfl
  | succ fuel => rw [readItems, readItems, readValue_gap]

theorem readMembers_gap (fuel : Nat) (l : Layout) (cs : List Char) :
    readMembers fuel (l.gap ++ cs) = readMembers fuel cs := by
  cases fuel with
  | zero => rfl
  | succ fuel => rw [readMembers, readMembers, skipBlanks_gap]

/-- The items of a list, from one of them on. -/
theorem readItems_print {x : Json} {xs : List Json} (h : ∀ y ∈ x :: xs, ReadsBack y)
    (l l' : Layout) (fuel : Nat) (rest : List Char)
    (hf : 2 * ((print l x).length + (printItems l xs).length) + 1 ≤ fuel) :
    readItems fuel (print l x ++ (printItems l xs ++ (l'.gap ++ ']' :: rest))) =
      some (x :: xs, rest) := by
  induction xs generalizing x fuel with
  | nil =>
    obtain ⟨fuel, rfl⟩ : ∃ n, fuel = n + 1 := ⟨fuel - 1, by omega⟩
    have hx := h x List.mem_cons_self l fuel _ (by omega) (ends_close l' rest).1
    rw [printItems, List.nil_append, readItems, hx]
    simp only [skipBlanks_gap]
    rfl
  | cons y ys ih =>
    obtain ⟨fuel, rfl⟩ : ∃ n, fuel = n + 1 := ⟨fuel - 1, by omega⟩
    have hends := ends_printItems l (y :: ys) (ends_close l' rest).1
    have hx := h x List.mem_cons_self l fuel _ (by omega) hends
    rw [printItems] at hf
    simp only [List.length_append, List.length_cons] at hf
    -- The comma pays for the step to the next item.
    have hys := ih (fun z hz => h z (List.mem_cons_of_mem x hz)) fuel (by omega)
    rw [readItems, hx, printItems]
    simp only [List.cons_append, List.append_assoc]
    rw [skipBlanks_cons (by decide)]
    simp only [readItems_gap, hys]
    rfl

/-- A key, a colon and a value, with the end of the object or a comma after them. -/
theorem readMembers_member {k : String} {x : Json} (hx : ReadsBack x) (l : Layout) (fuel : Nat)
    {rest after : List Char} (hf : 2 * (print l x).length ≤ fuel) (hr : Ends rest) :
    (skipBlanks rest = '\x7d' :: after →
      readMembers (fuel + 1) (quote k ++ (l.colon ++ (print l x ++ rest))) =
        some (object [(k, x)], after)) ∧
    ∀ ms left, skipBlanks rest = ',' :: after → readMembers fuel after = some (object ms, left) →
      readMembers (fuel + 1) (quote k ++ (l.colon ++ (print l x ++ rest))) =
        some (object ((k, x) :: ms), left) := by
  have hvalue := hx l fuel rest hf hr
  have hblank : readValue fuel (' ' :: (print l x ++ rest)) = some (x, rest) := by
    cases fuel with
    | zero => exact hvalue
    | succ fuel =>
      rw [readValue] at hvalue ⊢
      exact hvalue
  have hcolon : ∃ cs, skipBlanks (l.colon ++ (print l x ++ rest)) = ':' :: cs ∧
      readValue fuel cs = some (x, rest) := by
    cases l with
    | line => exact ⟨_, skipBlanks_cons (by decide) _, hvalue⟩
    | block depth => exact ⟨_, skipBlanks_cons (by decide) _, hblank⟩
  obtain ⟨cs, hcs, hread⟩ := hcolon
  rw [readMembers, quote]
  simp only [List.cons_append, List.append_assoc, List.nil_append]
  rw [skipBlanks_cons (by decide)]
  simp only [readText_quote, hcs, hread]
  refine ⟨?_, ?_⟩
  · intro hclose
    simp only [hclose, addMember]
  · intro ms left hcomma hms
    simp only [hcomma, hms, Option.map_some, addMember]

/-- The members of an object, from one of them on. -/
theorem readMembers_print {k : String} {x : Json} {ms : List (String × Json)}
    (h : ∀ m ∈ (k, x) :: ms, ReadsBack m.2) (l l' : Layout) (fuel : Nat) (rest : List Char)
    (hf : 2 * ((print l x).length + (printMembers l ms).length) + 1 ≤ fuel) :
    readMembers fuel (quote k ++ (l.colon ++ (print l x ++
        (printMembers l ms ++ (l'.gap ++ '\x7d' :: rest))))) =
      some (object ((k, x) :: ms), rest) := by
  induction ms generalizing k x fuel with
  | nil =>
    obtain ⟨fuel, rfl⟩ : ∃ n, fuel = n + 1 := ⟨fuel - 1, by omega⟩
    have hx : ReadsBack x := h (k, x) List.mem_cons_self
    rw [printMembers, List.nil_append]
    apply (readMembers_member hx l fuel (by omega) (ends_close l' rest).2).1
    rw [skipBlanks_gap, skipBlanks_cons (by decide)]
  | cons m ms ih =>
    obtain ⟨fuel, rfl⟩ : ∃ n, fuel = n + 1 := ⟨fuel - 1, by omega⟩
    obtain ⟨k', y⟩ := m
    have hx : ReadsBack x := h (k, x) List.mem_cons_self
    have hends := ends_printMembers l ((k', y) :: ms) (ends_close l' rest).2
    have hfx : 2 * (print l x).length ≤ fuel := by omega
    rw [printMembers] at hf hends ⊢
    simp only [List.length_append, List.length_cons] at hf
    simp only [List.cons_append, List.append_assoc] at hends ⊢
    apply (readMembers_member hx l fuel hfx hends).2 _ _ (skipBlanks_cons (by decide) _)
    rw [readMembers_gap]
    exact ih (fun z hz => h z (List.mem_cons_of_mem _ hz)) fuel (by omega)

/-- What starts with a digit is a number. -/
theorem readValue_digit (fuel : Nat) {d : Char} (hd : d.isDigit = true) (cs : List Char) :
    readValue (fuel + 1) (d :: cs) = readNumber (d :: cs) := by
  have hblank : d ≠ ' ' ∧ d ≠ '\t' ∧ d ≠ '\n' ∧ d ≠ '\r' := by
    refine ⟨?_, ?_, ?_, ?_⟩ <;> rintro rfl <;> cases hd
  rw [readValue, skipBlanks_cons hblank]
  split
  case h_7 => rfl
  all_goals next heq => cases heq; cases hd

theorem readsBack_null : ReadsBack null := by
  intro l fuel rest hf _
  obtain ⟨fuel, rfl⟩ : ∃ n, fuel = n + 1 := ⟨fuel - 1, by simp [print] at hf; omega⟩
  rfl

theorem readsBack_bool (b : Bool) : ReadsBack (bool b) := by
  intro l fuel rest hf _
  obtain ⟨fuel, rfl⟩ : ∃ n, fuel = n + 1 := ⟨fuel - 1, by cases b <;> simp [print] at hf <;> omega⟩
  cases b <;> rfl

theorem readsBack_natural (n : Nat) : ReadsBack (natural n) := by
  intro l fuel rest hf hr
  have hpos := @Nat.length_toDigits_pos 10 n
  obtain ⟨fuel, rfl⟩ : ∃ m, fuel = m + 1 := ⟨fuel - 1, by rw [print] at hf; omega⟩
  obtain ⟨d, ds, hd⟩ := List.exists_cons_of_ne_nil (@Nat.toDigits_ne_nil n 10)
  have hdigit : d.isDigit = true := by
    apply Nat.isDigit_of_mem_toDigits (b := 10) (n := n) (by decide) (by decide)
    rw [hd]
    exact List.mem_cons_self
  have hnumber := readNumber_toDigits n hr
  rw [print]
  rw [hd, List.cons_append] at hnumber ⊢
  rw [readValue_digit fuel hdigit, hnumber]

theorem readsBack_text (s : String) : ReadsBack (text s) := by
  intro l fuel rest hf _
  obtain ⟨fuel, rfl⟩ : ∃ n, fuel = n + 1 := ⟨fuel - 1, by simp [print, quote] at hf; omega⟩
  rw [print, quote, readValue]
  simp only [List.cons_append, List.append_assoc, List.nil_append]
  rw [skipBlanks_cons (by decide)]
  simp only [readText_quote]
  rfl

/-- The brackets around a list pay for the fuel that its items need. -/
theorem readsBack_list {xs : List Json} (h : ∀ x ∈ xs, ReadsBack x) : ReadsBack (list xs) := by
  intro l fuel rest hf _
  cases xs with
  | nil =>
    obtain ⟨fuel, rfl⟩ : ∃ n, fuel = n + 1 := ⟨fuel - 1, by simp [print] at hf; omega⟩
    rfl
  | cons x xs =>
    rw [print] at hf ⊢
    simp only [List.length_append, List.length_cons] at hf
    obtain ⟨fuel, rfl⟩ : ∃ n, fuel = n + 1 := ⟨fuel - 1, by omega⟩
    have hitems := readItems_print h l.inner l fuel rest (by omega)
    rw [readValue]
    simp only [List.cons_append, List.append_assoc, List.nil_append]
    rw [skipBlanks_cons (by decide)]
    obtain ⟨c, cs, hcs, hblank, hclose⟩ := starts_print l.inner x
    rw [hcs, List.cons_append] at hitems ⊢
    simp only [skipBlanks_gap, skipBlanks_cons hblank]
    split
    · next heq => exact absurd (List.cons.inj heq).1 hclose
    · rw [hitems]
      rfl

theorem readsBack_object {ms : List (String × Json)} (h : ∀ m ∈ ms, ReadsBack m.2) :
    ReadsBack (object ms) := by
  intro l fuel rest hf _
  rcases ms with _ | ⟨⟨k, x⟩, ms⟩
  · obtain ⟨fuel, rfl⟩ : ∃ n, fuel = n + 1 := ⟨fuel - 1, by simp [print] at hf; omega⟩
    rfl
  · rw [print] at hf ⊢
    simp only [List.length_append, List.length_cons] at hf
    obtain ⟨fuel, rfl⟩ : ∃ n, fuel = n + 1 := ⟨fuel - 1, by omega⟩
    have hmembers := readMembers_print h l.inner l fuel rest (by omega)
    rw [readValue]
    simp only [List.cons_append, List.append_assoc, List.nil_append]
    rw [skipBlanks_cons (by decide)]
    rw [quote, List.cons_append, List.cons_append] at hmembers ⊢
    simp only [skipBlanks_gap]
    rw [skipBlanks_cons (by decide)]
    exact hmembers

/-- **Every plain value is read back.** -/
theorem readValue_print {j : Json} (h : Plain j) : ReadsBack j := by
  induction h with
  | null => exact readsBack_null
  | bool b => exact readsBack_bool b
  | natural n => exact readsBack_natural n
  | text s => exact readsBack_text s
  | list _ ih => exact readsBack_list ih
  | object _ ih => exact readsBack_object ih

/-! ## Whole texts -/

/-- **What is written is read back**, on one line or laid out, with or without a line end
    after it. -/
theorem parse?_render {j : Json} (h : Plain j) (pretty : Bool) :
    parse? (j.render pretty ++ "\n") = some j ∧ parse? (j.render pretty) = some j := by
  have hread : ∀ rest, Ends rest → (skipBlanks rest).isEmpty = true →
      parse? (String.ofList (print (if pretty then .block 0 else .line) j ++ rest)) = some j := by
    intro rest hr hblank
    rw [parse?, String.toList_ofList,
      readValue_print h _ _ rest (by rw [List.length_append]; omega) hr]
    simp only [hblank, if_true]
  refine ⟨?_, ?_⟩
  · rw [render, show "\n" = String.ofList ['\n'] from rfl, ← String.ofList_append]
    exact hread ['\n'] (fun c hc => by cases hc; exact .inr (.inr (.inr rfl))) rfl
  · have := hread [] (fun c hc => by cases hc) rfl
    rwa [List.append_nil] at this

end RoleLint.Json
