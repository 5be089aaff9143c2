import RoleLint.Proofs.Exactness

/- Locations as an editor reads them. An editor knows nothing of bytes: it splits a text
   into lines, goes to the line that a location names and from there over as many UTF-16
   code units as its column says.

   1. `splitLines`, `dropUnits`, `readAt` - the editor.
   2. `splitLines_cons`, `splitLines_cut` - the line that a cut of the text falls into.
   3. `readAt_locate` - an editor finds every boundary of a text at its location.
   4. `locations_read_back` - the locations of a described function lead to its name and
      to the names of the network. -/
namespace RoleLint

/-! ## The editor -/

/-- The lines of a text, each with what ends it. -/
def splitLines : List Char → List (List Char)
  | [] => [[]]
  | '\r' :: '\n' :: cs => ['\r', '\n'] :: splitLines cs
  | c :: cs =>
    if c == '\n' || c == '\r' || c == '\u2028' || c == '\u2029' then [c] :: splitLines cs
    else (splitLines cs).modifyHead (c :: ·)

/-- What is left of a text after `n` UTF-16 code units, if a character starts there. -/
def dropUnits : Nat → List Char → Option (List Char)
  | 0, cs => some cs
  | _ + 1, [] => none
  | n + 1, c :: cs => if utf16Size c ≤ n + 1 then dropUnits (n + 1 - utf16Size c) cs else none

/-- The text from a location on. A line has no place after what ends it: that is the start
    of the next one. -/
def readAt (text : List Char) (l : Location) : Option (List Char) :=
  if l.line = 0 then none
  else
    match (splitLines text).drop (l.line - 1) with
    | [] => none
    | line :: rest =>
      (dropUnits l.column line).bind fun shown =>
        if shown.isEmpty && !rest.isEmpty then none else some (shown ++ rest.flatten)

/-- At a location an editor shows a word. -/
def Shows (text : List Char) (l : Location) (word : String) : Prop :=
  ∃ rest, readAt text l = some (word.toList ++ rest)

example : readAt "a\r\n😀b\u2028c".toList ⟨2, 2⟩ = some "b\u2028c".toList := by decide

/-! ## Lines -/

theorem splitLines_cons (c : Char) (cs : List Char) :
    splitLines (c :: cs) =
      if endsLine c cs.head? then [c] :: splitLines cs
      else (splitLines cs).modifyHead (c :: ·) := by
  by_cases hpair : ∃ rest, c = '\r' ∧ cs = '\n' :: rest
  · obtain ⟨rest, rfl, rfl⟩ := hpair
    rfl
  · have hends : endsLine c cs.head? = isLineTerminator c := by
      have : (c == '\r' && cs.head? == some '\n') = false := by
        rw [Bool.and_eq_false_iff, beq_eq_false_iff_ne, beq_eq_false_iff_ne]
        by_cases hc : c = '\r'
        · refine .inr fun hn => hpair ?_
          obtain ⟨rest, hr⟩ := List.head?_eq_some_iff.mp hn
          exact ⟨rest, hc, hr⟩
        · exact .inl hc
      rw [endsLine, this, Bool.not_false, Bool.and_true]
    rw [hends, splitLines]
    · rfl
    · intro rest hc hr
      exact hpair ⟨rest, hc, hr⟩

theorem splitLines_ne_nil (text : List Char) : splitLines text ≠ [] := by
  induction text with
  | nil => simp [splitLines]
  | cons c cs ih =>
    rw [splitLines_cons]
    split
    · simp
    · simpa using ih

theorem flatten_splitLines (text : List Char) : (splitLines text).flatten = text := by
  induction text with
  | nil => rfl
  | cons c cs ih =>
    rw [splitLines_cons]
    split
    · rw [List.flatten_cons, ih, List.singleton_append]
    · obtain ⟨l, ls, hl⟩ := List.exists_cons_of_ne_nil (splitLines_ne_nil cs)
      rw [hl] at ih ⊢
      rw [List.modifyHead_cons, List.flatten_cons, List.cons_append, ← List.flatten_cons, ih]

/-- Only the text without characters starts with an empty line. -/
theorem rest_eq_nil_of_splitLines {text : List Char} {rest : List (List Char)}
    (h : splitLines text = [] :: rest) : rest = [] := by
  cases text with
  | nil =>
    cases h
    rfl
  | cons c cs =>
    rw [splitLines_cons] at h
    split at h
    · cases h
    · obtain ⟨l, ls, hl⟩ := List.exists_cons_of_ne_nil (splitLines_ne_nil cs)
      rw [hl] at h
      cases h

theorem dropUnits_append (p m : List Char) : dropUnits (utf16Length p) (p ++ m) = some m := by
  induction p with
  | nil => cases m <;> rfl
  | cons c p ih =>
    have hc := utf16Size_pos c
    have hlen := utf16Length_cons c p
    obtain ⟨n, hn⟩ : ∃ n, utf16Length (c :: p) = n + 1 := ⟨_, (Nat.sub_add_cancel (by omega)).symm⟩
    rw [hn, List.cons_append, dropUnits, if_pos (by omega), ← hn, hlen, Nat.add_sub_cancel_left, ih]

/-- The line that a cut falls into: as many lines come before it as the location of the cut
    says, its part before the cut is as wide as the column, and from the cut on the lines
    are those of the text that is left. -/
theorem splitLines_cut (a b : List Char) :
    ∃ before p m rest, splitLines (a ++ b) = before ++ (p ++ m) :: rest ∧
      splitLines b = m :: rest ∧
      (Source.ofText (a ++ b)).locate (byteLength a) = ⟨before.length + 1, utf16Length p⟩ := by
  -- From the right, so that the last character of `a` is the step of the location.
  induction a using List.reverseRecOn generalizing b with
  | nil =>
    obtain ⟨m, rest, hb⟩ := List.exists_cons_of_ne_nil (splitLines_ne_nil b)
    exact ⟨[], [], m, rest, hb, hb, Source.locate_zero b⟩
  | append_singleton a c ih =>
    obtain ⟨before, p, m, rest, htext, hb, hloc⟩ := ih (c :: b)
    obtain ⟨m', rest', hb'⟩ := List.exists_cons_of_ne_nil (splitLines_ne_nil b)
    have hstep := Source.locate_step a c b
    rw [hloc, Location.after] at hstep
    rw [splitLines_cons, hb'] at hb
    rw [List.append_assoc, List.singleton_append, byteLength_append, byteLength_cons,
      byteLength_nil, Nat.add_zero, hstep, htext]
    split at hb
    · next he =>
      cases hb
      rw [if_pos he]
      exact ⟨before ++ [p ++ [c]], [], m', rest', by simp, hb', by simp⟩
    · next he =>
      cases hb
      rw [if_neg he]
      exact ⟨before, p ++ [c], m', rest, by simp, hb', by simp⟩

/-- **An editor finds every boundary of a text at its location.** -/
theorem readAt_locate (a b : List Char) :
    readAt (a ++ b) ((Source.ofText (a ++ b)).locate (byteLength a)) = some b := by
  obtain ⟨before, p, m, rest, htext, hb, hloc⟩ := splitLines_cut a b
  have hflat : m ++ rest.flatten = b := by
    rw [← List.flatten_cons, ← hb, flatten_splitLines]
  rw [hloc, readAt, if_neg (by simp), htext, Nat.add_sub_cancel, List.drop_left]
  simp only [dropUnits_append, Option.bind_some]
  cases m with
  | nil => simp [rest_eq_nil_of_splitLines hb, ← hflat]
  | cons c m => simpa using hflat

/-! ## Locations of functions -/

section
variable {text : List Char} {tree : Tree} (hb : OnBoundaries text tree)
include hb

/-- At the location of a node an editor shows the text of the node. -/
theorem OnBoundaries.shows {t : Tree} (ht : Within tree t) :
    Shows text ((Source.ofText text).locationOf t) ((Source.ofText text).textOf t) := by
  obtain ⟨hstart, hstop, hle⟩ := hb t (mem_everyNode_iff.mpr ht)
  obtain ⟨a, b, rfl, ha⟩ := isBoundary_iff.mp hstart
  obtain ⟨a', b', hab, ha'⟩ := isBoundary_iff.mp hstop
  obtain ⟨m, rfl, rfl⟩ := cut_between hab (by omega)
  have hslice : byteSlice (a ++ (m ++ b')) t.start t.stop = some m :=
    byteSlice_eq_some_iff.mpr ⟨a, b', rfl, ha, by rw [← ha', byteLength_append]⟩
  refine ⟨b', ?_⟩
  rw [textOf_eq_ofList hslice, Source.locationOf, ← ha, readAt_locate, String.toList_ofList]

/-- At the location of a network call an editor shows a name of the network. -/
theorem OnBoundaries.shows_network (hm : MembersLead tree) {call site : Tree}
    (hc : Within tree call) (h : NetworkCall (Source.ofText text) call site) :
    Shows text ((Source.ofText text).locationOf site) "fetch" ∨
      Shows text ((Source.ofText text).locationOf site) "axios" := by
  obtain ⟨callee, hmem, -, hin⟩ := h.called.within
  have hsite := hc.trans ((Within.child .root hmem).trans hin)
  rcases h.name with ⟨-, hf | ha⟩ | ⟨hk, o, ho, -, ha⟩
  · exact .inl (hf ▸ hb.shows hsite)
  · exact .inr (ha ▸ hb.shows hsite)
  · -- The member itself may go on after the name; it starts where its object does.
    have hstart := hm site (mem_everyNode_iff.mpr hsite) hk o ho
    have hshows := hb.shows (hsite.trans (.child .root (mem_children_of_child? ho)))
    rw [ha, Source.locationOf, hstart] at hshows
    exact .inr hshows

end

/-- **Locations lead an editor to what they name.** A text with a tree that has no faults
    has its functions described; where the location of one is read back, its name stands,
    and where that of a network call is, `fetch` or `axios` does. -/
theorem locations_read_back (path : Path) (dialect : Dialect) (text : List Char) (tree : Tree)
    (hfree : ErrorFree tree) (hb : OnBoundaries text tree) (hm : MembersLead tree) :
    ∃ ds, readTree path dialect text tree = .ok ds ∧
      ∀ d ∈ ds, Shows text d.location d.name ∧
        ∀ l ∈ d.apiCalls, Shows text l "fetch" ∨ Shows text l "axios" := by
  refine ⟨_, (analyzeTree_eq_ok hfree).1, ?_⟩
  intro d hd
  obtain ⟨t, ht, name, body, hdecl, rfl⟩ := mem_descriptors_iff.mp hd
  have htw := within_of_mem_preorder ht
  refine ⟨?_, ?_⟩
  · have hshows := hb.shows (htw.trans (.child .root hdecl.name_mem))
    cases body <;> exact hshows
  · intro l hl
    cases body with
    | none => cases hl
    | some body =>
      obtain ⟨call, site, hscope, hcall, rfl⟩ := mem_apiCalls_iff.mp hl
      have hcw := htw.trans ((hdecl.within_body rfl).trans hscope.within)
      exact hb.shows_network hm hcw hcall

theorem locations_read_back_sample :
    (ErrorFree sampleTree ∧ OnBoundaries sampleText sampleTree ∧ MembersLead sampleTree) ∧
    ∃ ds, extract "card.tsx" .tsx sampleText = .ok ds ∧
      ∀ d ∈ ds, Shows sampleText d.location d.name ∧
        ∀ l ∈ d.apiCalls, Shows sampleText l "fetch" ∨ Shows sampleText l "axios" := by
  obtain ⟨hfree, hs, hl, _⟩ := sample_fits
  exact ⟨⟨hfree, hs.boundaries, hl.member_start⟩,
    locations_read_back "card.tsx" .tsx sampleText sampleTree hfree hs.boundaries hl.member_start⟩

end RoleLint
