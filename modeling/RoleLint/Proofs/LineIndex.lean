import RoleLint.Proofs.Position

/- The index of line starts, and what is looked up in it. The halving search is right only on
   an index that is sorted; what it needs is said once, and from that alone no lookup leaves
   the index, whatever the offset is.

   1. `LineIndex`, `lineIndex_ofText` - a source's starts begin with 0, go up, and are
      boundaries of its text.
   2. `LineIndex.le_iff_lt_lineOf` - the search divides the starts at the offset, so the line
      of an offset is the number of one of the starts (`lineOf_pos`, `lineOf_le_size`).
   3. `LineIndex.isGreatest` - the start of that line is the last one not after the offset.
   4. `LineIndex.exists_slice_iff` - there is a text between the start of the line and an
      offset exactly if the offset is a boundary.
   5. `line_index_safe` - all of this for the source of any text. -/
namespace RoleLint

/-- What lookups in the line starts of a source rely on. -/
structure LineIndex (s : Source) : Prop where
  first : s.starts[0]? = some 0
  increasing : s.starts.toList.Pairwise (· < ·)
  boundaries : ∀ n ∈ s.starts, IsBoundary s.text n

theorem IsBoundary.le_byteLength {text : List Char} {n : Nat} (h : IsBoundary text n) :
    n ≤ byteLength text := by
  obtain ⟨a, b, rfl, rfl⟩ := isBoundary_iff.mp h
  rw [byteLength_append]
  omega

/-- A line starts at the start of the text and after each line terminator. -/
theorem isBoundary_of_mem_lineStarts {text : List Char} {n : Nat} (h : n ∈ lineStarts text) :
    IsBoundary text n := by
  rcases List.mem_cons.mp h with rfl | h
  · exact isBoundary_iff.mpr ⟨[], text, rfl, rfl⟩
  · obtain ⟨a, c, b, rfl, -, rfl⟩ := mem_lineStartsAfter_iff_cut.mp h
    exact isBoundary_iff.mpr ⟨a ++ [c], b, by simp, by simp⟩

theorem lineIndex_ofText (text : List Char) : LineIndex (Source.ofText text) where
  first := rfl
  increasing := lineStarts_sorted text
  boundaries n hn := isBoundary_of_mem_lineStarts (by simpa [Source.ofText] using hn)

namespace LineIndex

variable {s : Source} (h : LineIndex s) (offset : Nat)
include h

/-- **The search divides the index**: the starts at or before the offset have the numbers
    below its answer, the others have not. -/
theorem lineOf_spec : s.lineOf offset ≤ s.starts.size ∧
    ∀ i n, s.starts[i]? = some n → (n ≤ offset ↔ i < s.lineOf offset) := by
  -- Before the first step the search may look at the whole index.
  obtain ⟨hle, hlow, hhigh⟩ := @searchStart_spec s.starts offset s.starts.size 0 s.starts.size
    (by omega) (by omega) (Nat.le_refl _) h.increasing (by omega) (by omega)
  refine ⟨hle, ?_⟩
  intro i n hn
  have hget : s.starts.getD i 0 = n := by
    rw [Array.getD_eq_getD_getElem?, hn, Option.getD_some]
  constructor
  · intro hno
    by_contra hi
    have := hhigh i (Nat.le_of_not_lt hi) (Array.getElem?_eq_some_iff.mp hn).1
    omega
  · intro hi
    have := hlow i hi
    omega

theorem lineOf_le_size : s.lineOf offset ≤ s.starts.size :=
  (h.lineOf_spec offset).1

theorem le_iff_lt_lineOf {i n : Nat} (hn : s.starts[i]? = some n) :
    n ≤ offset ↔ i < s.lineOf offset :=
  (h.lineOf_spec offset).2 i n hn

theorem lineOf_pos : 0 < s.lineOf offset :=
  (h.le_iff_lt_lineOf offset h.first).mp (Nat.zero_le offset)

/-- The start that is looked up is one of the index, not the value for a miss. -/
theorem getElem?_lineOf : s.starts[s.lineOf offset - 1]? = some (s.lineStart offset) := by
  have hpos := h.lineOf_pos offset
  have hle := h.lineOf_le_size offset
  have hlt : s.lineOf offset - 1 < s.starts.size := by omega
  rw [Source.lineStart, Array.getD_eq_getD_getElem?, Array.getElem?_eq_getElem hlt,
    Option.getD_some]

theorem lineStart_le : s.lineStart offset ≤ offset := by
  have hpos := h.lineOf_pos offset
  exact (h.le_iff_lt_lineOf offset (h.getElem?_lineOf offset)).mpr (by omega)

theorem lineStart_mem : s.lineStart offset ∈ s.starts :=
  Array.mem_of_getElem? (h.getElem?_lineOf offset)

omit offset in
theorem le_of_le {i j m n : Nat} (hm : s.starts[i]? = some m) (hn : s.starts[j]? = some n)
    (hij : i ≤ j) : m ≤ n := by
  obtain ⟨hi, rfl⟩ := Array.getElem?_eq_some_iff.mp hm
  obtain ⟨hj, rfl⟩ := Array.getElem?_eq_some_iff.mp hn
  rcases Nat.eq_or_lt_of_le hij with rfl | hlt
  · exact Nat.le_refl _
  · exact Nat.le_of_lt (List.pairwise_iff_getElem.mp h.increasing i j hi hj hlt)

/-- **The line of an offset starts at the last start that is not after it.** -/
theorem isGreatest : IsGreatest {n | n ∈ s.starts ∧ n ≤ offset} (s.lineStart offset) := by
  refine ⟨⟨h.lineStart_mem offset, h.lineStart_le offset⟩, ?_⟩
  rintro n ⟨hmem, hle⟩
  obtain ⟨i, hi⟩ := Array.mem_iff_getElem?.mp hmem
  have hlt := (h.le_iff_lt_lineOf offset hi).mp hle
  exact h.le_of_le hi (h.getElem?_lineOf offset) (by omega)

/-- Between the start of its line and an offset there is a text exactly if the offset is a
    boundary. -/
theorem exists_slice_iff :
    (∃ shown, byteSlice s.text (s.lineStart offset) offset = some shown) ↔
      IsBoundary s.text offset := by
  constructor
  · rintro ⟨shown, hshown⟩
    obtain ⟨a, b, htext, -, hstop⟩ := byteSlice_eq_some_iff.mp hshown
    exact isBoundary_iff.mpr ⟨a ++ shown, b, by simp [htext], by simp [hstop]⟩
  · intro hoffset
    obtain ⟨a, b, htext, hstart⟩ :=
      isBoundary_iff.mp (h.boundaries _ (h.lineStart_mem offset))
    obtain ⟨a', b', htext', hstop⟩ := isBoundary_iff.mp hoffset
    have hle : byteLength a ≤ byteLength a' := by
      rw [hstart, hstop]
      exact h.lineStart_le offset
    obtain ⟨shown, rfl, rfl⟩ := cut_between (htext.symm.trans htext') hle
    refine ⟨shown, ?_⟩
    rw [htext, ← hstart, ← hstop, byteLength_append]
    exact byteSlice_append a shown b'

/-- At boundaries, and only there, the column is counted; elsewhere it is the value for a
    missing text. -/
theorem column_counted_iff :
    (∃ shown, byteSlice s.text (s.lineStart offset) offset = some shown ∧
      (s.locate offset).column = utf16Length shown) ↔ IsBoundary s.text offset := by
  rw [← h.exists_slice_iff offset]
  constructor
  · rintro ⟨shown, hshown, -⟩
    exact ⟨shown, hshown⟩
  · rintro ⟨shown, hshown⟩
    refine ⟨shown, hshown, ?_⟩
    rw [Source.locate, hshown]
    rfl

end LineIndex

/-- **The line index is well formed and lookups in it are safe.** The starts of the lines of a
    text begin with 0, are strictly increasing, and are boundaries not beyond its end. For every
    offset, also one inside a character or beyond the end, the search answers with the number
    of a line, and the starts at or before the offset are exactly those up to this line; its
    own start is read within the index and is the greatest one not after the offset. From there
    to the offset there is a text whose length is the column exactly if the offset is a
    boundary. -/
theorem line_index_safe (text : List Char) :
    let s := Source.ofText text
    s.starts[0]? = some 0 ∧ s.starts.toList.Pairwise (· < ·) ∧
    (∀ n ∈ s.starts, IsBoundary text n ∧ n ≤ byteLength text) ∧
    ∀ offset,
      (1 ≤ s.lineOf offset ∧ s.lineOf offset ≤ s.starts.size) ∧
      (∀ i n, s.starts[i]? = some n → (n ≤ offset ↔ i < s.lineOf offset)) ∧
      s.starts[s.lineOf offset - 1]? = some (s.lineStart offset) ∧
      IsGreatest {n | n ∈ s.starts ∧ n ≤ offset} (s.lineStart offset) ∧
      ((∃ shown, byteSlice text (s.lineStart offset) offset = some shown ∧
        (s.locate offset).column = utf16Length shown) ↔ IsBoundary text offset) := by
  intro s
  have h : LineIndex s := lineIndex_ofText text
  refine ⟨h.first, h.increasing, ?_, ?_⟩
  · intro n hn
    exact ⟨h.boundaries n hn, (h.boundaries n hn).le_byteLength⟩
  · intro offset
    refine ⟨⟨h.lineOf_pos offset, h.lineOf_le_size offset⟩, ?_, h.getElem?_lineOf offset,
      h.isGreatest offset, h.column_counted_iff offset⟩
    intro i n hn
    exact h.le_iff_lt_lineOf offset hn

/-- Two lines; the offset 5 is inside the emoji, 7 is after it, and 80 beyond the end. -/
theorem line_index_safe_inside :
    let s := Source.ofText "a\r\n😀b".toList
    3 ∈ s.starts ∧ IsBoundary "a\r\n😀b".toList 3 ∧ ¬ IsBoundary "a\r\n😀b".toList 5 ∧
      s.starts[s.lineOf 5 - 1]? = some (s.lineStart 5) ∧
      s.starts[s.lineOf 80 - 1]? = some (s.lineStart 80) ∧
      (3 ≤ 5 ↔ 1 < s.lineOf 5) ∧
      IsBoundary "a\r\n😀b".toList 7 ∧
      ∃ shown, byteSlice "a\r\n😀b".toList (s.lineStart 7) 7 = some shown ∧
        (s.locate 7).column = utf16Length shown := by
  intro s
  have hsecond : s.starts[1]? = some 3 := by decide
  have hmem : 3 ∈ s.starts := Array.mem_of_getElem? hsecond
  have hinside : ¬ IsBoundary "a\r\n😀b".toList 5 := by decide
  have hafter : IsBoundary "a\r\n😀b".toList 7 := by decide
  obtain ⟨-, -, hstarts, hlookup⟩ := line_index_safe "a\r\n😀b".toList
  obtain ⟨-, hdivided, hread, -, -⟩ := hlookup 5
  exact ⟨hmem, (hstarts 3 hmem).1, hinside, hread, (hlookup 80).2.2.1, hdivided 1 3 hsecond,
    hafter, (hlookup 7).2.2.2.2.mpr hafter⟩

end RoleLint
