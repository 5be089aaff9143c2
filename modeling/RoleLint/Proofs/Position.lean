import Mathlib.Data.Set.Card
import Mathlib.Order.Bounds.Basic
import RoleLint.Proofs.Place

/- Positions in a text, counted from the text alone: how many line terminators end at or
   before an offset, and how many UTF-16 code units stand between the last of them and the
   offset.

   1. `Terminator`, `TerminatorAt` - line terminators as stretches of a text.
   2. `mem_lineStartsAfter_iff` - the line starts that are recorded are the ends of the line
      terminators; `ncard_terminatorsUpTo` counts them.
   3. `Position`, `position_reference` - locations are positions.
   4. `locations_ordered` - locations are in the order of the offsets they belong to.
   5. `LineEnding`, `rewrite_keeps_locations` - locations do not depend on which line
      terminator a text uses. -/
namespace RoleLint

/-! ## Line terminators -/

/-- A line terminator stands between two texts. A carriage return and a line feed directly
    after it are one terminator. -/
inductive Terminator : (before mark after : List Char) → Prop where
  | lineFeed {before after : List Char} : before.getLast? ≠ some '\r' →
      Terminator before ['\n'] after
  | carriageReturn {before after : List Char} : after.head? ≠ some '\n' →
      Terminator before ['\r'] after
  | pair {before after : List Char} : Terminator before ['\r', '\n'] after
  | lineSeparator {before after : List Char} : Terminator before ['\u2028'] after
  | paragraphSeparator {before after : List Char} : Terminator before ['\u2029'] after

/-- A line terminator of a text takes the bytes from `start` to `stop`. -/
def TerminatorAt (text : List Char) (start stop : Nat) : Prop :=
  ∃ before mark after, text = before ++ (mark ++ after) ∧ Terminator before mark after ∧
    byteLength before = start ∧ byteLength before + byteLength mark = stop

theorem endsLine_eq_true_iff {c : Char} {next : Option Char} :
    endsLine c next = true ↔
      c = '\n' ∨ c = '\r' ∧ next ≠ some '\n' ∨ c = '\u2028' ∨ c = '\u2029' := by
  by_cases hc : c = '\r'
  · subst hc
    simp [endsLine, isLineTerminator]
  · simp [endsLine, isLineTerminator, hc, or_assoc]

/-- A line ends after a character exactly if a line terminator ends there. -/
theorem endsLine_iff_terminator (a : List Char) (c : Char) (b : List Char) :
    endsLine c b.head? = true ↔
      ∃ before mark, a ++ [c] = before ++ mark ∧ Terminator before mark b := by
  rw [endsLine_eq_true_iff]
  constructor
  · rintro (rfl | ⟨rfl, hnext⟩ | rfl | rfl)
    · -- A line feed belongs to the carriage return before it, if there is one.
      by_cases hr : a.getLast? = some '\r'
      · obtain ⟨d, rfl⟩ := List.getLast?_eq_some_iff.mp hr
        exact ⟨d, ['\r', '\n'], by simp, .pair⟩
      · exact ⟨a, ['\n'], rfl, .lineFeed hr⟩
    · exact ⟨a, ['\r'], rfl, .carriageReturn hnext⟩
    · exact ⟨a, ['\u2028'], rfl, .lineSeparator⟩
    · exact ⟨a, ['\u2029'], rfl, .paragraphSeparator⟩
  · rintro ⟨before, mark, hcut, hmark⟩
    have hlast := congrArg List.getLast? hcut
    cases hmark with
    | lineFeed => exact .inl (by simpa using hlast)
    | carriageReturn hnext => exact .inr (.inl ⟨by simpa using hlast, hnext⟩)
    | pair => exact .inl (by simpa using hlast)
    | lineSeparator => exact .inr (.inr (.inl (by simpa using hlast)))
    | paragraphSeparator => exact .inr (.inr (.inr (by simpa using hlast)))

/-- The last character of a line terminator, and what stands before it: a line feed takes a
    carriage return with it, and nothing else does. -/
theorem Terminator.last {before mark after : List Char} (h : Terminator before mark after) :
    ∃ a c, before ++ mark = a ++ [c] ∧
      (before = a ∧ ¬ (c = '\n' ∧ a.getLast? = some '\r') ∨ c = '\n' ∧ a = before ++ ['\r']) := by
  cases h with
  | lineFeed hr => exact ⟨before, '\n', rfl, .inl ⟨rfl, fun hc => hr hc.2⟩⟩
  | carriageReturn => exact ⟨before, '\r', rfl, .inl ⟨rfl, by simp⟩⟩
  | pair => exact ⟨before ++ ['\r'], '\n', by simp, .inr ⟨rfl, rfl⟩⟩
  | lineSeparator => exact ⟨before, '\u2028', rfl, .inl ⟨rfl, by simp⟩⟩
  | paragraphSeparator => exact ⟨before, '\u2029', rfl, .inl ⟨rfl, by simp⟩⟩

/-- No two line terminators end at the same place. -/
theorem Terminator.before_unique {before before' mark mark' after after' : List Char}
    (h : Terminator before mark after) (h' : Terminator before' mark' after')
    (hcut : before ++ mark = before' ++ mark') : before = before' := by
  obtain ⟨a, c, hlast, hbefore⟩ := h.last
  obtain ⟨a', c', hlast', hbefore'⟩ := h'.last
  obtain ⟨rfl, hc⟩ := List.append_inj' (hlast.symm.trans (hcut.trans hlast')) rfl
  cases hc
  rcases hbefore with ⟨rfl, hfeed⟩ | ⟨hc, ha⟩
  · rcases hbefore' with ⟨rfl, -⟩ | ⟨hc', ha'⟩
    · rfl
    · exact absurd ⟨hc', by simp [ha']⟩ hfeed
  · rcases hbefore' with ⟨rfl, hfeed'⟩ | ⟨-, ha'⟩
    · exact absurd ⟨hc, by simp [ha]⟩ hfeed'
    · exact (List.append_inj' (ha.symm.trans ha') rfl).1

theorem mem_lineStartsAfter_iff_cut {text : List Char} {o n : Nat} :
    n ∈ lineStartsAfter o text ↔
      ∃ a c b, text = a ++ c :: b ∧ endsLine c b.head? = true ∧
        n = o + (byteLength a + c.utf8Size) := by
  induction text generalizing o with
  | nil => simp [lineStartsAfter]
  | cons d text ih =>
    rw [lineStartsAfter_cons, List.mem_append, ih]
    constructor
    · rintro (hn | ⟨a, c, b, rfl, hends, rfl⟩)
      · split at hn
        · next hends => exact ⟨[], d, text, rfl, hends, by simpa using hn⟩
        · cases hn
      · exact ⟨d :: a, c, b, rfl, hends, by rw [byteLength_cons]; omega⟩
    · rintro ⟨a, c, b, htext, hends, rfl⟩
      cases a with
      | nil =>
        cases htext
        left
        simp [hends]
      | cons e a =>
        cases htext
        exact .inr ⟨a, c, b, rfl, hends, by rw [byteLength_cons]; omega⟩

/-- The line starts that are recorded after the first one are the ends of the line
    terminators. -/
theorem mem_lineStartsAfter_iff {text : List Char} {n : Nat} :
    n ∈ lineStartsAfter 0 text ↔ ∃ start, TerminatorAt text start n := by
  rw [mem_lineStartsAfter_iff_cut]
  constructor
  · rintro ⟨a, c, b, rfl, hends, rfl⟩
    obtain ⟨before, mark, hcut, hmark⟩ := (endsLine_iff_terminator a c b).mp hends
    have hlen := congrArg byteLength hcut
    simp only [byteLength_append, byteLength_cons, byteLength_nil] at hlen
    refine ⟨_, before, mark, b, ?_, hmark, rfl, by omega⟩
    rw [← List.append_assoc, ← hcut, List.append_assoc, List.singleton_append]
  · rintro ⟨start, before, mark, after, rfl, hmark, -, rfl⟩
    obtain ⟨a, c, hlast, -⟩ := hmark.last
    have hlen := congrArg byteLength hlast
    simp only [byteLength_append, byteLength_cons, byteLength_nil] at hlen
    refine ⟨a, c, after, ?_, ?_, by omega⟩
    · rw [← List.append_assoc, hlast, List.append_assoc, List.singleton_append]
    · exact (endsLine_iff_terminator a c after).mpr ⟨before, mark, hlast.symm, hmark⟩

/-- A text has one cut at an offset. -/
theorem cut_unique {a b a' b' : List Char} (h : a ++ b = a' ++ b')
    (hlen : byteLength a = byteLength a') : a = a' ∧ b = b' := by
  obtain ⟨m, rfl, rfl⟩ := cut_between h (Nat.le_of_eq hlen)
  cases m with
  | nil => simp
  | cons c m =>
    have := c.utf8Size_pos
    simp only [byteLength_append, byteLength_cons] at hlen
    omega

theorem TerminatorAt.start_unique {text : List Char} {start start' stop : Nat}
    (h : TerminatorAt text start stop) (h' : TerminatorAt text start' stop) : start = start' := by
  obtain ⟨before, mark, after, rfl, hmark, rfl, hstop⟩ := h
  obtain ⟨before', mark', after', htext, hmark', rfl, hstop'⟩ := h'
  rw [← List.append_assoc, ← List.append_assoc] at htext
  obtain ⟨hcut, -⟩ := cut_unique htext (by simp; omega)
  rw [hmark.before_unique hmark' hcut]

/-- The line terminators of a text that end at or before an offset, each by the offsets at
    which it starts and ends. -/
def terminatorsUpTo (text : List Char) (offset : Nat) : Set (Nat × Nat) :=
  {s | TerminatorAt text s.1 s.2 ∧ s.2 ≤ offset}

/-- There are as many of them as line starts after the first one have been passed. -/
theorem ncard_terminatorsUpTo (text : List Char) (offset : Nat) :
    (terminatorsUpTo text offset).ncard = ((lineStartsAfter 0 text).filter (· ≤ offset)).length := by
  have hinj : Set.InjOn Prod.snd (terminatorsUpTo text offset) := by
    rintro ⟨start, stop⟩ ⟨h, -⟩ ⟨start', stop'⟩ ⟨h', -⟩ (rfl : stop = stop')
    exact Prod.ext (h.start_unique h') rfl
  have himage : Prod.snd '' terminatorsUpTo text offset =
      ↑((lineStartsAfter 0 text).filter (· ≤ offset)).toFinset := by
    ext n
    simp [terminatorsUpTo, mem_lineStartsAfter_iff]
  have hnodup : ((lineStartsAfter 0 text).filter (· ≤ offset)).Nodup :=
    ((lineStartsAfter_sorted 0 text).imp Nat.ne_of_lt).filter _
  rw [← hinj.ncard_image, himage, Set.ncard_coe_finset, List.toFinset_card_of_nodup hnodup]

/-! ## Positions -/

/-- The UTF-16 code units of a character: one in the basic plane, else a high and a low
    surrogate. -/
def utf16Units (c : Char) : List Nat :=
  if c.toNat < 0x10000 then [c.toNat]
  else [0xd800 + (c.toNat - 0x10000) / 0x400, 0xdc00 + (c.toNat - 0x10000) % 0x400]

theorem length_flatMap_utf16Units (cs : List Char) :
    (cs.flatMap utf16Units).length = utf16Length cs := by
  induction cs with
  | nil => rfl
  | cons c cs ih =>
    rw [List.flatMap_cons, List.length_append, ih, utf16Length_cons, utf16Units, utf16Size]
    split <;> rfl

/-- Where the line of an offset can start: at the start of the text, or at the end of a line
    terminator that ends at or before the offset. -/
def linesOpenedBy (text : List Char) (offset : Nat) : Set Nat :=
  insert 0 (Prod.snd '' terminatorsUpTo text offset)

/-- What a location says of an offset: its line is one more than the number of line
    terminators that end at or before the offset, and its column is the number of UTF-16 code
    units between the last of them, or the start of the text, and the offset. -/
structure Position (text : List Char) (offset : Nat) (l : Location) : Prop where
  line : l.line = 1 + (terminatorsUpTo text offset).ncard
  column : ∃ before shown after, text = before ++ (shown ++ after) ∧
    byteLength before + byteLength shown = offset ∧
    IsGreatest (linesOpenedBy text offset) (byteLength before) ∧
    l.column = (shown.flatMap utf16Units).length

theorem Position.unique {text : List Char} {offset : Nat} {l l' : Location}
    (h : Position text offset l) (h' : Position text offset l') : l = l' := by
  obtain ⟨before, shown, after, rfl, hstop, hlast, hcolumn⟩ := h.column
  obtain ⟨before', shown', after', htext, hstop', hlast', hcolumn'⟩ := h'.column
  obtain ⟨rfl, hrest⟩ := cut_unique htext (hlast.unique hlast')
  obtain ⟨rfl, -⟩ := cut_unique hrest (by omega)
  cases l
  cases l'
  simp only [Location.mk.injEq]
  exact ⟨h.line.trans h'.line.symm, hcolumn.trans hcolumn'.symm⟩

theorem mem_startsUpTo_iff {text : List Char} {offset n : Nat} :
    n ∈ startsUpTo text offset ↔ n ∈ linesOpenedBy text offset := by
  simp only [startsUpTo, lineStarts, List.mem_filter, List.mem_cons, mem_lineStartsAfter_iff,
    linesOpenedBy, terminatorsUpTo, Set.mem_insert_iff, Set.mem_image, Set.mem_ofPred_eq,
    Prod.exists, exists_eq_right, decide_eq_true_eq]
  constructor
  · rintro ⟨hn | ⟨start, hn⟩, hle⟩
    · exact .inl hn
    · exact .inr ⟨start, hn, hle⟩
  · rintro (rfl | ⟨start, hn, hle⟩)
    · exact ⟨.inl rfl, Nat.zero_le _⟩
    · exact ⟨.inr ⟨start, hn⟩, hle⟩

/-- The start of the line of an offset is the last one that the offset has passed. -/
theorem isGreatest_lineStart (text : List Char) (offset : Nat) :
    IsGreatest (linesOpenedBy text offset) ((Source.ofText text).lineStart offset) := by
  have hsorted : (startsUpTo text offset).Pairwise (· < ·) := (lineStarts_sorted text).filter _
  have hne : startsUpTo text offset ≠ [] :=
    List.ne_nil_of_mem (mem_startsUpTo_iff.mpr (Set.mem_insert 0 _))
  obtain ⟨init, last, hlast⟩ := (List.eq_nil_or_concat' _).resolve_left hne
  rw [Source.lineStart_eq, hlast, List.getLastD_concat]
  rw [hlast] at hsorted
  refine ⟨mem_startsUpTo_iff.mp (by simp [hlast]), ?_⟩
  intro n hn
  have hmem := mem_startsUpTo_iff.mpr hn
  rw [hlast] at hmem
  rcases List.mem_append.mp hmem with hinit | hlast
  · exact Nat.le_of_lt ((List.pairwise_append.mp hsorted).2.2 n hinit last (by simp))
  · exact Nat.le_of_eq (List.mem_singleton.mp hlast)

theorem position_locate (a b : List Char) :
    Position (a ++ b) (byteLength a) ((Source.ofText (a ++ b)).locate (byteLength a)) := by
  refine ⟨?_, ?_⟩
  · rw [ncard_terminatorsUpTo, Source.locate, Source.lineOf_eq, startsUpTo, lineStarts,
      List.filter_cons_of_pos (by simp), List.length_cons, Nat.add_comm]
  · obtain ⟨before, shown, rfl, hstart⟩ := Source.lineStart_cut a b
    refine ⟨before, shown, b, by simp, by simp, ?_, ?_⟩
    · rw [hstart]
      exact isGreatest_lineStart _ _
    · have hslice : byteSlice (before ++ shown ++ b) (byteLength before)
          (byteLength (before ++ shown)) = some shown := by
        simpa using byteSlice_append before shown b
      rw [length_flatMap_utf16Units, Source.locate, ← hstart]
      simp only [Source.ofText, hslice, Option.map_some, Option.getD_some]

/-- After a line terminator the next line starts. -/
theorem locate_terminator {before mark after : List Char} (h : Terminator before mark after) :
    (Source.ofText (before ++ (mark ++ after))).locate (byteLength before + byteLength mark) =
      ⟨((Source.ofText (before ++ (mark ++ after))).locate (byteLength before)).line + 1, 0⟩ := by
  obtain ⟨a, c, hlast, hbefore⟩ := h.last
  have hends := (endsLine_iff_terminator a c after).mpr ⟨before, mark, hlast.symm, h⟩
  have htext : before ++ (mark ++ after) = a ++ c :: after := by
    rw [← List.append_assoc, hlast, List.append_assoc, List.singleton_append]
  have hstop : byteLength before + byteLength mark = byteLength a + c.utf8Size := by
    simpa using congrArg byteLength hlast
  rw [htext, hstop, Source.locate_step, Location.after, if_pos hends]
  rcases hbefore with ⟨rfl, -⟩ | ⟨rfl, rfl⟩
  · rfl
  · -- The carriage return of a pair is passed without a new line.
    have hstep := Source.locate_step before '\r' ('\n' :: after)
    rw [Location.after, if_neg (by simp [endsLine])] at hstep
    simp only [List.append_assoc, List.singleton_append, byteLength_append, byteLength_cons,
      byteLength_nil, Nat.add_zero, hstep]

/-- **Locations are positions.** At every boundary of a text, the end among them, the location
    is the position that the text gives it, and no other. The line feed of a pair is still on
    the line that the pair ends; what comes after it is on the next one. -/
theorem position_reference (text : List Char) (offset : Nat) (h : IsBoundary text offset) :
    (∀ l, (Source.ofText text).locate offset = l ↔ Position text offset l) ∧
    ∀ a b, text = a ++ '\r' :: '\n' :: b → offset = byteLength (a ++ ['\r']) →
      ((Source.ofText text).locate offset).line =
        ((Source.ofText text).locate (byteLength a)).line ∧
      (Source.ofText text).locate (byteLength (a ++ ['\r', '\n'])) =
        ⟨((Source.ofText text).locate offset).line + 1, 0⟩ := by
  refine ⟨?_, ?_⟩
  · intro l
    obtain ⟨a, b, rfl, rfl⟩ := isBoundary_iff.mp h
    constructor
    · rintro rfl
      exact position_locate a b
    · intro hl
      exact (position_locate a b).unique hl
  · rintro a b rfl rfl
    have hstep := Source.locate_step a '\r' ('\n' :: b)
    rw [Location.after, if_neg (by simp [endsLine])] at hstep
    have hnext := locate_terminator (@Terminator.pair a b)
    simp only [byteLength_append, byteLength_cons, byteLength_nil, Nat.add_zero,
      List.cons_append, List.nil_append, hstep] at hnext ⊢
    exact ⟨trivial, hnext⟩

theorem position_reference_sample :
    (IsBoundary "a\r\n😀b".toList 7 ∧ Position "a\r\n😀b".toList 7 ⟨2, 2⟩) ∧
      IsBoundary "a\r\n😀b".toList 2 ∧
      ((Source.ofText "a\r\n😀b".toList).locate 2).line =
        ((Source.ofText "a\r\n😀b".toList).locate 1).line := by
  have hb : IsBoundary "a\r\n😀b".toList 7 := by decide
  have hfeed : IsBoundary "a\r\n😀b".toList 2 := by decide
  refine ⟨⟨hb, ((position_reference _ _ hb).1 _).mp (by decide)⟩, hfeed, ?_⟩
  exact ((position_reference _ _ hfeed).2 ['a'] ['😀', 'b'] (by decide) (by decide)).1

/-! ## Order -/

theorem Location.le_eq_false_of_before {a b : Location} (h : b.Before a) : a.le b = false := by
  unfold Before at h
  simp only [le, Bool.or_eq_false_iff, decide_eq_false_iff_not, Bool.and_eq_false_iff,
    beq_eq_false_iff_ne]
  omega

section
variable {text : List Char} {m n : Nat} (hm : IsBoundary text m) (hn : IsBoundary text n)
include hm hn

theorem locate_before_iff :
    ((Source.ofText text).locate m).Before ((Source.ofText text).locate n) ↔ m < n := by
  refine ⟨?_, Source.locate_before hm hn⟩
  intro h
  rcases Nat.lt_trichotomy m n with hlt | rfl | hlt
  · exact hlt
  · exact absurd h (Location.Before.irrefl _)
  · exact absurd (h.trans (Source.locate_before hn hm hlt)) (Location.Before.irrefl _)

theorem locate_le_eq :
    ((Source.ofText text).locate m).le ((Source.ofText text).locate n) = decide (m ≤ n) := by
  by_cases h : m ≤ n
  · rw [Source.locate_le hm hn h, decide_eq_true h]
  · have hbefore := Source.locate_before hn hm (by omega)
    rw [Location.le_eq_false_of_before hbefore, decide_eq_false h]

end

/-- **Locations are in the order of offsets.** Of two boundaries of a text the first one has
    the smaller location, no two share one, and whatever stands at boundaries is sorted by
    location exactly as it is by offset. -/
theorem locations_ordered (text : List Char) :
    (∀ m n, IsBoundary text m → IsBoundary text n →
      (((Source.ofText text).locate m).Before ((Source.ofText text).locate n) ↔ m < n) ∧
      ((Source.ofText text).locate m = (Source.ofText text).locate n ↔ m = n)) ∧
    ∀ (α : Type) (place : α → Nat) (xs : List α), (∀ x ∈ xs, IsBoundary text (place x)) →
      (xs.mergeSort fun x y =>
        ((Source.ofText text).locate (place x)).le ((Source.ofText text).locate (place y))) =
      xs.mergeSort fun x y => place x ≤ place y := by
  refine ⟨?_, ?_⟩
  · intro m n hm hn
    refine ⟨locate_before_iff hm hn, Source.locate_inj hm hn, ?_⟩
    rintro rfl
    rfl
  · intro α place xs hxs
    have hsame : ∀ x ∈ xs, ∀ y ∈ xs,
        ((Source.ofText text).locate (place x)).le ((Source.ofText text).locate (place y)) =
          decide (place (id x) ≤ place (id y)) :=
      fun x hx y hy => locate_le_eq (hxs x hx) (hxs y hy)
    simpa using List.map_mergeSort (f := id) (s := fun x y => place x ≤ place y) hsame

theorem locations_ordered_sample :
    (∀ x ∈ [7, 2, 3], IsBoundary "a\r\n😀b".toList x) ∧
      ((Source.ofText "a\r\n😀b".toList).locate 2).Before
        ((Source.ofText "a\r\n😀b".toList).locate 3) ∧
      ([7, 2, 3].mergeSort fun x y =>
        ((Source.ofText "a\r\n😀b".toList).locate x).le
          ((Source.ofText "a\r\n😀b".toList).locate y)) =
        [7, 2, 3].mergeSort fun x y => x ≤ y := by
  have hb : ∀ x ∈ [7, 2, 3], IsBoundary "a\r\n😀b".toList x := by decide
  obtain ⟨horder, hsort⟩ := locations_ordered "a\r\n😀b".toList
  refine ⟨hb, ?_, hsort Nat id [7, 2, 3] hb⟩
  exact (horder 2 3 (hb 2 (by decide)) (hb 3 (by decide))).1.mpr (by decide)

/-! ## Line endings -/

/-- What a text may have in place of line feeds. -/
inductive LineEnding where
  | pair
  | carriageReturn
  | lineSeparator
  | paragraphSeparator
  deriving DecidableEq

/-- The characters of a line ending. -/
def LineEnding.chars : LineEnding → List Char
  | pair => ['\r', '\n']
  | carriageReturn => ['\r']
  | lineSeparator => ['\u2028']
  | paragraphSeparator => ['\u2029']

/-- A text with every line feed replaced. -/
def LineEnding.rewrite (e : LineEnding) (text : List Char) : List Char :=
  text.flatMap fun c => if c = '\n' then e.chars else [c]

/-- Where an offset of a text comes to stand when its line feeds are replaced: after what the
    text before it becomes. -/
def LineEnding.offset (e : LineEnding) (text : List Char) (n : Nat) : Nat :=
  byteLength (e.rewrite ((takeBytes n text).getD []))

namespace LineEnding

theorem rewrite_append (e : LineEnding) (a b : List Char) :
    e.rewrite (a ++ b) = e.rewrite a ++ e.rewrite b :=
  List.flatMap_append

theorem rewrite_feed (e : LineEnding) : e.rewrite ['\n'] = e.chars := by
  simp [rewrite]

theorem rewrite_of_ne (e : LineEnding) {c : Char} (h : c ≠ '\n') : e.rewrite [c] = [c] := by
  simp [rewrite, h]

theorem offset_append (e : LineEnding) (a b : List Char) :
    e.offset (a ++ b) (byteLength a) = byteLength (e.rewrite a) := by
  rw [offset, takeBytes_append, Option.getD_some]

theorem not_mem_rewrite_carriageReturn (text : List Char) :
    '\n' ∉ carriageReturn.rewrite text := by
  simp only [rewrite, List.mem_flatMap, not_exists, not_and]
  intro c _
  split
  · simp [chars]
  · next hc => simpa using Ne.symm hc

/-- What replaces a line feed is a line terminator, wherever it stands. -/
theorem terminator_rewrite (e : LineEnding) (before text : List Char) :
    Terminator before e.chars (e.rewrite text) := by
  cases e with
  | pair => exact .pair
  | carriageReturn =>
    refine .carriageReturn fun h => ?_
    exact not_mem_rewrite_carriageReturn text (List.mem_of_mem_head? h)
  | lineSeparator => exact .lineSeparator
  | paragraphSeparator => exact .paragraphSeparator

/-- Character by character, both texts move a location in the same way. -/
theorem locate_rewrite (e : LineEnding) (a b : List Char) (h : '\r' ∉ a) :
    (Source.ofText (e.rewrite (a ++ b))).locate (byteLength (e.rewrite a)) =
      (Source.ofText (a ++ b)).locate (byteLength a) := by
  -- From the right, so that the last character of `a` is the step of both locations.
  induction a using List.reverseRecOn generalizing b with
  | nil => exact (Source.locate_zero _).trans (Source.locate_zero _).symm
  | append_singleton a c ih =>
    simp only [List.mem_append, List.mem_singleton, not_or] at h
    have ih := ih (c :: b) h.1
    have hsplit : e.rewrite (a ++ c :: b) = e.rewrite a ++ (e.rewrite [c] ++ e.rewrite b) := by
      rw [← rewrite_append, ← rewrite_append, List.singleton_append]
    rw [List.append_assoc, List.singleton_append, rewrite_append e a [c], byteLength_append,
      byteLength_append, hsplit]
    rw [hsplit] at ih
    by_cases hc : c = '\n'
    · subst hc
      have hfeed : Terminator a ['\n'] b := .lineFeed fun hr => h.1 (List.mem_of_getLast? hr)
      have hstep := locate_terminator (e.terminator_rewrite (e.rewrite a) b)
      rw [rewrite_feed] at ih ⊢
      rw [hstep, ih]
      exact (locate_terminator hfeed).symm
    · -- Apart from carriage returns, what comes next has no say in where a line ends.
      have hends : ∀ next, endsLine c next = isLineTerminator c := by
        intro next
        simp [endsLine, Ne.symm h.2]
      rw [rewrite_of_ne e hc] at ih ⊢
      simp only [List.singleton_append, byteLength_cons, byteLength_nil, Nat.add_zero] at ih ⊢
      rw [Source.locate_step, Source.locate_step, ih, Location.after, Location.after, hends, hends]

end LineEnding

/-- **Locations do not depend on the line endings.** In a text without carriage returns let
    every line feed be replaced by a pair, a carriage return or a separator: what stands at a
    boundary, or the end of the text, keeps its location. -/
theorem rewrite_keeps_locations (e : LineEnding) (text : List Char) (n : Nat)
    (hr : '\r' ∉ text) (hn : IsBoundary text n) :
    dropBytes (e.offset text n) (e.rewrite text) = (dropBytes n text).map e.rewrite ∧
      (Source.ofText (e.rewrite text)).locate (e.offset text n) =
        (Source.ofText text).locate n := by
  obtain ⟨a, b, rfl, rfl⟩ := isBoundary_iff.mp hn
  rw [e.offset_append]
  refine ⟨?_, e.locate_rewrite a b fun ha => hr (List.mem_append_left b ha)⟩
  rw [dropBytes_append, e.rewrite_append, dropBytes_append, Option.map_some]

theorem rewrite_keeps_locations_sample :
    ('\r' ∉ "a\n😀".toList ∧ IsBoundary "a\n😀".toList 2) ∧
      (Source.ofText "a\r\n😀".toList).locate 3 = (Source.ofText "a\n😀".toList).locate 2 ∧
      (Source.ofText "a\u2028😀".toList).locate 4 = (Source.ofText "a\n😀".toList).locate 2 := by
  have hr : '\r' ∉ "a\n😀".toList := by decide
  have hn : IsBoundary "a\n😀".toList 2 := by decide
  exact ⟨⟨hr, hn⟩, (rewrite_keeps_locations .pair _ _ hr hn).2,
    (rewrite_keeps_locations .lineSeparator _ _ hr hn).2⟩

end RoleLint
