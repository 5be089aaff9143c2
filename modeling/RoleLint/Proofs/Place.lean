import Mathlib.Data.List.Induction
import RoleLint.Source

/- Byte offsets and locations. A boundary of a text is an offset at which it can be
   cut in two; the locations of boundaries are those of a cursor that is moved over
   the text one character at a time.

   1. `byteSlice_eq_some_iff` - a slice exists exactly between two boundaries, and is
      the text between them.
   2. `searchStart_spec`, `lineOf_eq` - the halving search counts the lines that start
      at or before an offset.
   3. `locate_step` - one character further, a location moves on by one step of
      `Location.after`; hence `locate_before`: locations of boundaries are in the
      order of the boundaries.
   4. `locate_line_le`, `locate_column_le` - no location is larger than the text. -/
namespace RoleLint

/-! ## Bytes -/

@[simp] theorem byteLength_nil : byteLength [] = 0 := rfl

@[simp] theorem byteLength_cons (c : Char) (cs : List Char) :
    byteLength (c :: cs) = c.utf8Size + byteLength cs :=
  rfl

@[simp] theorem byteLength_append (a b : List Char) :
    byteLength (a ++ b) = byteLength a + byteLength b := by
  induction a with
  | nil => simp
  | cons c a ih => rw [List.cons_append, byteLength_cons, byteLength_cons, ih, Nat.add_assoc]

@[simp] theorem utf16Length_nil : utf16Length [] = 0 := rfl

@[simp] theorem utf16Length_cons (c : Char) (cs : List Char) :
    utf16Length (c :: cs) = utf16Size c + utf16Length cs :=
  rfl

@[simp] theorem utf16Length_append (a b : List Char) :
    utf16Length (a ++ b) = utf16Length a + utf16Length b := by
  induction a with
  | nil => simp
  | cons c a ih => rw [List.cons_append, utf16Length_cons, utf16Length_cons, ih, Nat.add_assoc]

theorem utf16Size_pos (c : Char) : 0 < utf16Size c := by
  unfold utf16Size
  split <;> omega

theorem utf16Size_le_utf8Size (c : Char) : utf16Size c ≤ c.utf8Size := by
  have h := c.utf8Size_pos
  unfold utf16Size
  split
  · omega
  · next hc =>
    have hv : ¬ c.val ≤ 0xffff := by
      intro hle
      have : c.toNat ≤ 0xffff := UInt32.le_iff_toNat_le.mp hle
      omega
    have h1 : ¬ c.val ≤ 0x7f := fun hle => hv (UInt32.le_trans hle (by decide))
    have h2 : ¬ c.val ≤ 0x7ff := fun hle => hv (UInt32.le_trans hle (by decide))
    simp [Char.utf8Size, h1, h2, hv]

theorem utf16Length_le_byteLength (cs : List Char) : utf16Length cs ≤ byteLength cs := by
  induction cs with
  | nil => exact Nat.le_refl _
  | cons c cs ih =>
    have := utf16Size_le_utf8Size c
    rw [byteLength_cons, utf16Length_cons]
    omega

theorem dropBytes_append (a b : List Char) : dropBytes (byteLength a) (a ++ b) = some b := by
  induction a with
  | nil => cases b <;> simp [dropBytes]
  | cons c a ih =>
    have := c.utf8Size_pos
    rw [List.cons_append, dropBytes, byteLength_cons, if_neg (by omega), if_pos (by omega),
      Nat.add_sub_cancel_left, ih]

theorem takeBytes_append (a b : List Char) : takeBytes (byteLength a) (a ++ b) = some a := by
  induction a with
  | nil => cases b <;> simp [takeBytes]
  | cons c a ih =>
    have := c.utf8Size_pos
    rw [List.cons_append, takeBytes, byteLength_cons, if_neg (by omega), if_pos (by omega),
      Nat.add_sub_cancel_left, ih]
    rfl

theorem dropBytes_eq_some {n : Nat} {text b : List Char} (h : dropBytes n text = some b) :
    ∃ a, text = a ++ b ∧ byteLength a = n := by
  induction text generalizing n with
  | nil =>
    rw [dropBytes] at h
    split at h
    · next hn => exact ⟨[], by simpa using h, hn.symm⟩
    · cases h
  | cons c cs ih =>
    rw [dropBytes] at h
    split at h
    · next hn => exact ⟨[], by simpa using h, hn.symm⟩
    · split at h
      · next _ hle =>
        obtain ⟨a, rfl, ha⟩ := ih h
        exact ⟨c :: a, rfl, by rw [byteLength_cons]; omega⟩
      · cases h

theorem takeBytes_eq_some {n : Nat} {text a : List Char} (h : takeBytes n text = some a) :
    ∃ b, text = a ++ b ∧ byteLength a = n := by
  induction text generalizing n a with
  | nil =>
    rw [takeBytes] at h
    split at h
    · next hn =>
      cases h
      exact ⟨[], rfl, hn.symm⟩
    · cases h
  | cons c cs ih =>
    rw [takeBytes] at h
    split at h
    · next hn =>
      cases h
      exact ⟨c :: cs, rfl, hn.symm⟩
    · split at h
      · next _ hle =>
        obtain ⟨a', ha', rfl⟩ := Option.map_eq_some_iff.mp h
        obtain ⟨b, rfl, hb⟩ := ih ha'
        exact ⟨b, rfl, by rw [byteLength_cons]; omega⟩
      · cases h

theorem byteSlice_append (a m b : List Char) :
    byteSlice (a ++ (m ++ b)) (byteLength a) (byteLength a + byteLength m) = some m := by
  rw [byteSlice, if_pos (Nat.le_add_right _ _), dropBytes_append, Option.bind_some,
    Nat.add_sub_cancel_left, takeBytes_append]

theorem byteSlice_eq_some_iff {text m : List Char} {start stop : Nat} :
    byteSlice text start stop = some m ↔
      ∃ a b, text = a ++ (m ++ b) ∧ byteLength a = start ∧ byteLength a + byteLength m = stop := by
  constructor
  · intro h
    unfold byteSlice at h
    split at h
    · next hle =>
      obtain ⟨r, hr, hm⟩ := Option.bind_eq_some_iff.mp h
      obtain ⟨a, rfl, ha⟩ := dropBytes_eq_some hr
      obtain ⟨b, rfl, hb⟩ := takeBytes_eq_some hm
      exact ⟨a, b, rfl, ha, by omega⟩
    · cases h
  · rintro ⟨a, b, rfl, rfl, rfl⟩
    exact byteSlice_append a m b

/-- An offset at which a text can be cut: before a character or at the end. -/
def IsBoundary (text : List Char) (n : Nat) : Prop :=
  (dropBytes n text).isSome

instance (text : List Char) (n : Nat) : Decidable (IsBoundary text n) :=
  inferInstanceAs (Decidable ((dropBytes n text).isSome = true))

theorem isBoundary_iff {text : List Char} {n : Nat} :
    IsBoundary text n ↔ ∃ a b, text = a ++ b ∧ byteLength a = n := by
  constructor
  · intro h
    obtain ⟨b, hb⟩ := Option.isSome_iff_exists.mp h
    obtain ⟨a, ha⟩ := dropBytes_eq_some hb
    exact ⟨a, b, ha⟩
  · rintro ⟨a, b, rfl, rfl⟩
    simp [IsBoundary, dropBytes_append]

/-- Two cuts of one text: the later one is the earlier one moved over the text
    between them. -/
theorem cut_between {a b a' b' : List Char} (h : a ++ b = a' ++ b')
    (hle : byteLength a ≤ byteLength a') : ∃ m, a' = a ++ m ∧ b = m ++ b' := by
  rcases List.append_eq_append_iff.mp h with ⟨m, h1, h2⟩ | ⟨m, h1, h2⟩
  · exact ⟨m, h1, h2⟩
  · cases m with
    | nil => exact ⟨[], by simpa using h1.symm, by simpa using h2.symm⟩
    | cons c m =>
      have := c.utf8Size_pos
      rw [h1, byteLength_append, byteLength_cons] at hle
      omega

/-! ## Line starts -/

/-- Whether a line ends after the character `c` when `next` comes after it. -/
def endsLine (c : Char) (next : Option Char) : Bool :=
  isLineTerminator c && !(c == '\r' && next == some '\n')

theorem lineStartsAfter_cons (o : Nat) (c : Char) (cs : List Char) :
    lineStartsAfter o (c :: cs) =
      (if endsLine c cs.head? then [o + c.utf8Size] else []) ++
        lineStartsAfter (o + c.utf8Size) cs := by
  by_cases h : endsLine c cs.head? = true
  · rw [if_pos h]; exact if_pos h
  · rw [if_neg h]; exact if_neg h

theorem lt_of_mem_lineStartsAfter {o n : Nat} {cs : List Char} (h : n ∈ lineStartsAfter o cs) :
    o < n := by
  induction cs generalizing o with
  | nil => simp [lineStartsAfter] at h
  | cons c cs ih =>
    have := c.utf8Size_pos
    rw [lineStartsAfter_cons] at h
    rcases List.mem_append.mp h with h | h
    · split at h
      · simp only [List.mem_singleton] at h
        omega
      · cases h
    · have := ih h
      omega

theorem lineStartsAfter_sorted (o : Nat) (cs : List Char) :
    (lineStartsAfter o cs).Pairwise (· < ·) := by
  induction cs generalizing o with
  | nil => simp [lineStartsAfter]
  | cons c cs ih =>
    rw [lineStartsAfter_cons]
    refine List.pairwise_append.mpr ⟨?_, ih _, ?_⟩
    · split <;> simp
    · intro a ha b hb
      split at ha
      · simp only [List.mem_singleton] at ha
        have := lt_of_mem_lineStartsAfter hb
        omega
      · cases ha

theorem lineStarts_sorted (text : List Char) : (lineStarts text).Pairwise (· < ·) :=
  List.pairwise_cons.mpr ⟨fun _ h => lt_of_mem_lineStartsAfter h, lineStartsAfter_sorted 0 text⟩

theorem lineStartsAfter_length_le (o : Nat) (cs : List Char) :
    (lineStartsAfter o cs).length ≤ byteLength cs := by
  induction cs generalizing o with
  | nil => simp [lineStartsAfter]
  | cons c cs ih =>
    have := c.utf8Size_pos
    have := ih (o + c.utf8Size)
    rw [lineStartsAfter_cons, List.length_append, byteLength_cons]
    split <;> simp <;> omega

/-- The line starts of a text at or before an offset. -/
def startsUpTo (text : List Char) (n : Nat) : List Nat :=
  (lineStarts text).filter (· ≤ n)

theorem filter_lineStartsAfter_eq_nil {o n : Nat} (cs : List Char) (h : n ≤ o) :
    (lineStartsAfter o cs).filter (· ≤ n) = [] := by
  rw [List.filter_eq_nil_iff]
  intro m hm
  have := lt_of_mem_lineStartsAfter hm
  simp only [decide_eq_true_eq]
  omega

/-- Passing one character passes the line start after it, if there is one. -/
theorem filter_lineStartsAfter_step (o : Nat) (a : List Char) (c : Char) (b : List Char) :
    (lineStartsAfter o (a ++ c :: b)).filter (· ≤ o + (byteLength a + c.utf8Size)) =
      (lineStartsAfter o (a ++ c :: b)).filter (· ≤ o + byteLength a) ++
        (if endsLine c b.head? then [o + (byteLength a + c.utf8Size)] else []) := by
  have hc := c.utf8Size_pos
  induction a generalizing o with
  | nil =>
    rw [List.nil_append, lineStartsAfter_cons, List.filter_append, List.filter_append,
      byteLength_nil, filter_lineStartsAfter_eq_nil b (by omega),
      filter_lineStartsAfter_eq_nil b (by omega)]
    split
    · simp only [Nat.zero_add, Nat.add_zero, List.append_nil]
      rw [List.filter_cons_of_pos (by simp), List.filter_cons_of_neg (by simp; omega)]
      simp
    · simp
  | cons d a ih =>
    have ih := ih (o + d.utf8Size)
    rw [List.cons_append, lineStartsAfter_cons, List.filter_append, List.filter_append,
      byteLength_cons]
    rw [show o + (d.utf8Size + byteLength a + c.utf8Size) =
        o + d.utf8Size + (byteLength a + c.utf8Size) by omega,
      show o + (d.utf8Size + byteLength a) = o + d.utf8Size + byteLength a by omega, ih,
      ← List.append_assoc]
    congr 2
    split
    · rw [List.filter_cons_of_pos (by simp), List.filter_cons_of_pos (by simp)]
      simp
    · simp

theorem startsUpTo_zero (text : List Char) : startsUpTo text 0 = [0] := by
  rw [startsUpTo, lineStarts, List.filter_cons_of_pos (by simp),
    filter_lineStartsAfter_eq_nil text (Nat.le_refl 0)]

theorem startsUpTo_step (a : List Char) (c : Char) (b : List Char) :
    startsUpTo (a ++ c :: b) (byteLength a + c.utf8Size) =
      startsUpTo (a ++ c :: b) (byteLength a) ++
        (if endsLine c b.head? then [byteLength a + c.utf8Size] else []) := by
  have h := filter_lineStartsAfter_step 0 a c b
  simp only [Nat.zero_add] at h
  simp only [startsUpTo, lineStarts]
  rw [List.filter_cons_of_pos (by simp), List.filter_cons_of_pos (by simp), h, List.cons_append]

/-! ## The halving search -/

/-- The search ends between the starts that are at most `offset` and those that are
    not, if the interval it is given has that border in it. -/
theorem searchStart_spec {starts : Array Nat} {offset : Nat} :
    ∀ (fuel lo hi : Nat), hi ≤ lo + fuel → lo ≤ hi → hi ≤ starts.size →
      starts.toList.Pairwise (· < ·) →
      (∀ i, i < lo → starts.getD i 0 ≤ offset) →
      (∀ i, hi ≤ i → i < starts.size → offset < starts.getD i 0) →
      searchStart starts offset fuel lo hi ≤ hi ∧
      (∀ i, i < searchStart starts offset fuel lo hi → starts.getD i 0 ≤ offset) ∧
      (∀ i, searchStart starts offset fuel lo hi ≤ i → i < starts.size →
        offset < starts.getD i 0) := by
  intro fuel
  induction fuel with
  | zero =>
    intro lo hi hf hle _ _ hlo hhi
    have : lo = hi := by omega
    subst this
    exact ⟨Nat.le_refl _, hlo, hhi⟩
  | succ fuel ih =>
    intro lo hi hf hle hsize hs hlo hhi
    have mono : ∀ i j, i ≤ j → j < starts.size → starts.getD i 0 ≤ starts.getD j 0 := by
      intro i j hij hj
      rcases Nat.eq_or_lt_of_le hij with rfl | hij
      · exact Nat.le_refl _
      · have := List.pairwise_iff_getElem.mp hs i j (by simpa using by omega) (by simpa) hij
        simp only [Array.getElem_toList] at this
        rw [Array.getD, dif_pos (by omega), Array.getD, dif_pos hj]
        exact Nat.le_of_lt this
    simp only [searchStart]
    split
    · next hlt =>
      split
      · next hmid =>
        refine ih ((lo + hi) / 2 + 1) hi (by omega) (by omega) hsize hs ?_ hhi
        intro i hi'
        exact Nat.le_trans (mono i ((lo + hi) / 2) (by omega) (by omega)) hmid
      · next hmid =>
        have h := ih lo ((lo + hi) / 2) (by omega) (by omega) (by omega) hs hlo (by
          intro i hi' his
          exact Nat.lt_of_lt_of_le (by omega) (mono ((lo + hi) / 2) i hi' his))
        exact ⟨by omega, h.2⟩
    · next hlt =>
      have : lo = hi := by omega
      subst this
      exact ⟨Nat.le_refl _, hlo, hhi⟩

namespace Source

theorem lineOf_le (text : List Char) (n : Nat) :
    (ofText text).lineOf n ≤ (lineStarts text).length ∧
      startsUpTo text n = (lineStarts text).take ((ofText text).lineOf n) := by
  have h := @searchStart_spec (lineStarts text).toArray n (lineStarts text).length 0
    (lineStarts text).length (by omega) (by omega) (by simp)
    (by simpa using lineStarts_sorted text) (by intro i hi; omega)
    (by intro i hi his; simp at his; omega)
  have hdef : (ofText text).lineOf n =
      searchStart (lineStarts text).toArray n (lineStarts text).length 0
        (lineStarts text).length := by
    simp [lineOf, ofText]
  rw [← hdef] at h
  obtain ⟨hle, hlow, hhigh⟩ := h
  refine ⟨hle, ?_⟩
  generalize (ofText text).lineOf n = r at hle hlow hhigh
  rw [startsUpTo]
  conv => lhs; rw [← List.take_append_drop r (lineStarts text), List.filter_append]
  have htake : ((lineStarts text).take r).filter (· ≤ n) = (lineStarts text).take r := by
    rw [List.filter_eq_self]
    intro m hm
    obtain ⟨i, hi, rfl⟩ := List.mem_iff_getElem.mp hm
    rw [List.length_take] at hi
    have := hlow i (by omega)
    rw [Array.getD, dif_pos (by simp; omega)] at this
    simpa using this
  have hdrop : ((lineStarts text).drop r).filter (· ≤ n) = [] := by
    rw [List.filter_eq_nil_iff]
    intro m hm
    obtain ⟨i, hi, rfl⟩ := List.mem_iff_getElem.mp hm
    rw [List.length_drop] at hi
    have := hhigh (r + i) (by omega) (by simp; omega)
    rw [Array.getD, dif_pos (by simp; omega)] at this
    simpa using this
  rw [htake, hdrop, List.append_nil]

/-- The line of an offset is the number of lines that start at or before it. -/
theorem lineOf_eq (text : List Char) (n : Nat) :
    (ofText text).lineOf n = (startsUpTo text n).length := by
  obtain ⟨hle, h⟩ := lineOf_le text n
  rw [h, List.length_take, Nat.min_eq_left hle]

/-- The start of that line is the last of them. -/
theorem lineStart_eq (text : List Char) (n : Nat) :
    (ofText text).lineStart n = (startsUpTo text n).getLastD 0 := by
  obtain ⟨hle, h⟩ := lineOf_le text n
  rw [lineStart, h]
  generalize (ofText text).lineOf n = r at hle
  rw [List.getLastD_eq_getLast?, List.getLast?_take, ofText, Array.getD_eq_getD_getElem?,
    List.getElem?_toArray]
  cases r with
  | zero => simp [lineStarts]
  | succ r =>
    rw [if_neg (by omega), Nat.add_sub_cancel, List.getElem?_eq_getElem (by omega)]
    rfl

end Source

/-! ## Locations -/

namespace Location

/-- Strictly before: by line, then by column. -/
def Before (a b : Location) : Prop :=
  a.line < b.line ∨ a.line = b.line ∧ a.column < b.column

instance (a b : Location) : Decidable (a.Before b) :=
  inferInstanceAs (Decidable (_ ∨ _))

theorem Before.trans {a b c : Location} (h : a.Before b) (h' : b.Before c) : a.Before c := by
  unfold Before at *
  omega

theorem Before.irrefl (a : Location) : ¬ a.Before a := by
  unfold Before
  omega

theorem le_of_before {a b : Location} (h : a.Before b) : a.le b = true := by
  unfold Before at h
  simp only [le, Bool.or_eq_true, decide_eq_true_eq, Bool.and_eq_true, beq_iff_eq]
  omega

/-- Where a cursor stands after it has passed `c`, with `next` in front of it. -/
def after (l : Location) (c : Char) (next : Option Char) : Location :=
  if endsLine c next then ⟨l.line + 1, 0⟩ else ⟨l.line, l.column + utf16Size c⟩

theorem before_after (l : Location) (c : Char) (next : Option Char) :
    l.Before (l.after c next) := by
  have := utf16Size_pos c
  unfold after Before
  split <;> simp
  omega

end Location

namespace Source

theorem locate_zero (text : List Char) : (ofText text).locate 0 = ⟨1, 0⟩ := by
  have h : byteSlice text 0 0 = some [] := byteSlice_append [] [] text
  rw [locate, lineStart_eq, lineOf_eq, startsUpTo_zero]
  simp only [List.getLastD_cons, List.length_singleton, ofText]
  rw [show ([] : List Nat).getLastD 0 = 0 from rfl, h]
  rfl

/-- The line of a boundary starts at a boundary, so there is a text between them. -/
theorem lineStart_cut (a b : List Char) : ∃ p m, a = p ++ m ∧
    byteLength p = (ofText (a ++ b)).lineStart (byteLength a) := by
  -- From the right: the last character of `a` either starts a line after it, or
  -- leaves the line start where it was.
  induction a using List.reverseRecOn generalizing b with
  | nil => exact ⟨[], [], rfl, by rw [lineStart_eq, byteLength_nil, startsUpTo_zero]; rfl⟩
  | append_singleton a c ih =>
    obtain ⟨p, m, rfl, hp⟩ := ih (c :: b)
    rw [lineStart_eq] at hp ⊢
    have h := startsUpTo_step (p ++ m) c b
    rw [List.append_assoc _ [c] b, List.singleton_append, byteLength_append _ [c],
      byteLength_cons, byteLength_nil, Nat.add_zero, h]
    split
    · exact ⟨p ++ m ++ [c], [], by simp, by simp [Nat.add_assoc]⟩
    · exact ⟨p, m ++ [c], by simp, by rw [List.append_nil]; exact hp⟩

/-- **One character further.** -/
theorem locate_step (a : List Char) (c : Char) (b : List Char) :
    (ofText (a ++ c :: b)).locate (byteLength a + c.utf8Size) =
      ((ofText (a ++ c :: b)).locate (byteLength a)).after c b.head? := by
  obtain ⟨p, m, rfl, hp⟩ := lineStart_cut a (c :: b)
  have h := startsUpTo_step (p ++ m) c b
  have hslice : byteSlice (p ++ m ++ c :: b) (byteLength p) (byteLength (p ++ m)) = some m := by
    simpa using byteSlice_append p m (c :: b)
  rw [Location.after]
  split
  · next he =>
    rw [if_pos he] at h
    have hempty : byteSlice (p ++ m ++ c :: b) (byteLength (p ++ m) + c.utf8Size)
        (byteLength (p ++ m) + c.utf8Size) = some [] := by
      simpa [Nat.add_assoc] using byteSlice_append (p ++ m ++ [c]) [] b
    rw [locate, lineStart_eq, lineOf_eq, h, locate, lineOf_eq]
    simp only [List.length_append, List.length_singleton, List.getLastD_concat, ofText, hempty]
    rfl
  · next he =>
    rw [if_neg he, List.append_nil] at h
    have hmore : byteSlice (p ++ m ++ c :: b) (byteLength p) (byteLength (p ++ m) + c.utf8Size) =
        some (m ++ [c]) := by
      simpa [Nat.add_assoc] using byteSlice_append p (m ++ [c]) b
    have hstart : (ofText (p ++ m ++ c :: b)).lineStart (byteLength (p ++ m) + c.utf8Size) =
        byteLength p := by
      rw [hp, lineStart_eq, lineStart_eq, h]
    rw [locate, locate, hstart, ← hp, lineOf_eq, lineOf_eq, h]
    simp only [ofText, hslice, hmore, Option.map_some, Option.getD_some, utf16Length_append,
      utf16Length_cons, utf16Length_nil, Nat.add_zero]

/-- **Locations of boundaries are in the order of the boundaries.** -/
theorem locate_before {text : List Char} {m n : Nat} (hm : IsBoundary text m)
    (hn : IsBoundary text n) (h : m < n) :
    ((ofText text).locate m).Before ((ofText text).locate n) := by
  obtain ⟨a, b, rfl, rfl⟩ := isBoundary_iff.mp hm
  obtain ⟨a', b', hab, rfl⟩ := isBoundary_iff.mp hn
  obtain ⟨d, rfl, rfl⟩ := cut_between hab (Nat.le_of_lt h)
  clear hm hn hab
  -- The text passed between the two boundaries, from its first character on.
  induction d generalizing a with
  | nil => simp at h
  | cons c d ih =>
    have hstep := Location.before_after ((ofText (a ++ (c :: d ++ b'))).locate (byteLength a)) c
      (d ++ b').head?
    rw [List.cons_append, ← locate_step] at hstep
    cases d with
    | nil => simpa using hstep
    | cons e d =>
      have hlt := e.utf8Size_pos
      have h' := ih (a ++ [c]) (by simp; omega)
      simp only [List.append_assoc, List.cons_append, List.nil_append, byteLength_append,
        byteLength_cons, byteLength_nil, Nat.add_zero] at h' hstep ⊢
      exact hstep.trans h'

theorem locate_inj {text : List Char} {m n : Nat} (hm : IsBoundary text m)
    (hn : IsBoundary text n) (h : (ofText text).locate m = (ofText text).locate n) : m = n := by
  rcases Nat.lt_trichotomy m n with hlt | rfl | hlt
  · exact absurd (h ▸ locate_before hm hn hlt) (Location.Before.irrefl _)
  · rfl
  · exact absurd (h ▸ locate_before hn hm hlt) (Location.Before.irrefl _)

theorem locate_le {text : List Char} {m n : Nat} (hm : IsBoundary text m)
    (hn : IsBoundary text n) (h : m ≤ n) :
    ((ofText text).locate m).le ((ofText text).locate n) = true := by
  rcases Nat.eq_or_lt_of_le h with rfl | hlt
  · simp [Location.le]
  · exact Location.le_of_before (locate_before hm hn hlt)

/-! ## Bounds -/

theorem locate_line_le (text : List Char) (n : Nat) :
    ((ofText text).locate n).line ≤ byteLength text + 1 := by
  have h := (lineOf_le text n).1
  have := lineStartsAfter_length_le 0 text
  simp only [lineStarts, List.length_cons] at h
  simp only [locate]
  omega

theorem locate_column_le (text : List Char) (n : Nat) :
    ((ofText text).locate n).column ≤ byteLength text := by
  simp only [locate]
  cases h : byteSlice (ofText text).text ((ofText text).lineStart n) n with
  | none => simp
  | some m =>
    obtain ⟨a, b, htext, -, -⟩ := byteSlice_eq_some_iff.mp h
    have := utf16Length_le_byteLength m
    rw [show text = a ++ (m ++ b) from htext]
    simp only [Option.map_some, Option.getD_some, byteLength_append]
    omega

end Source

end RoleLint
