import RoleLint.Extract
import RoleLint.Proofs.Walk

/- The function that a value stands for. Parentheses and wrapper calls are seen
   through; where a call has several arguments, every choice of one is a way on.

   1. `Tree.wrapped` - what a value may stand for, one step further.
   2. `Unwraps` - a list of choices that leads from a value to a function.
   3. `unwrapFunction_eq_some_iff` - the function that is found is the one at the end of
      the least list of choices, in the order of the arguments at every call. -/
namespace RoleLint

/-- What a value may stand for, one step further: parentheses for the first expression
    in them, a call for any of its arguments. -/
def Tree.wrapped (t : Tree) : List Tree :=
  match t.kind with
  | .parenthesized => t.firstExpression?.toList
  | .call => ((t.child? .arguments).map Tree.namedChildren).getD []
  | _ => []

/-- Whether a node is a function used as a value. -/
def Tree.isFunctionValue (t : Tree) : Bool :=
  t.kind == .functionExpression || t.kind == .arrowFunction

/-- The choices `p` lead from a value to the function `f`. -/
inductive Unwraps : Tree → List Nat → Tree → Prop where
  | here {t : Tree} : t.isFunctionValue = true → Unwraps t [] t
  | step {t c f : Tree} {i : Nat} {p : List Nat} :
      t.wrapped[i]? = some c → Unwraps c p f → Unwraps t (i :: p) f

/-- The function that a value stands for: of all that choices lead to, the one whose
    choices come first, as words do in a dictionary. -/
def StandsFor (t f : Tree) : Prop :=
  ∃ p, Unwraps t p f ∧ ∀ q g, Unwraps t q g → p = q ∨ List.Lex (· < ·) p q

/-! ## One step -/

theorem unwrapFirst_eq (ts : List Tree) :
    unwrapFirst ts = ((ts.filter Tree.named).find? (·.kind != .comment)).bind unwrapFunction := by
  induction ts with
  | nil => simp [unwrapFirst]
  | cons t ts ih =>
    cases hn : t.named <;> cases hc : t.kind != .comment <;>
      simp [unwrapFirst, hn, hc, ih]

theorem unwrapAny_eq (ts : List Tree) :
    unwrapAny ts = (ts.filter Tree.named).findSome? unwrapFunction := by
  induction ts with
  | nil => simp [unwrapAny]
  | cons t ts ih =>
    cases hn : t.named
    · simp [unwrapAny, hn, ih]
    · rw [unwrapAny, if_pos hn, List.filter_cons_of_pos hn, List.findSome?_cons, ih]
      cases unwrapFunction t <;> rfl

theorem unwrapArguments_eq (ts : List Tree) :
    unwrapArguments ts =
      (((ts.find? fun c => c.field == some .arguments).map Tree.namedChildren).getD []).findSome?
        unwrapFunction := by
  induction ts with
  | nil => simp [unwrapArguments]
  | cons t ts ih =>
    cases t with
    | node k f n a b w cs =>
      cases hf : f == some Field.arguments
      · simp [unwrapArguments, Tree.field, hf, ih]
      · simp [unwrapArguments, Tree.field, hf, unwrapAny_eq, Tree.namedChildren, Tree.children]

theorem unwrapFunction_eq (t : Tree) :
    unwrapFunction t =
      if t.isFunctionValue then some t else t.wrapped.findSome? unwrapFunction := by
  cases t with
  | node k f n a b w cs =>
    have hp : ∀ o : Option Tree, o.toList.findSome? unwrapFunction = o.bind unwrapFunction := by
      intro o
      cases o <;> simp
    cases k <;>
      simp [unwrapFunction, Tree.isFunctionValue, Tree.wrapped, Tree.kind, unwrapFirst_eq,
        unwrapArguments_eq, hp, Tree.firstExpression?, Tree.namedChildren, Tree.children,
        Tree.child?]

theorem mem_children_of_child? {t c : Tree} {f : Field} (h : t.child? f = some c) :
    c ∈ t.children :=
  List.mem_of_find?_eq_some h

theorem mem_namedChildren_of_firstExpression? {t e : Tree} (h : t.firstExpression? = some e) :
    e ∈ t.namedChildren :=
  List.mem_of_find?_eq_some h

theorem mem_children_of_mem_namedChildren {t c : Tree} (h : c ∈ t.namedChildren) :
    c ∈ t.children :=
  (List.mem_filter.mp h).1

theorem firstExpression?_mem_children {t e : Tree} (h : t.firstExpression? = some e) :
    e ∈ t.children :=
  mem_children_of_mem_namedChildren (mem_namedChildren_of_firstExpression? h)

/-- What a step leads to: the first expression in parentheses, or an argument. -/
theorem mem_wrapped_iff {t c : Tree} :
    c ∈ t.wrapped ↔ t.kind = .parenthesized ∧ t.firstExpression? = some c ∨
      t.kind = .call ∧ ∃ args, t.child? .arguments = some args ∧ c ∈ args.namedChildren := by
  unfold Tree.wrapped
  split
  · next hk => simp [hk]
  · next hk => cases t.child? .arguments <;> simp [hk]
  · next hp hc =>
    constructor
    · intro h
      cases h
    · rintro (⟨hk, _⟩ | ⟨hk, _⟩)
      · exact absurd hk hp
      · exact absurd hk hc

/-- A step leads below a child. -/
theorem within_of_mem_wrapped {t c : Tree} (h : c ∈ t.wrapped) : ∃ d ∈ t.children, Within d c := by
  rcases mem_wrapped_iff.mp h with ⟨-, hc⟩ | ⟨-, args, hargs, hc⟩
  · exact ⟨c, firstExpression?_mem_children hc, .root⟩
  · exact ⟨args, mem_children_of_child? hargs, .child .root (mem_children_of_mem_namedChildren hc)⟩

theorem size_lt_of_mem_wrapped {t c : Tree} (h : c ∈ t.wrapped) : c.size < t.size := by
  obtain ⟨d, hd, hdc⟩ := within_of_mem_wrapped h
  exact Nat.lt_of_le_of_lt hdc.size_le (Tree.size_lt_of_mem_children hd)

/-! ## Any number of steps -/

theorem Unwraps.within {t f : Tree} {p : List Nat} (h : Unwraps t p f) : Within t f := by
  induction h with
  | here _ => exact .root
  | step hi _ ih =>
    obtain ⟨d, hd, hdc⟩ := within_of_mem_wrapped (List.mem_of_getElem? hi)
    exact (Within.child .root hd).trans (hdc.trans ih)

theorem Unwraps.isFunctionValue {t f : Tree} {p : List Nat} (h : Unwraps t p f) :
    f.kind = .functionExpression ∨ f.kind = .arrowFunction := by
  induction h with
  | here hv => simpa [Tree.isFunctionValue] using hv
  | step _ _ ih => exact ih

theorem unwrapFunction_ne_none {t f : Tree} {p : List Nat} (h : Unwraps t p f) :
    unwrapFunction t ≠ none := by
  induction h with
  | here hv => rw [unwrapFunction_eq, if_pos hv]; simp
  | step hi _ ih =>
    rw [unwrapFunction_eq]
    split
    · simp
    · intro hn
      exact ih (List.findSome?_eq_none_iff.mp hn _ (List.mem_of_getElem? hi))

theorem standsFor_of_unwrapFunction {t f : Tree} (h : unwrapFunction t = some f) :
    StandsFor t f := by
  -- Along the steps that `unwrapFunction` takes itself; they make a node smaller.
  induction hn : t.size using Nat.strongRecOn generalizing t with
  | ind n ih =>
    rw [unwrapFunction_eq] at h
    split at h
    · next hv =>
      cases h
      refine ⟨[], .here hv, ?_⟩
      intro q g _
      cases q with
      | nil => exact .inl rfl
      | cons i q => exact .inr .nil
    · next hv =>
      obtain ⟨before, c, rest, hsplit, hc, hbefore⟩ := List.findSome?_eq_some_iff.mp h
      have hmem : c ∈ t.wrapped := by rw [hsplit]; simp
      obtain ⟨p, hp, hleast⟩ := ih c.size (hn ▸ size_lt_of_mem_wrapped hmem) hc rfl
      have hat : t.wrapped[before.length]? = some c := by rw [hsplit]; simp
      refine ⟨before.length :: p, .step hat hp, ?_⟩
      intro q g hq
      cases hq with
      | here hv' => exact absurd hv' hv
      | @step _ d _ j q hj hq =>
        rcases Nat.lt_trichotomy before.length j with hlt | rfl | hlt
        · exact .inr (.rel hlt)
        · rw [hat] at hj
          cases hj
          rcases hleast q g hq with rfl | hlex
          · exact .inl rfl
          · exact .inr (.cons hlex)
        · -- The choice `j` is one of those that lead nowhere.
          rw [hsplit, List.getElem?_append_left hlt] at hj
          exact absurd (hbefore d (List.mem_of_getElem? hj)) (unwrapFunction_ne_none hq)

/-- The same choices lead to the same function. -/
theorem Unwraps.unique {t f g : Tree} {p : List Nat} (h : Unwraps t p f) (h' : Unwraps t p g) :
    f = g := by
  induction h with
  | here _ =>
    cases h'
    rfl
  | step hi _ ih =>
    cases h' with
    | step hj h' =>
      rw [hi] at hj
      cases hj
      exact ih h'

theorem StandsFor.unique {t f g : Tree} (h : StandsFor t f) (h' : StandsFor t g) : f = g := by
  obtain ⟨p, hp, hle⟩ := h
  obtain ⟨q, hq, hle'⟩ := h'
  have hpq : p = q := by
    rcases hle q g hq with h | h
    · exact h
    · rcases hle' p f hp with h' | h'
      · exact h'.symm
      · exact absurd h' (List.lex_asymm (fun h1 h2 => Nat.lt_asymm h1 h2) h)
  subst hpq
  exact hp.unique hq

theorem unwrapFunction_eq_some_iff {t f : Tree} : unwrapFunction t = some f ↔ StandsFor t f := by
  refine ⟨standsFor_of_unwrapFunction, fun h => ?_⟩
  have ⟨p, hp, _⟩ := h
  obtain ⟨g, hg⟩ := Option.ne_none_iff_exists'.mp (unwrapFunction_ne_none hp)
  rw [hg, (standsFor_of_unwrapFunction hg).unique h]

end RoleLint
