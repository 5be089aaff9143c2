import Mathlib.Data.List.Forall2
import Mathlib.Logic.Relation
import RoleLint.Proofs.Unwrap

/- What decides which function a value stands for: the way through parentheses and arguments
   alone.

   1. `unwrapFunction_eq_none_iff` - a function is found where some choices lead to one.
   2. `LooksAlike`, `LooksAlike.unwrapFunction_eq` - values that cannot be told apart by such
      choices stand for the same function, whatever they call and whatever else they hold.
   3. `InParentheses`, `LeadingArgument` - more parentheses, and calls with nothing to be found
      in front, change nothing.
   4. `unwrapping_transparent` - all this in one statement. -/
namespace RoleLint

/-! ## Whether there is a function -/

theorem unwrapFunction_eq_none_iff {t : Tree} :
    unwrapFunction t = none ↔ ∀ p f, ¬ Unwraps t p f := by
  constructor
  · intro hnone p f h
    exact unwrapFunction_ne_none h hnone
  · intro h
    by_contra hne
    obtain ⟨f, hf⟩ := Option.ne_none_iff_exists'.mp hne
    obtain ⟨p, hp, -⟩ := unwrapFunction_eq_some_iff.mp hf
    exact h p f hp

theorem isSome_unwrapFunction_iff {t : Tree} :
    (unwrapFunction t).isSome = true ↔ ∃ p f, Unwraps t p f := by
  rw [Option.isSome_iff_ne_none, ne_eq, unwrapFunction_eq_none_iff]
  push Not
  rfl

theorem wrapped_eq_nil {t : Tree} (hp : t.kind ≠ .parenthesized) (hc : t.kind ≠ .call) :
    t.wrapped = [] := by
  unfold Tree.wrapped
  split
  · next hk => exact absurd hk hp
  · next hk => exact absurd hk hc
  · rfl

/-- No choice leads on from a function that is found. -/
theorem Unwraps.ends {t f g : Tree} {p q : List Nat} (h : Unwraps t p f) (h' : Unwraps f q g) :
    q = [] ∧ g = f := by
  cases h' with
  | here _ => exact ⟨rfl, rfl⟩
  | step hi _ =>
    have hnil : f.wrapped = [] := by
      rcases h.isFunctionValue with hk | hk <;> exact wrapped_eq_nil (by simp [hk]) (by simp [hk])
    rw [hnil] at hi
    cases hi

/-! ## What is not looked at -/

/-- Kinds of values that are neither functions nor seen through: `new`, casts, spreads,
    substitutions in templates, and all others. -/
def Kind.isSolid : Kind → Bool
  | .functionExpression | .arrowFunction | .parenthesized | .call => false
  | _ => true

/-- Two values look alike: they are the same, or neither is a function itself and they offer
    the same number of choices, each of which leads to values that look alike. -/
inductive LooksAlike : Tree → Tree → Prop where
  | same {t : Tree} : LooksAlike t t
  | choices {t u : Tree} : t.isFunctionValue = false → u.isFunctionValue = false →
      t.wrapped.length = u.wrapped.length →
      (∀ (i : Nat) c d, t.wrapped[i]? = some c → u.wrapped[i]? = some d → LooksAlike c d) →
      LooksAlike t u

theorem unwrapFunction_of_not_functionValue {t : Tree} (h : t.isFunctionValue = false) :
    unwrapFunction t = (t.wrapped.map unwrapFunction).findSome? id := by
  rw [unwrapFunction_eq, if_neg (by simp [h]), List.findSome?_map]
  rfl

/-- **What a value stands for depends on nothing but the choices.** -/
theorem LooksAlike.unwrapFunction_eq {t u : Tree} (h : LooksAlike t u) :
    unwrapFunction u = unwrapFunction t := by
  induction h with
  | same => rfl
  | @choices t u ht hu hlen _ ih =>
    rw [unwrapFunction_of_not_functionValue ht, unwrapFunction_of_not_functionValue hu]
    congr 1
    apply List.ext_getElem
    · rw [List.length_map, List.length_map, hlen]
    · intro i hi hi'
      rw [List.length_map] at hi hi'
      rw [List.getElem_map, List.getElem_map]
      exact ih i _ _ (List.getElem?_eq_getElem hi') (List.getElem?_eq_getElem hi)

theorem not_functionValue_of_call {t : Tree} (h : t.kind = .call) : t.isFunctionValue = false := by
  simp [Tree.isFunctionValue, h]

theorem Tree.wrapped_eq_nil_of_isSolid {t : Tree} (h : t.kind.isSolid = true) :
    t.isFunctionValue = false ∧ t.wrapped = [] := by
  have hne : ∀ k : Kind, k.isSolid = false → t.kind ≠ k := by
    intro k hk heq
    rw [heq, hk] at h
    cases h
  refine ⟨?_, wrapped_eq_nil (hne _ rfl) (hne _ rfl)⟩
  simp [isFunctionValue, hne .functionExpression rfl, hne .arrowFunction rfl]

/-- Values that are not seen through look alike, whatever is in them. -/
theorem looksAlike_of_isSolid {t u : Tree} (ht : t.kind.isSolid = true)
    (hu : u.kind.isSolid = true) : LooksAlike t u := by
  obtain ⟨hft, hwt⟩ := t.wrapped_eq_nil_of_isSolid ht
  obtain ⟨hfu, hwu⟩ := u.wrapped_eq_nil_of_isSolid hu
  refine .choices hft hfu (by rw [hwt, hwu]) ?_
  intro i c d hc
  rw [hwt] at hc
  cases hc

theorem unwrapFunction_of_isSolid {t : Tree} (h : t.kind.isSolid = true) :
    unwrapFunction t = none := by
  obtain ⟨hf, hw⟩ := t.wrapped_eq_nil_of_isSolid h
  rw [unwrapFunction_of_not_functionValue hf, hw]
  rfl

/-- Calls whose arguments look alike look alike, whatever they call. -/
theorem looksAlike_of_arguments {t u args args' : Tree} (ht : t.kind = .call) (hu : u.kind = .call)
    (hargs : t.child? .arguments = some args) (hargs' : u.child? .arguments = some args')
    (h : List.Forall₂ LooksAlike args.namedChildren args'.namedChildren) : LooksAlike t u := by
  have hwt : t.wrapped = args.namedChildren := by simp [Tree.wrapped, ht, hargs]
  have hwu : u.wrapped = args'.namedChildren := by simp [Tree.wrapped, hu, hargs']
  refine .choices (not_functionValue_of_call ht) (not_functionValue_of_call hu) ?_ ?_
  · rw [hwt, hwu, h.length_eq]
  · intro i c d hc hd
    rw [hwt] at hc
    rw [hwu] at hd
    obtain ⟨hi, rfl⟩ := List.getElem?_eq_some_iff.mp hc
    obtain ⟨hi', rfl⟩ := List.getElem?_eq_some_iff.mp hd
    exact h.get hi hi'

/-! ## More wrapping -/

/-- `u` is `t` in parentheses. -/
def InParentheses (t u : Tree) : Prop :=
  u.kind = .parenthesized ∧ u.firstExpression? = some t

/-- `u` is a call with the argument `t`, and no choices lead to a function from the arguments
    in front of it. -/
def LeadingArgument (t u : Tree) : Prop :=
  u.kind = .call ∧ ∃ args before after, u.child? .arguments = some args ∧
    args.namedChildren = before ++ t :: after ∧ ∀ b ∈ before, ∀ p f, ¬ Unwraps b p f

theorem InParentheses.unwrapFunction_eq {t u : Tree} (h : InParentheses t u) :
    unwrapFunction u = unwrapFunction t := by
  obtain ⟨hk, hfirst⟩ := h
  rw [RoleLint.unwrapFunction_eq, if_neg (by simp [Tree.isFunctionValue, hk])]
  simp [Tree.wrapped, hk, hfirst]

theorem LeadingArgument.unwrapFunction_eq_some {t u f : Tree} (h : LeadingArgument t u)
    (hf : unwrapFunction t = some f) : unwrapFunction u = some f := by
  obtain ⟨hk, args, before, after, hargs, hsplit, hbefore⟩ := h
  have hnone : before.findSome? unwrapFunction = none := by
    rw [List.findSome?_eq_none_iff]
    intro b hb
    exact unwrapFunction_eq_none_iff.mpr (hbefore b hb)
  have hwrapped : u.wrapped = before ++ t :: after := by
    simp [Tree.wrapped, hk, hargs, hsplit]
  rw [RoleLint.unwrapFunction_eq, if_neg (by simp [Tree.isFunctionValue, hk]), hwrapped,
    List.findSome?_append, hnone, Option.none_or, List.findSome?_cons, hf]

theorem unwrapFunction_of_parentheses {t u : Tree} (h : Relation.ReflTransGen InParentheses t u) :
    unwrapFunction u = unwrapFunction t := by
  induction h with
  | refl => rfl
  | tail _ hstep ih => rw [hstep.unwrapFunction_eq, ih]

theorem unwrapFunction_of_wrapping {t u f : Tree}
    (h : Relation.ReflTransGen (fun a b => InParentheses a b ∨ LeadingArgument a b) t u)
    (hf : unwrapFunction t = some f) : unwrapFunction u = some f := by
  induction h with
  | refl => exact hf
  | tail _ hstep ih =>
    rcases hstep with hparens | hcall
    · rw [hparens.unwrapFunction_eq, ih]
    · exact hcall.unwrapFunction_eq_some ih

/-- **A value stands for the first function on a transparent path.** Such a path goes from
    parentheses to the first expression in them and from a call to one of its arguments. A
    function is found if and only if some path ends in one, and it is then the end of the least
    path, in the order of the arguments at every call. Paths end where they meet a function, and
    none goes through values of other kinds; what is called, and all that is not on such a path,
    makes no difference. So neither do more parentheses, nor calls with nothing to be found in
    front of the value. -/
theorem unwrapping_transparent (t : Tree) :
    ((unwrapFunction t).isSome = true ↔ ∃ p f, Unwraps t p f) ∧
      (∀ f, unwrapFunction t = some f ↔ StandsFor t f) ∧
      (∀ p f q g, Unwraps t p f → Unwraps f q g → q = [] ∧ g = f) ∧
      (t.kind.isSolid = true → unwrapFunction t = none) ∧
      (∀ u args, t.kind = .call → u.kind = .call → t.child? .arguments = some args →
        u.child? .arguments = some args → unwrapFunction u = unwrapFunction t) ∧
      (∀ u, LooksAlike t u → unwrapFunction u = unwrapFunction t) ∧
      (∀ u, Relation.ReflTransGen InParentheses t u → unwrapFunction u = unwrapFunction t) ∧
      ∀ u f, Relation.ReflTransGen (fun a b => InParentheses a b ∨ LeadingArgument a b) t u →
        unwrapFunction t = some f → unwrapFunction u = some f := by
  refine ⟨isSome_unwrapFunction_iff, fun f => unwrapFunction_eq_some_iff,
    fun p f q g => Unwraps.ends, unwrapFunction_of_isSolid, ?_,
    fun u => LooksAlike.unwrapFunction_eq, fun u => unwrapFunction_of_parentheses,
    fun u f => unwrapFunction_of_wrapping⟩
  intro u args ht hu hargs hargs'
  have hsame : List.Forall₂ LooksAlike args.namedChildren args.namedChildren :=
    List.forall₂_same.mpr fun _ _ => .same
  exact (looksAlike_of_arguments ht hu hargs hargs' hsame).unwrapFunction_eq

/-- The call of a node with some arguments. -/
def callOf (callee : Tree) (arguments : List Tree) : Tree :=
  .branch .call 0 9 [callee.filling .callee, (Tree.branch .other 1 9 arguments).filling .arguments]

/-- The third of four functions in `f(()=>1)(new A(()=>2),(()=>3),()=>4)`. -/
def thirdFunction : Tree :=
  .leaf .arrowFunction 3 4

/-- Its arguments, the first of them left open. -/
def argumentsAfter (first : Tree) : List Tree :=
  [first, .branch .parenthesized 3 4 [.leaf .comment 3 3, thirdFunction], .leaf .arrowFunction 4 5]

/-- That call. -/
def crowdedCall : Tree :=
  callOf (callOf (.leaf .identifier 0 1) [.leaf .arrowFunction 1 2])
    (argumentsAfter (.branch .construction 2 3 [.leaf .arrowFunction 2 3]))

theorem unwrapping_transparent_crowded :
    unwrapFunction crowdedCall = some thirdFunction ∧
      unwrapFunction (callOf (.leaf .identifier 0 1) (argumentsAfter (.leaf .template 2 3))) =
        some thirdFunction ∧
      unwrapFunction (.branch .parenthesized 0 9
        [callOf (.leaf .identifier 0 1) [.leaf .identifier 0 1, crowdedCall]]) =
          some thirdFunction := by
  obtain ⟨-, -, -, -, -, halike, -, hwrapping⟩ := unwrapping_transparent crowdedCall
  have hfound : unwrapFunction crowdedCall = some thirdFunction := rfl
  refine ⟨hfound, ?_, hwrapping _ _ ?_ hfound⟩
  · rw [← hfound]
    apply halike
    apply looksAlike_of_arguments rfl rfl rfl rfl
    exact .cons (looksAlike_of_isSolid rfl rfl) (List.forall₂_same.mpr fun _ _ => .same)
  · have hname : ∀ p f, ¬ Unwraps (.leaf .identifier 0 1) p f :=
      unwrapFunction_eq_none_iff.mp rfl
    refine .tail (.single (.inr ⟨rfl, _, [.leaf .identifier 0 1], [], rfl, rfl, ?_⟩))
      (.inl ⟨rfl, rfl⟩)
    intro b hb
    rw [List.mem_singleton.mp hb]
    exact hname

end RoleLint
