import RoleLint.Proofs.Exactness

/- Extraction does not see comments.

   1. `Strewn`, `Commented` - a list of trees with comments strewn in, and a tree with
      comments strewn in among the children of any of its nodes. Every tree with comments
      is one: `commented_withoutComments`.
   2. what searches, filters and walks make of such lists.
   3. `Commented.unwrapFunction`, `Commented.networkSite?`, `Commented.returnedMarkup?` - what
      extraction looks up in the one tree it looks up in the other.
   4. `Commented.describe?_eq`, `comments_unseen` - so the functions are the same. -/
namespace RoleLint

/-! ## Comments -/

/-- A comment that fills no field and has no parts. -/
structure BareComment (t : Tree) : Prop where
  kind : t.kind = .comment
  field : t.field = none
  named : t.named = true
  leaf : t.children = []

/-- The second list is the first one with comments strewn in, at any places, and with
    related trees in the place of others. -/
inductive Strewn (R : Tree → Tree → Prop) : List Tree → List Tree → Prop where
  | nil : Strewn R [] []
  | keep {t t' : Tree} {ts ts' : List Tree} : R t t' → Strewn R ts ts' →
      Strewn R (t :: ts) (t' :: ts')
  | comment {c : Tree} {ts ts' : List Tree} : BareComment c → Strewn R ts ts' →
      Strewn R ts (c :: ts')

/-- Two nodes are of one kind, fill the same field and have the same span; nothing is said
    about their children. -/
structure SameNode (t t' : Tree) : Prop where
  kind : t'.kind = t.kind
  field : t'.field = t.field
  named : t'.named = t.named
  start : t'.start = t.start
  stop : t'.stop = t.stop

/-- The second tree is the first one with comments strewn in among the children of its
    nodes. -/
inductive Commented : Tree → Tree → Prop where
  | node {t t' : Tree} : SameNode t t' → Strewn Commented t.children t'.children →
      Commented t t'

instance (t : Tree) : Decidable (BareComment t) :=
  decidable_of_iff (_ ∧ _ ∧ _ ∧ _)
    ⟨fun ⟨a, b, c, d⟩ => ⟨a, b, c, d⟩, fun ⟨a, b, c, d⟩ => ⟨a, b, c, d⟩⟩

mutual

/-- A tree without the comments among the children of its nodes. -/
def Tree.withoutComments : Tree → Tree
  | .node k f n a b w cs => .node k f n a b w (withoutCommentsAll cs)

/-- Trees without comments, in them or among them. -/
def withoutCommentsAll : List Tree → List Tree
  | [] => []
  | t :: ts =>
    if BareComment t then withoutCommentsAll ts
    else t.withoutComments :: withoutCommentsAll ts

end

/-- Every tree is one without comments that has some strewn in. -/
theorem commented_withoutComments (t : Tree) : Commented t.withoutComments t := by
  induction t using Tree.induct with
  | step t ih =>
    have hall : ∀ ts : List Tree, (∀ c ∈ ts, Commented c.withoutComments c) →
        Strewn Commented (withoutCommentsAll ts) ts := by
      intro ts
      induction ts with
      | nil => exact fun _ => .nil
      | cons c ts ihts =>
        intro hts
        obtain ⟨hc, hts⟩ := List.forall_mem_cons.mp hts
        rw [withoutCommentsAll]
        split
        · next hbare => exact .comment hbare (ihts hts)
        · exact .keep hc (ihts hts)
    cases t with
    | node k f n a b w cs =>
      exact .node ⟨rfl, rfl, rfl, rfl, rfl⟩ (hall cs ih)

/-! ## Lists with comments -/

/-- Related options are both empty, or both hold something. -/
theorem rel_cases {α : Type} {R : α → α → Prop} {o o' : Option α} (h : Option.Rel R o o') :
    o = none ∧ o' = none ∨ ∃ a a', o = some a ∧ o' = some a' ∧ R a a' := by
  cases h with
  | none => exact .inl ⟨rfl, rfl⟩
  | some hr => exact .inr ⟨_, _, rfl, rfl, hr⟩

/-- Functions that agree on related values make related options equal. -/
theorem rel_map_eq {α β : Type} {R : α → α → Prop} {f g : α → β} {o o' : Option α}
    (h : Option.Rel R o o') (hf : ∀ a a', R a a' → f a = g a') : o.map f = o'.map g := by
  cases h with
  | none => rfl
  | some hr => exact congrArg some (hf _ _ hr)

namespace Strewn
variable {R : Tree → Tree → Prop} {ts ts' us us' : List Tree}

theorem imp {Q : Tree → Tree → Prop} (h : Strewn R ts ts')
    (hq : ∀ t ∈ ts, ∀ t', R t t' → Q t t') : Strewn Q ts ts' := by
  induction h with
  | nil => exact .nil
  | keep hr _ ih =>
    exact .keep (hq _ List.mem_cons_self _ hr) (ih fun t ht => hq t (List.mem_cons_of_mem _ ht))
  | comment hc _ ih => exact .comment hc (ih hq)

theorem append (h : Strewn R ts ts') (h' : Strewn R us us') : Strewn R (ts ++ us) (ts' ++ us') := by
  induction h with
  | nil => exact h'
  | keep hr _ ih => exact .keep hr ih
  | comment hc _ ih => exact .comment hc ih

theorem filter {p : Tree → Bool} (hp : ∀ t t', R t t' → p t' = p t) (h : Strewn R ts ts') :
    Strewn R (ts.filter p) (ts'.filter p) := by
  induction h with
  | nil => exact .nil
  | @keep t t' _ _ hr _ ih =>
    rw [List.filter_cons, List.filter_cons, hp t t' hr]
    split
    · exact .keep hr ih
    · exact ih
  | comment hc _ ih =>
    rw [List.filter_cons]
    split
    · exact .comment hc ih
    · exact ih

theorem findSome? {β : Type} {S : β → β → Prop} {f : Tree → Option β}
    (hf : ∀ t t', R t t' → Option.Rel S (f t) (f t')) (hc : ∀ c, BareComment c → f c = none)
    (h : Strewn R ts ts') : Option.Rel S (ts.findSome? f) (ts'.findSome? f) := by
  induction h with
  | nil => exact .none
  | @keep t t' _ _ hr _ ih =>
    rw [List.findSome?_cons, List.findSome?_cons]
    rcases rel_cases (hf t t' hr) with ⟨ho, ho'⟩ | ⟨b, b', ho, ho', hs⟩
    · rw [ho, ho']
      exact ih
    · rw [ho, ho']
      exact .some hs
  | comment hbare _ ih =>
    rw [List.findSome?_cons, hc _ hbare]
    exact ih

theorem find? {p : Tree → Bool} (hp : ∀ t t', R t t' → p t' = p t)
    (hc : ∀ c, BareComment c → p c = false) (h : Strewn R ts ts') :
    Option.Rel R (ts.find? p) (ts'.find? p) := by
  rw [List.find?_eq_findSome?_guard, List.find?_eq_findSome?_guard]
  refine h.findSome? ?_ ?_
  · intro t t' hr
    rw [Option.guard, Option.guard, hp t t' hr]
    split
    · exact .some hr
    · exact .none
  · intro c hbare
    rw [Option.guard, hc c hbare]
    rfl

theorem flatMap {S : Tree → Tree → Prop} {f : Tree → List Tree}
    (hf : ∀ t t', R t t' → Strewn S (f t) (f t')) (hc : ∀ c, BareComment c → f c = [c])
    (h : Strewn R ts ts') : Strewn S (ts.flatMap f) (ts'.flatMap f) := by
  induction h with
  | nil => exact .nil
  | @keep t t' _ _ hr _ ih =>
    rw [List.flatMap_cons, List.flatMap_cons]
    exact (hf t t' hr).append ih
  | comment hbare _ ih =>
    rw [List.flatMap_cons, hc _ hbare]
    exact .comment hbare ih

theorem filterMap_eq {β : Type} {f : Tree → Option β} (hf : ∀ t t', R t t' → f t = f t')
    (hc : ∀ c, BareComment c → f c = none) (h : Strewn R ts ts') :
    ts.filterMap f = ts'.filterMap f := by
  induction h with
  | nil => rfl
  | @keep t t' _ _ hr _ ih => rw [List.filterMap_cons, List.filterMap_cons, hf t t' hr, ih]
  | comment hbare _ ih => rw [List.filterMap_cons, hc _ hbare, ih]

end Strewn

/-! ## Views of a node -/

/-- A comment is one node of a walk. -/
theorem BareComment.preorder_eq {c : Tree} (h : BareComment c) (direct : Bool) :
    c.preorder direct = [c] := by
  rw [Tree.preorder_eq, Tree.steps, h.leaf]
  rfl

theorem Commented.same {t t' : Tree} (h : Commented t t') : SameNode t t' := by
  cases h with
  | node hsame _ => exact hsame

theorem Commented.children {t t' : Tree} (h : Commented t t') :
    Strewn Commented t.children t'.children := by
  cases h with
  | node _ hchildren => exact hchildren

namespace Commented
variable {t t' : Tree} (h : Commented t t')
include h

theorem textOf_eq (s : Source) : s.textOf t = s.textOf t' := by
  rw [Source.textOf, Source.textOf, h.same.start, h.same.stop]

theorem locationOf_eq (s : Source) : s.locationOf t = s.locationOf t' := by
  rw [Source.locationOf, Source.locationOf, h.same.start]

theorem child? (f : Field) : Option.Rel Commented (t.child? f) (t'.child? f) := by
  refine h.children.find? ?_ ?_
  · intro c c' hc
    rw [hc.same.field]
  · intro c hbare
    rw [hbare.field]
    rfl

theorem namedChildren : Strewn Commented t.namedChildren t'.namedChildren :=
  h.children.filter fun _ _ hc => hc.same.named

theorem firstExpression? : Option.Rel Commented t.firstExpression? t'.firstExpression? := by
  refine h.namedChildren.find? ?_ ?_
  · intro c c' hc
    rw [hc.same.kind]
  · intro c hbare
    rw [hbare.kind]
    rfl

end Commented

/-- The nodes of a walk are the same, but for comments. -/
theorem Commented.preorder (direct : Bool) {t t' : Tree} (h : Commented t t') :
    Strewn Commented (t.preorder direct) (t'.preorder direct) := by
  induction t using Tree.induct generalizing t' with
  | step t ih =>
    -- Whether a walk enters a child depends on the child alone, so both enter the same ones;
    -- comments that only the second enters are walks of one node.
    have hsteps : Strewn Commented (t.steps direct) (t'.steps direct) := by
      apply h.children.filter
      intro c c' hc
      rw [enters, enters, hc.same.named, hc.same.kind]
    rw [Tree.preorder_eq, Tree.preorder_eq]
    refine .keep h (Strewn.flatMap (fun _ _ hwalk => hwalk) (fun c hc => hc.preorder_eq direct)
      (hsteps.imp fun c hmem c' hc => ih c (Tree.mem_steps.mp hmem).1 hc))

/-! ## Lookups -/

theorem Commented.wrapped {t t' : Tree} (h : Commented t t') :
    Strewn Commented t.wrapped t'.wrapped := by
  unfold Tree.wrapped
  rw [h.same.kind]
  split
  · rcases rel_cases h.firstExpression? with ⟨he, he'⟩ | ⟨e, e', he, he', hr⟩
    · rw [he, he']
      exact .nil
    · rw [he, he']
      exact .keep hr .nil
  · rcases rel_cases (h.child? .arguments) with ⟨ha, ha'⟩ | ⟨a, a', ha, ha', hr⟩
    · rw [ha, ha']
      exact .nil
    · rw [ha, ha']
      exact hr.namedChildren
  · exact .nil

theorem BareComment.unwrapFunction_eq {c : Tree} (h : BareComment c) : unwrapFunction c = none := by
  rw [RoleLint.unwrapFunction_eq, Tree.isFunctionValue, Tree.wrapped, h.kind]
  rfl

theorem Commented.unwrapFunction {t t' : Tree} (h : Commented t t') :
    Option.Rel Commented (unwrapFunction t) (unwrapFunction t') := by
  -- On the size, not on the children: the arguments of a call are one node further down.
  induction hn : t.size using Nat.strongRecOn generalizing t t' with
  | ind n ih =>
    have hvalue : t'.isFunctionValue = t.isFunctionValue := by
      rw [Tree.isFunctionValue, Tree.isFunctionValue, h.same.kind]
    rw [unwrapFunction_eq t, unwrapFunction_eq t', hvalue]
    split
    · exact .some h
    · refine Strewn.findSome? (fun _ _ hrel => hrel) (fun c hc => hc.unwrapFunction_eq)
        (h.wrapped.imp fun c hmem c' hc => ?_)
      exact ih c.size (hn ▸ size_lt_of_mem_wrapped hmem) hc rfl

/-! ## Sites -/

section
variable {t t' : Tree} (h : Commented t t') (s : Source)
include h

theorem Commented.isNetworkCallee_eq : s.isNetworkCallee t = s.isNetworkCallee t' := by
  unfold Source.isNetworkCallee
  rw [h.same.kind, h.textOf_eq]
  rcases rel_cases (h.child? .object) with ⟨ho, ho'⟩ | ⟨o, o', ho, ho', hr⟩
  · rw [ho, ho']
  · rw [ho, ho', Option.map_some, Option.map_some, Source.isClient, Source.isClient,
      hr.same.kind, hr.textOf_eq]

theorem Commented.calledNode? : Option.Rel Commented (calledNode? t) (calledNode? t') := by
  unfold RoleLint.calledNode?
  rcases rel_cases (h.child? .callee) with ⟨hc, hc'⟩ | ⟨c, c', hc, hc', hr⟩
  · rw [hc, hc']
    exact .none
  · rw [hc, hc']
    simp only [hr.same.kind]
    split
    · exact hr.firstExpression?
    · exact .some hr

theorem Commented.networkCallee? :
    Option.Rel Commented (networkCallee? s t) (networkCallee? s t') := by
  unfold RoleLint.networkCallee?
  rcases rel_cases (h.child? .arguments) with ⟨ha, ha'⟩ | ⟨a, a', ha, ha', hr⟩
  · rw [ha, ha']
    exact .none
  · rw [ha, ha']
    simp only [hr.same.kind]
    split
    · exact .none
    · rcases rel_cases h.calledNode? with ⟨hc, hc'⟩ | ⟨c, c', hc, hc', hcr⟩
      · rw [hc, hc']
        exact .none
      · rw [hc, hc', Option.filter_some, Option.filter_some, hcr.isNetworkCallee_eq s]
        split
        · exact .some hcr
        · exact .none

theorem Commented.networkSite? :
    Option.Rel Commented (networkSite? s t) (networkSite? s t') := by
  unfold RoleLint.networkSite?
  rw [h.same.kind]
  split
  · exact h.networkCallee? s
  · exact .none

theorem Commented.firstMarkup? : Option.Rel Commented (firstMarkup? t) (firstMarkup? t') := by
  rw [firstMarkup?_eq, firstMarkup?_eq]
  refine (h.preorder true).find? ?_ ?_
  · intro m m' hm
    rw [hm.same.kind]
  · intro c hbare
    rw [hbare.kind]
    rfl

theorem Commented.returnedMarkup? :
    Option.Rel Commented (returnedMarkup? t) (returnedMarkup? t') := by
  unfold RoleLint.returnedMarkup?
  rw [h.same.kind]
  split
  · rcases rel_cases h.firstExpression? with ⟨he, he'⟩ | ⟨e, e', he, he', hr⟩
    · rw [he, he']
      exact .none
    · rw [he, he']
      exact hr.firstMarkup?
  · exact .none

theorem Commented.apiCalls_eq : apiCalls s t = apiCalls s t' := by
  rw [RoleLint.apiCalls_eq, RoleLint.apiCalls_eq, List.map_filterMap, List.map_filterMap]
  refine (h.preorder true).filterMap_eq ?_ ?_
  · intro c c' hr
    exact rel_map_eq (hr.networkSite? s) fun _ _ hsite => hsite.locationOf_eq s
  · intro c hbare
    rw [RoleLint.networkSite?, hbare.kind]
    rfl

theorem Commented.markupReturns_eq : markupReturns s t = markupReturns s t' := by
  by_cases hk : t.kind = .block
  · rw [markupReturns_eq_of_block hk, markupReturns_eq_of_block (h.same.kind.trans hk),
      List.map_filterMap, List.map_filterMap]
    refine (h.preorder true).filterMap_eq ?_ ?_
    · intro c c' hr
      exact rel_map_eq hr.returnedMarkup? fun _ _ hm => hm.locationOf_eq s
    · intro c hbare
      rw [RoleLint.returnedMarkup?, hbare.kind]
      rfl
  · have hk' : t'.kind ≠ .block := fun hk' => hk (h.same.kind.symm.trans hk')
    rw [markupReturns, if_neg (by simpa using hk), markupReturns, if_neg (by simpa using hk'),
      rel_map_eq h.firstMarkup? fun _ _ hm => hm.locationOf_eq s]

end

/-! ## Descriptors -/

section
variable {name name' : Tree} {body body' : Option Tree} (s : Source)

theorem descriptorOf_eq_of_commented (hn : Commented name name')
    (hb : Option.Rel Commented body body') :
    descriptorOf s name body = descriptorOf s name' body' := by
  unfold descriptorOf
  rw [hn.textOf_eq, hn.locationOf_eq]
  cases hb with
  | none => rfl
  | some hr => simp only [hr.apiCalls_eq s, hr.markupReturns_eq s]

end

theorem Commented.describe?_eq {t t' : Tree} (h : Commented t t') (s : Source) :
    describe? s t = describe? s t' := by
  unfold describe?
  rw [h.same.kind]
  split
  · rcases rel_cases (h.child? .name) with ⟨hn, hn'⟩ | ⟨n, n', hn, hn', hr⟩
    · rw [hn, hn']
      rfl
    · rw [hn, hn', Option.map_some, Option.map_some,
        descriptorOf_eq_of_commented s hr (h.child? .body)]
  · rcases rel_cases (h.child? .name) with ⟨hn, hn'⟩ | ⟨n, n', hn, hn', hr⟩
    · rw [hn, hn']
    · rcases rel_cases (h.child? .value) with ⟨hv, hv'⟩ | ⟨v, v', hv, hv', hvr⟩
      · rw [hn, hn', hv, hv']
      · rw [hn, hn', hv, hv']
        simp only [hr.same.kind]
        split
        · exact rel_map_eq hvr.unwrapFunction fun f f' hf =>
            descriptorOf_eq_of_commented s hr (hf.child? .body)
        · rfl
  · rfl

theorem Commented.descriptors_eq {t t' : Tree} (h : Commented t t') (s : Source) :
    descriptors s t = descriptors s t' := by
  rw [RoleLint.descriptors_eq, RoleLint.descriptors_eq]
  refine (h.preorder false).filterMap_eq (fun _ _ hr => hr.describe?_eq s) ?_
  intro c hbare
  rw [describe?, hbare.kind]

/-- **Extraction does not see comments.** Where a tree without faults has comments strewn in
    among the children of any of its nodes and still has no faults, both trees give the
    same functions: the same names, roles and locations in the same order. -/
theorem comments_unseen (path : Path) (dialect : Dialect) (text : List Char) (t t' : Tree)
    (hfree : ErrorFree t) (hfree' : ErrorFree t') (h : Commented t t') :
    ∃ ds, readTree path dialect text t = .ok ds ∧ readTree path dialect text t' = .ok ds := by
  refine ⟨_, (analyzeTree_eq_ok hfree).1, ?_⟩
  rw [(analyzeTree_eq_ok hfree').1, h.descriptors_eq]

/-- A hook with comments before its name, in its parameters and before what it returns. -/
def commentedText : List Char :=
  "function/**/useB(/*a*/)\x7breturn/*b*/<b/>\x7d".toList

theorem comments_unseen_sample :
    (ErrorFree (Dialect.tsx.parse commentedText).withoutComments ∧
      ErrorFree (Dialect.tsx.parse commentedText)) ∧
    ∃ ds, readTree "b.tsx" .tsx commentedText
        (Dialect.tsx.parse commentedText).withoutComments = .ok ds ∧
      readTree "b.tsx" .tsx commentedText (Dialect.tsx.parse commentedText) = .ok ds := by
  have hfree : ErrorFree (Dialect.tsx.parse commentedText).withoutComments ∧
      ErrorFree (Dialect.tsx.parse commentedText) := by
    decide +kernel
  exact ⟨hfree, comments_unseen "b.tsx" .tsx commentedText _ _ hfree.1 hfree.2
    (commented_withoutComments _)⟩

end RoleLint
