import RoleLint.Analysis
import RoleLint.Proofs.Addresses
import RoleLint.Proofs.Spans

/- The search for the first fault of a tree leaves out every tree that is not marked as
   flawed, and misses nothing by it.

   1. `Marked` - every fault is marked, and every node above one.
   2. `Tree.searchAll`, `firstFaultOf_eq` - the search through all nodes in document order,
      and that the search over a stack of pending trees finds the same.
   3. `FirstFault`, `searchAll_eq_some_iff` - the first fault, by address.
   4. `first_fault_found` - what follows for the functions of a text. -/
namespace RoleLint

/-! ## Marks -/

/-- A node is marked as flawed if it is a fault or has one somewhere below it, bare tokens
    included. Nothing is said about the marks of other nodes. -/
def Marked (tree : Tree) : Prop :=
  ∀ t ∈ tree.everyNode, (∃ u ∈ t.everyNode, u.kind.isFault = true) → t.flawed = true

instance (tree : Tree) : Decidable (Marked tree) :=
  inferInstanceAs (Decidable (∀ t ∈ tree.everyNode, _ → _))

theorem Marked.of_mem_children {t c : Tree} (h : Marked t) (hc : c ∈ t.children) : Marked c := by
  intro u hu
  apply h u
  rw [mem_everyNode_iff] at hu ⊢
  exact Within.trans (.child .root hc) hu

/-- What is not marked has no faults. -/
theorem Marked.errorFree {t : Tree} (h : Marked t) (hf : ¬ t.flawed = true) : ErrorFree t := by
  intro u hu
  by_contra hk
  apply hf
  apply h t (mem_everyNode_iff.mpr .root)
  exact ⟨u, hu, by simpa using hk⟩

/-! ## The search -/

/-- The first fault of a tree in document order, with no tree left out. -/
def Tree.searchAll (t : Tree) : Option Tree :=
  t.everyNode.find? fun u => u.kind.isFault

theorem searchAll_eq_none_iff {t : Tree} : t.searchAll = none ↔ ErrorFree t := by
  simp only [Tree.searchAll, List.find?_eq_none, Bool.not_eq_true, ErrorFree]

theorem searchAll_of_isFault {t : Tree} (h : t.kind.isFault = true) : t.searchAll = some t := by
  rw [Tree.searchAll, Tree.everyNode_eq, List.find?_cons, h]

theorem searchAll_of_not_isFault {t : Tree} (h : ¬ t.kind.isFault = true) :
    t.searchAll = t.children.findSome? Tree.searchAll := by
  rw [Tree.searchAll, Tree.everyNode_eq, List.find?_cons, eq_false_of_ne_true h,
    List.find?_flatMap]
  rfl

/-- **The pruned search is the full one.** The stack holds the trees that are still to be
    searched; a tree is replaced by its children, or dropped if it is not marked. -/
theorem firstFaultOf_eq {stack : List Tree} (h : ∀ t ∈ stack, Marked t) :
    firstFaultOf stack = stack.findSome? Tree.searchAll := by
  fun_induction firstFaultOf stack with
  | case1 => rfl
  | case2 t rest hk => rw [List.findSome?_cons, searchAll_of_isFault hk]
  | case3 t rest hk hf ih =>
    have hstack : ∀ u ∈ t.children ++ rest, Marked u := by
      intro u hu
      rcases List.mem_append.mp hu with hc | hr
      · exact (h t List.mem_cons_self).of_mem_children hc
      · exact h u (List.mem_cons_of_mem t hr)
    calc firstFaultOf (t.children ++ rest)
        = (t.children ++ rest).findSome? Tree.searchAll := ih hstack
      _ = t.searchAll.or (rest.findSome? Tree.searchAll) := by
          rw [List.findSome?_append, searchAll_of_not_isFault hk]
      _ = (t :: rest).findSome? Tree.searchAll := by
          rw [List.findSome?_cons]
          cases t.searchAll <;> rfl
  | case4 t rest hk hf ih =>
    -- The one step that leaves something out: what is dropped has no faults.
    have hfree : t.searchAll = none :=
      searchAll_eq_none_iff.mpr ((h t List.mem_cons_self).errorFree hf)
    rw [ih fun u hu => h u (List.mem_cons_of_mem t hu), List.findSome?_cons, hfree]

theorem Marked.firstFault_eq {tree : Tree} (h : Marked tree) :
    tree.firstFault = tree.searchAll := by
  rw [Tree.firstFault, firstFaultOf_eq (by simpa using h), List.findSome?_singleton]

/-! ## The first fault -/

/-- The fault at an address comes first in document order: no address of a fault is less. -/
structure FirstFault (tree : Tree) (p : Address) (t : Tree) : Prop where
  found : tree.at? p = some t
  fault : t.kind.isFault = true
  least : ∀ q u, tree.at? q = some u → u.kind.isFault = true → p ≤ q

theorem FirstFault.unique {tree t u : Tree} {p q : Address} (h : FirstFault tree p t)
    (h' : FirstFault tree q u) : p = q ∧ t = u := by
  have hpq : p = q := le_antisymm (h.least q u h'.found h'.fault) (h'.least p t h.found h.fault)
  subst hpq
  exact ⟨rfl, Option.some.inj (h.found.symm.trans h'.found)⟩

/-- A tree that is a fault itself has no fault in front. -/
theorem FirstFault.of_isFault {tree : Tree} (h : tree.kind.isFault = true) :
    FirstFault tree [] tree :=
  ⟨rfl, h, fun q _ _ _ => not_lt.mp (List.not_lt_nil q)⟩

theorem errorFree_iff_at? {tree : Tree} :
    ErrorFree tree ↔ ∀ p t, tree.at? p = some t → t.kind.isFault = false := by
  constructor
  · intro h p t ht
    exact h t (mem_everyNode_iff.mpr (within_of_at? ht))
  · intro h t ht
    obtain ⟨p, hp⟩ := exists_at?_of_within (mem_everyNode_iff.mp ht)
    exact h p t hp

theorem FirstFault.not_errorFree {tree t : Tree} {p : Address} (h : FirstFault tree p t) :
    ¬ ErrorFree tree := by
  intro hfree
  have hno := errorFree_iff_at?.mp hfree p t h.found
  rw [h.fault] at hno
  cases hno

/-- In a tree that is no fault, the first fault of a child comes first if the children in
    front of it have none. -/
theorem FirstFault.of_child {tree c t : Tree} {before after : List Tree} {p : Address}
    (hroot : ¬ tree.kind.isFault = true) (hsplit : tree.children = before ++ c :: after)
    (hbefore : ∀ d ∈ before, ErrorFree d) (h : FirstFault c p t) :
    FirstFault tree (before.length :: p) t := by
  have hchild : tree.children[before.length]? = some c := by
    rw [hsplit, List.getElem?_append_right (Nat.le_refl _), Nat.sub_self, List.getElem?_cons_zero]
  refine ⟨?_, h.fault, ?_⟩
  · rw [Tree.at?, hchild, Option.bind_some, h.found]
  · intro q u hu hk
    cases q with
    | nil =>
      cases hu
      exact absurd hk hroot
    | cons j q =>
      obtain ⟨d, hd, hdu⟩ := Option.bind_eq_some_iff.mp hu
      rcases Nat.lt_trichotomy j before.length with hlt | heq | hgt
      · rw [hsplit, List.getElem?_append_left hlt] at hd
        have hno := errorFree_iff_at?.mp (hbefore d (List.mem_of_getElem? hd)) q u hdu
        rw [hno] at hk
        cases hk
      · subst heq
        obtain rfl : d = c := Option.some.inj (hd.symm.trans hchild)
        exact List.cons_le_cons _ (h.least q u hdu hk)
      · exact le_of_lt (List.cons_lt_cons_iff.mpr (.inl hgt))

theorem firstFault_of_searchAll {tree t : Tree} (h : tree.searchAll = some t) :
    ∃ p, FirstFault tree p t := by
  induction tree using Tree.induct with
  | step tree ih =>
    by_cases hk : tree.kind.isFault = true
    · rw [searchAll_of_isFault hk] at h
      cases h
      exact ⟨[], .of_isFault hk⟩
    · rw [searchAll_of_not_isFault hk] at h
      obtain ⟨before, c, after, hsplit, hc, hbefore⟩ := List.findSome?_eq_some_iff.mp h
      have hmem : c ∈ tree.children := by
        rw [hsplit]
        exact List.mem_append_right before List.mem_cons_self
      obtain ⟨p, hp⟩ := ih c hmem hc
      refine ⟨before.length :: p, hp.of_child hk hsplit ?_⟩
      intro d hd
      exact searchAll_eq_none_iff.mp (hbefore d hd)

/-- A search through all nodes in document order finds the first fault. -/
theorem searchAll_eq_some_iff {tree t : Tree} :
    tree.searchAll = some t ↔ ∃ p, FirstFault tree p t := by
  refine ⟨firstFault_of_searchAll, ?_⟩
  intro ⟨p, h⟩
  cases hfound : tree.searchAll with
  | none => exact absurd (searchAll_eq_none_iff.mp hfound) h.not_errorFree
  | some u =>
    obtain ⟨q, hq⟩ := firstFault_of_searchAll hfound
    rw [(h.unique hq).2]

/-! ## The functions of a text -/

/-- What is read from a tree is decided by its first fault. -/
theorem readTree_eq_ok_iff {path : Path} {dialect : Dialect} {text : List Char} {tree : Tree} :
    (∃ ds, readTree path dialect text tree = .ok ds) ↔ tree.firstFault = none := by
  unfold readTree
  cases tree.firstFault with
  | none => simp
  | some t => simp

/-- **The first fault is found although trees are left out.** In a tree whose marks are set
    at and above every fault, the search finds a node exactly if it is the first fault in
    document order, and nothing exactly if no node is a fault. So a text has functions exactly
    if no node of its tree is a fault; otherwise the error is at the start of the first one. -/
theorem first_fault_found (tree : Tree) (hm : Marked tree) :
    (∀ t, tree.firstFault = some t ↔ ∃ p, FirstFault tree p t) ∧
      (tree.firstFault = none ↔ ∀ p t, tree.at? p = some t → t.kind.isFault = false) ∧
      ∀ (path : Path) (dialect : Dialect) (text : List Char),
        ((∃ ds, readTree path dialect text tree = .ok ds) ↔
          ∀ p t, tree.at? p = some t → t.kind.isFault = false) ∧
        ∀ p t, FirstFault tree p t → readTree path dialect text tree =
          .error (.invalidSyntax path dialect ((Source.ofText text).locate t.start) t.start) := by
  have hsome : ∀ t, tree.firstFault = some t ↔ ∃ p, FirstFault tree p t := by
    intro t
    rw [hm.firstFault_eq, searchAll_eq_some_iff]
  have hnone : tree.firstFault = none ↔
      ∀ p t, tree.at? p = some t → t.kind.isFault = false := by
    rw [hm.firstFault_eq, searchAll_eq_none_iff, errorFree_iff_at?]
  refine ⟨hsome, hnone, ?_⟩
  intro path dialect text
  refine ⟨readTree_eq_ok_iff.trans hnone, ?_⟩
  intro p t ht
  unfold readTree
  rw [(hsome t).mpr ⟨p, ht⟩]
  rfl

/-- Three statements, the last of them broken. -/
def faultyText : List Char :=
  "a();\nb();\nc(1".toList

/-- A bracket that the last statement lacks: a bare token without width. -/
def missingBracket : Tree :=
  .node .missing none false 11 11 true []

/-- The last statement. The bracket is missing in front of an error inside another. -/
def brokenStatement : Tree :=
  .branch .other 10 13
    [.leaf .identifier 10 11, missingBracket, .branch .error 11 13 [.leaf .error 12 13]]

/-- The statements in front: one that is not marked, and one that is marked for nothing. -/
def soundStatements : List Tree :=
  [.branch .other 0 4 [.leaf .identifier 0 1],
    .node .other none true 5 9 true [.leaf .identifier 5 6]]

/-- A tree of that text. -/
def faultyTree : Tree :=
  .branch .other 0 13 (soundStatements ++ [brokenStatement])

theorem first_fault_found_broken :
    Marked faultyTree ∧ FirstFault faultyTree [2, 1] missingBracket ∧
      faultyTree.firstFault = some missingBracket ∧
      readTree "a.ts" .typescript faultyText faultyTree =
        .error (.invalidSyntax "a.ts" .typescript ⟨3, 1⟩ 11) := by
  have hm : Marked faultyTree := by decide +kernel
  have hsound : ∀ t ∈ soundStatements, ErrorFree t := by decide +kernel
  have hname : ∀ t ∈ [Tree.leaf .identifier 10 11], ErrorFree t := by decide +kernel
  have hbroken : FirstFault brokenStatement [1] missingBracket :=
    .of_child (by decide) (by rfl) hname (.of_isFault rfl)
  have hfirst : FirstFault faultyTree [2, 1] missingBracket :=
    .of_child (by decide) (by rfl) hsound hbroken
  obtain ⟨hsome, -, hread⟩ := first_fault_found faultyTree hm
  refine ⟨hm, hfirst, (hsome missingBracket).mpr ⟨[2, 1], hfirst⟩, ?_⟩
  have hlocation : (Source.ofText faultyText).locate 11 = ⟨3, 1⟩ := by decide +kernel
  rw [← hlocation]
  exact (hread "a.ts" .typescript faultyText).2 [2, 1] missingBracket hfirst

end RoleLint
