import RoleLint.Walk

/- What the walks over a stack of pending nodes do. They refine the walk that calls
   itself on the children, and for the visitors of the analysis that walk is a fold
   over, or a search in, the list of the nodes in document order.

   1. `Tree.induct` - induction over trees, with the children as hypotheses.
   2. `visitTree`, `traverse_eq`, `traverseFrom_eq` - the recursive walk, and that the
      stack walk does the same for every visitor.
   3. `Tree.preorder`, `traverseFrom_eq_foldl` - the nodes of a walk in document
      order, and what a visitor that never skips makes of them.
   4. `mem_preorder_true_iff` - the nodes of a scope walk are those in the direct
      scope of its root (`InScope`). -/
namespace RoleLint

/-! ## Trees -/

theorem Tree.size_lt_of_mem {c : Tree} {ts : List Tree} (h : c ∈ ts) : c.size ≤ sizeAll ts := by
  induction ts with
  | nil => cases h
  | cons t ts ih =>
    simp only [sizeAll]
    rcases List.mem_cons.mp h with rfl | h
    · omega
    · have := ih h
      omega

theorem Tree.size_lt_of_mem_children {c t : Tree} (h : c ∈ t.children) : c.size < t.size := by
  have := Tree.size_lt_of_mem h
  rw [t.size_eq]
  omega

/-- Induction over trees: what holds of a node when it holds of its children holds of
    every node. -/
theorem Tree.induct {motive : Tree → Prop}
    (step : ∀ t : Tree, (∀ c ∈ t.children, motive c) → motive t) (t : Tree) : motive t :=
  step t fun c _ => Tree.induct step c
termination_by t.size
decreasing_by
  exact Tree.size_lt_of_mem_children ‹_›

/-- Whether a walk goes from a node to its child `t`: only to what is more than a bare
    token, and in a direct walk not to functions. -/
def enters (direct : Bool) (t : Tree) : Bool :=
  t.named && !(direct && t.kind.isFunctionLike)

/-- The children that a walk goes to. -/
def Tree.steps (direct : Bool) (t : Tree) : List Tree :=
  t.children.filter (enters direct)

theorem Tree.filter_namedChildren (direct : Bool) (t : Tree) :
    t.namedChildren.filter (fun c => !(direct && c.kind.isFunctionLike)) = t.steps direct := by
  rw [Tree.namedChildren, List.filter_filter, Tree.steps]
  congr 1
  funext c
  rw [enters, Bool.and_comm]

theorem Tree.mem_steps {direct : Bool} {c t : Tree} :
    c ∈ t.steps direct ↔ c ∈ t.children ∧ enters direct c = true :=
  List.mem_filter

theorem Tree.mem_namedChildren_of_mem_steps {direct : Bool} {c t : Tree}
    (h : c ∈ t.steps direct) : c ∈ t.namedChildren := by
  obtain ⟨hmem, henters⟩ := Tree.mem_steps.mp h
  simp only [enters, Bool.and_eq_true] at henters
  exact List.mem_filter.mpr ⟨hmem, henters.1⟩

/-! ## The recursive walk -/

section
variable {σ : Type} (direct : Bool) (visit : Visitor σ)

mutual

/-- Visit a node and, if the visitor wants it, the children that the walk goes to. -/
def visitTree : Tree → σ → σ
  | .node k f n a b w cs, s =>
    match visit (.node k f n a b w cs) s with
    | (.skip, s') => s'
    | (.descend, s') => visitEntered cs s'

/-- Visit those trees of a list that the walk goes to, from left to right. -/
def visitEntered : List Tree → σ → σ
  | [], s => s
  | t :: ts, s => visitEntered ts (if enters direct t then visitTree t s else s)

end

theorem visitEntered_eq (ts : List Tree) (s : σ) :
    visitEntered direct visit ts s =
      (ts.filter (enters direct)).foldl (fun s t => visitTree direct visit t s) s := by
  induction ts generalizing s with
  | nil => simp [visitEntered]
  | cons t ts ih =>
    rw [visitEntered, ih, List.filter_cons]
    split <;> rfl

theorem visitTree_eq (t : Tree) (s : σ) :
    visitTree direct visit t s =
      match visit t s with
      | (.skip, s') => s'
      | (.descend, s') => (t.steps direct).foldl (fun s c => visitTree direct visit c s) s' := by
  cases t with
  | node k f n a b w cs =>
    rw [visitTree]
    split
    · rfl
    · rw [visitEntered_eq]; rfl

/-- **The stack walk is the recursive one.** The stack holds what the recursion has
    still to visit. -/
theorem traverse_eq (stack : List Tree) (s : σ) :
    traverse direct visit stack s =
      (stack.filter fun t => !(direct && t.kind.isFunctionLike)).foldl
        (fun s t => visitTree direct visit t s) s := by
  -- Along the steps of the walk: a function that is passed over, a node that the visitor
  -- skips, and one that it goes below.
  fun_induction traverse direct visit stack s with
  | case1 s => rfl
  | case2 s t rest hf ih => rw [ih, List.filter_cons_of_neg (by simp [hf])]
  | case3 s t rest hf s' hv ih =>
    rw [ih, List.filter_cons_of_pos (by simp only [hf, Bool.not_false]), List.foldl_cons,
      visitTree_eq, hv]
  | case4 s t rest hf s' hv ih =>
    rw [ih, List.filter_append, List.foldl_append, Tree.filter_namedChildren,
      List.filter_cons_of_pos (by simp only [hf, Bool.not_false]), List.foldl_cons,
      visitTree_eq direct visit t s, hv]

theorem traverseFrom_eq (root : Tree) (s : σ) :
    traverseFrom direct visit root s = visitTree direct visit root s := by
  rw [visitTree_eq, traverseFrom]
  rcases visit root s with ⟨_ | _, s'⟩
  · rfl
  · show traverse direct visit root.namedChildren s' = _
    rw [traverse_eq, Tree.filter_namedChildren]

end

/-! ## Document order -/

mutual

/-- A node, whatever it is, and the nodes below it that a walk sees, in document
    order. -/
def Tree.preorder (direct : Bool) : Tree → List Tree
  | .node k f n a b w cs => .node k f n a b w cs :: preorderEntered direct cs

/-- The nodes of those trees of a list that a walk goes to, in document order. -/
def preorderEntered (direct : Bool) : List Tree → List Tree
  | [] => []
  | t :: ts => (if enters direct t then t.preorder direct else []) ++ preorderEntered direct ts

end

theorem preorderEntered_eq (direct : Bool) (ts : List Tree) :
    preorderEntered direct ts = (ts.filter (enters direct)).flatMap (Tree.preorder direct) := by
  induction ts with
  | nil => rfl
  | cons t ts ih =>
    rw [preorderEntered, ih, List.filter_cons]
    split <;> rfl

theorem Tree.preorder_eq (direct : Bool) (t : Tree) :
    t.preorder direct = t :: (t.steps direct).flatMap (Tree.preorder direct) := by
  cases t with
  | node k f n a b w cs => rw [Tree.preorder, preorderEntered_eq]; rfl

/-- A visitor that never skips sees the nodes one after the other. -/
theorem traverseFrom_eq_foldl {σ : Type} (direct : Bool) (visit : Visitor σ)
    (hv : ∀ t s, (visit t s).1 = .descend) (root : Tree) (s : σ) :
    traverseFrom direct visit root s =
      (root.preorder direct).foldl (fun s t => (visit t s).2) s := by
  rw [traverseFrom_eq]
  induction root using Tree.induct generalizing s with
  | step t ih =>
    have below : ∀ (cs : List Tree) (s : σ), (∀ c ∈ cs, c ∈ t.children) →
        cs.foldl (fun s c => visitTree direct visit c s) s =
          (cs.flatMap (Tree.preorder direct)).foldl (fun s t => (visit t s).2) s := by
      intro cs
      induction cs with
      | nil => intro s _; rfl
      | cons c cs ihcs =>
        intro s hmem
        rw [List.foldl_cons, List.flatMap_cons, List.foldl_append,
          ih c (hmem c List.mem_cons_self) s]
        exact ihcs _ fun d hd => hmem d (List.mem_cons_of_mem c hd)
    rw [visitTree_eq, Tree.preorder_eq, List.foldl_cons,
      ← below _ _ fun c hc => (Tree.mem_steps.mp hc).1]
    have hd := hv t s
    generalize visit t s = r at hd
    obtain ⟨_, s'⟩ := r
    simp only at hd
    subst hd
    rfl

/-- A visitor that looks for the first node that passes a test, and then for nothing
    more, finds what a search in document order finds. -/
theorem traverseFrom_eq_find? (direct : Bool) (test : Tree → Bool)
    (visit : Visitor (Option Tree)) (hfound : ∀ t m, visit t (some m) = (.skip, some m))
    (hnone : ∀ t, visit t none = if test t then (.skip, some t) else (.descend, none))
    (root : Tree) :
    traverseFrom direct visit root none = (root.preorder direct).find? test := by
  rw [traverseFrom_eq]
  have stays : ∀ (cs : List Tree) (m : Tree),
      cs.foldl (fun s c => visitTree direct visit c s) (some m) = some m := by
    intro cs m
    induction cs with
    | nil => rfl
    | cons c cs ih => rw [List.foldl_cons, visitTree_eq, hfound, ih]
  induction root using Tree.induct with
  | step t ih =>
    have below : ∀ cs : List Tree, (∀ c ∈ cs, c ∈ t.children) →
        cs.foldl (fun s c => visitTree direct visit c s) none =
          (cs.flatMap (Tree.preorder direct)).find? test := by
      intro cs
      induction cs with
      | nil => intro _; rfl
      | cons c cs ihcs =>
        intro hmem
        rw [List.foldl_cons, List.flatMap_cons, List.find?_append,
          ih c (hmem c List.mem_cons_self)]
        cases (c.preorder direct).find? test with
        | some m => exact stays cs m
        | none => exact ihcs fun d hd => hmem d (List.mem_cons_of_mem c hd)
    rw [visitTree_eq, Tree.preorder_eq, List.find?_cons, hnone,
      ← below _ fun c hc => (Tree.mem_steps.mp hc).1]
    cases test t <;> rfl

/-! ## Scopes -/

/-- In the direct scope of `root`: reached from it through named children, and no
    function on the way, the end included; only `root` itself may be one. -/
inductive InScope (root : Tree) : Tree → Prop where
  | root : InScope root root
  | child {t c : Tree} : InScope root t → c ∈ t.namedChildren →
      c.kind.isFunctionLike = false → InScope root c

/-- A node or one below it, through any children. -/
inductive Within (root : Tree) : Tree → Prop where
  | root : Within root root
  | child {t c : Tree} : Within root t → c ∈ t.children → Within root c

theorem mem_steps_true {c t : Tree} :
    c ∈ t.steps true ↔ c ∈ t.namedChildren ∧ c.kind.isFunctionLike = false := by
  simp [Tree.mem_steps, enters, Tree.namedChildren, List.mem_filter, and_assoc]

/-- The other way round: from a child of the root on. -/
theorem InScope.head {root c t : Tree} (hc : c ∈ root.namedChildren)
    (hf : c.kind.isFunctionLike = false) (h : InScope c t) : InScope root t := by
  induction h with
  | root => exact .child .root hc hf
  | child _ hc' hf' ih => exact .child ih hc' hf'

theorem mem_preorder_of_mem {direct : Bool} {c root t : Tree} (hc : c ∈ root.steps direct)
    (ht : t ∈ c.preorder direct) : t ∈ root.preorder direct := by
  rw [Tree.preorder_eq]
  exact List.mem_cons_of_mem _ (List.mem_flatMap.mpr ⟨c, hc, ht⟩)

/-- What a walk sees, it sees with the children that it goes to. -/
theorem mem_preorder_step {direct : Bool} {root t c : Tree} (ht : t ∈ root.preorder direct)
    (hc : c ∈ t.steps direct) : c ∈ root.preorder direct := by
  induction root using Tree.induct with
  | step root ih =>
    rw [Tree.preorder_eq] at ht
    rcases List.mem_cons.mp ht with rfl | ht
    · exact mem_preorder_of_mem hc (by rw [Tree.preorder_eq]; exact List.mem_cons_self)
    · obtain ⟨d, hd, htd⟩ := List.mem_flatMap.mp ht
      exact mem_preorder_of_mem hd (ih d (Tree.mem_steps.mp hd).1 htd)

theorem mem_preorder_true_iff {root t : Tree} : t ∈ root.preorder true ↔ InScope root t := by
  constructor
  · intro h
    induction root using Tree.induct with
    | step root ih =>
      rw [Tree.preorder_eq] at h
      rcases List.mem_cons.mp h with rfl | h
      · exact .root
      · obtain ⟨c, hc, ht⟩ := List.mem_flatMap.mp h
        obtain ⟨hn, hf⟩ := mem_steps_true.mp hc
        exact .head hn hf (ih c (Tree.mem_steps.mp hc).1 ht)
  · intro h
    induction h with
    | root => rw [Tree.preorder_eq]; exact List.mem_cons_self
    | child _ hc hf ih => exact mem_preorder_step ih (mem_steps_true.mpr ⟨hc, hf⟩)

theorem Within.trans {root t u : Tree} (h : Within root t) (h' : Within t u) : Within root u := by
  induction h' with
  | root => exact h
  | child _ hc ih => exact .child ih hc

theorem within_of_mem_preorder {direct : Bool} {root t : Tree} (h : t ∈ root.preorder direct) :
    Within root t := by
  induction root using Tree.induct with
  | step root ih =>
    rw [Tree.preorder_eq] at h
    rcases List.mem_cons.mp h with rfl | h
    · exact .root
    · obtain ⟨c, hc, ht⟩ := List.mem_flatMap.mp h
      have hmem := (Tree.mem_steps.mp hc).1
      exact Within.trans (.child .root hmem) (ih c hmem ht)

theorem InScope.within {root t : Tree} (h : InScope root t) : Within root t :=
  within_of_mem_preorder (mem_preorder_true_iff.mpr h)

theorem Within.size_le {t u : Tree} (h : Within t u) : u.size ≤ t.size := by
  induction h with
  | root => exact Nat.le_refl _
  | child _ hc ih =>
    have := Tree.size_lt_of_mem_children hc
    omega

end RoleLint
