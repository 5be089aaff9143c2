import RoleLint.Tree

/- Walking a tree. A visitor sees nodes in preorder, carries a state from node to
   node and says after each whether to go below it.

   1. `Tree.size` - the measure that bounds every walk.
   2. `traverse` - the walk over a stack of pending nodes.
   3. `walk` sees the root and every named node below it; `walkScope` leaves out
      functions below the root with everything in them.
   4. `firstFault` - the first place that does not fit the grammar.

   Correspondence with `rag_ts::walk`: `Visit`, `traverse`, `walk`, `walk_scope` ↔ `Visit`,
   `traverse`, `walk`, `walkScope`; `rag_ts::javascript::first_error` ↔ `firstFault`. -/
namespace RoleLint

/-! ## Size -/

mutual

/-- The number of nodes of a tree. -/
def Tree.size : Tree → Nat
  | .node _ _ _ _ _ _ cs => sizeAll cs + 1

/-- The number of nodes of a list of trees. -/
def sizeAll : List Tree → Nat
  | [] => 0
  | t :: ts => t.size + sizeAll ts

end

theorem sizeAll_append (ts us : List Tree) : sizeAll (ts ++ us) = sizeAll ts + sizeAll us := by
  induction ts with
  | nil => simp [sizeAll]
  | cons t ts ih => simp [sizeAll, ih, Nat.add_assoc]

theorem sizeAll_filter_le (p : Tree → Bool) (ts : List Tree) :
    sizeAll (ts.filter p) ≤ sizeAll ts := by
  induction ts with
  | nil => simp [sizeAll]
  | cons t ts ih =>
    simp only [List.filter_cons]
    split <;> simp only [sizeAll] <;> omega

theorem Tree.size_eq (t : Tree) : t.size = sizeAll t.children + 1 := by
  cases t
  simp [Tree.size, Tree.children]

theorem sizeAll_namedChildren_lt (t : Tree) : sizeAll t.namedChildren < t.size := by
  have := sizeAll_filter_le Tree.named t.children
  rw [Tree.size_eq, Tree.namedChildren]
  omega

/-! ## Walks -/

/-- What a visitor wants after seeing a node. -/
inductive Visit where
  /-- Leave out what is below the node. -/
  | skip
  /-- Go on below the node. -/
  | descend
  deriving DecidableEq, Repr

/-- A visitor with a state of type `σ`. -/
abbrev Visitor (σ : Type) : Type := Tree → σ → Visit × σ

/-- Visit the nodes of a stack, its first one next, each with what is below it.
    In a direct walk nodes that open a function scope are passed over. -/
def traverse {σ : Type} (direct : Bool) (visit : Visitor σ) (stack : List Tree) (s : σ) : σ :=
  match stack with
  | [] => s
  | t :: rest =>
    if direct && t.kind.isFunctionLike then traverse direct visit rest s
    else
      match visit t s with
      | (.skip, s') => traverse direct visit rest s'
      | (.descend, s') => traverse direct visit (t.namedChildren ++ rest) s'
  termination_by sizeAll stack
  decreasing_by
    all_goals simp only [sizeAll, sizeAll_append]
    · have := t.size_eq
      omega
    · have := t.size_eq
      omega
    · have := sizeAll_namedChildren_lt t
      omega

/-- Visit `root`, whatever it is, and from there what is below it. -/
def traverseFrom {σ : Type} (direct : Bool) (visit : Visitor σ) (root : Tree) (s : σ) : σ :=
  match visit root s with
  | (.skip, s') => s'
  | (.descend, s') => traverse direct visit root.namedChildren s'

/-- Visit `root` and every named node below it in preorder. -/
def walk {σ : Type} (visit : Visitor σ) (root : Tree) (s : σ) : σ :=
  traverseFrom false visit root s

/-- Like `walk`, but never enters a function below `root`. -/
def walkScope {σ : Type} (visit : Visitor σ) (root : Tree) (s : σ) : σ :=
  traverseFrom true visit root s

/-! ## Faults -/

/-- The first fault among the nodes of a stack and what is below them. Trees that
    are not marked as flawed are not searched. -/
def firstFaultOf (stack : List Tree) : Option Tree :=
  match stack with
  | [] => none
  | t :: rest =>
    if t.kind.isFault then some t
    else if t.flawed then firstFaultOf (t.children ++ rest)
    else firstFaultOf rest
  termination_by sizeAll stack
  decreasing_by
    all_goals
      simp only [sizeAll, sizeAll_append]
      have := t.size_eq
      omega

/-- The first fault of a tree, in preorder. -/
def Tree.firstFault (t : Tree) : Option Tree :=
  firstFaultOf [t]

end RoleLint
