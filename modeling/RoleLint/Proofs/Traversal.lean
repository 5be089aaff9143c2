import RoleLint.Proofs.Declarations

/- The walk over a stack of pending nodes against the walk that calls itself: both call the
   visitor with the same nodes, in the same order and in the same states. Nodes are taken
   where they stand, so that a visitor may tell equal ones apart and no two are confused.

   1. `Visits`, `VisitsFrom` - the calls of the recursive walk and the state it ends in.
   2. `exists_visitsFrom`, `VisitsFrom.unique` - it comes to an end, in one way.
   3. `VisitsFrom.traverseFrom_eq` - `traverseFrom` makes these calls.
   4. `Pending`, `VisitsFrom.rounds` - so does a loop that knows the root by an identifier,
      takes the last node of its stack and puts the children of the node there in reverse.
   5. `VisitsFrom.places` - the nodes that a visitor sees if it never skips.
   6. `traversal_refines_recursion` - all of this for every node of a tree. -/
namespace RoleLint

/-- A node of a tree where it stands. -/
abbrev Placed : Type := Address × Tree

/-- A visitor that may look at where a node stands. -/
abbrev Observer (σ : Type) : Type := Placed → σ → Visit × σ

/-- A call of a visitor: the node and the state in which the visitor was called. -/
abbrev Call (σ : Type) : Type := Placed × σ

/-- The children of a node that are more than bare tokens, where they stand. -/
def placedChildren (e : Placed) : List Placed :=
  (e.2.children.zipIdx.filter fun c => c.1.named).map fun c => (e.1 ++ [c.2], c.1)

theorem map_snd_placedChildren (e : Placed) :
    (placedChildren e).map Prod.snd = e.2.namedChildren := by
  have hfst : (e.2.children.zipIdx.filter fun c => c.1.named).map Prod.fst =
      (e.2.children.zipIdx.map Prod.fst).filter Tree.named := by
    rw [List.filter_map]
    rfl
  rw [placedChildren, List.map_map, Tree.namedChildren]
  rw [List.zipIdx_map_fst] at hfst
  exact hfst

theorem mem_placedChildren {e c : Placed} (h : c ∈ placedChildren e) :
    ∃ i, c.1 = e.1 ++ [i] ∧ e.2.children[i]? = some c.2 := by
  obtain ⟨⟨d, i⟩, hd, rfl⟩ := List.mem_map.mp h
  exact ⟨i, rfl, List.mem_zipIdx_iff_getElem?.mp (List.mem_filter.mp hd).1⟩

theorem sizeAll_placedChildren_lt (e : Placed) :
    sizeAll ((placedChildren e).map Prod.snd) < e.2.size := by
  rw [map_snd_placedChildren]
  exact sizeAll_namedChildren_lt e.2

/-! ## The recursive walk -/

/-- A direct walk passes over the node. -/
def PassedOver (direct : Bool) (t : Tree) : Prop :=
  direct = true ∧ t.kind.isFunctionLike = true

instance (direct : Bool) (t : Tree) : Decidable (PassedOver direct t) :=
  inferInstanceAs (Decidable (_ ∧ _))

section
variable {σ : Type} (direct : Bool) (visit : Observer σ)

/-- The recursive walk over some nodes, from left to right. A node that it passes over is
    neither visited nor entered. Any other node is visited, and if the visitor does not skip, so are
    its named children before the nodes after it. -/
inductive Visits : List Placed → σ → List (Call σ) → σ → Prop where
  | done {s : σ} : Visits [] s [] s
  | pass {e : Placed} {rest : List Placed} {s s' : σ} {calls : List (Call σ)} :
      PassedOver direct e.2 → Visits rest s calls s' → Visits (e :: rest) s calls s'
  | skip {e : Placed} {rest : List Placed} {s s₁ s' : σ} {calls : List (Call σ)} :
      ¬ PassedOver direct e.2 → visit e s = (.skip, s₁) → Visits rest s₁ calls s' →
      Visits (e :: rest) s ((e, s) :: calls) s'
  | descend {e : Placed} {rest : List Placed} {s s₁ s₂ s' : σ} {below after : List (Call σ)} :
      ¬ PassedOver direct e.2 → visit e s = (.descend, s₁) →
      Visits (placedChildren e) s₁ below s₂ → Visits rest s₂ after s' →
      Visits (e :: rest) s ((e, s) :: (below ++ after)) s'

/-- The recursive walk from a root, which is visited whatever it is. -/
inductive VisitsFrom (root : Placed) (s : σ) : List (Call σ) → σ → Prop where
  | skip {s' : σ} : visit root s = (.skip, s') → VisitsFrom root s [(root, s)] s'
  | descend {s₁ s' : σ} {calls : List (Call σ)} : visit root s = (.descend, s₁) →
      Visits direct visit (placedChildren root) s₁ calls s' →
      VisitsFrom root s ((root, s) :: calls) s'

/-- The recursion ends: it goes from nodes to their children. -/
theorem exists_visits (es : List Placed) (s : σ) : ∃ calls s', Visits direct visit es s calls s' := by
  match es with
  | [] => exact ⟨[], s, .done⟩
  | e :: rest =>
    have hsize := e.2.size_eq
    have hbelow := sizeAll_placedChildren_lt e
    by_cases ho : PassedOver direct e.2
    · obtain ⟨calls, s', h⟩ := exists_visits rest s
      exact ⟨calls, s', .pass ho h⟩
    · cases hv : visit e s with
      | mk answer s₁ =>
        cases answer with
        | skip =>
          obtain ⟨calls, s', h⟩ := exists_visits rest s₁
          exact ⟨_, s', .skip ho hv h⟩
        | descend =>
          obtain ⟨below, s₂, hb⟩ := exists_visits (placedChildren e) s₁
          obtain ⟨after, s', ha⟩ := exists_visits rest s₂
          exact ⟨_, s', .descend ho hv hb ha⟩
termination_by sizeAll (es.map Prod.snd)
decreasing_by
  all_goals
    simp only [List.map_cons, sizeAll]
    omega

theorem exists_visitsFrom (root : Placed) (s : σ) :
    ∃ calls s', VisitsFrom direct visit root s calls s' := by
  cases hv : visit root s with
  | mk answer s₁ =>
    cases answer with
    | skip => exact ⟨_, s₁, .skip hv⟩
    | descend =>
      obtain ⟨calls, s', h⟩ := exists_visits direct visit (placedChildren root) s₁
      exact ⟨_, s', .descend hv h⟩

end

section
variable {σ : Type} {direct : Bool} {visit : Observer σ}

theorem Visits.unique {es : List Placed} {s s' s'' : σ} {calls calls' : List (Call σ)}
    (h : Visits direct visit es s calls s') (h' : Visits direct visit es s calls' s'') :
    calls' = calls ∧ s'' = s' := by
  induction h generalizing calls' s'' with
  | done =>
    cases h'
    exact ⟨rfl, rfl⟩
  | pass ho _ ih =>
    cases h' with
    | pass _ h' => exact ih h'
    | skip hno => exact absurd ho hno
    | descend hno => exact absurd ho hno
  | skip hno hv _ ih =>
    cases h' with
    | pass ho => exact absurd ho hno
    | skip _ hv' h' =>
      cases hv.symm.trans hv'
      obtain ⟨rfl, rfl⟩ := ih h'
      exact ⟨rfl, rfl⟩
    | descend _ hv' => cases hv.symm.trans hv'
  | descend hno hv _ _ ihb iha =>
    cases h' with
    | pass ho => exact absurd ho hno
    | skip _ hv' => cases hv.symm.trans hv'
    | descend _ hv' hb ha =>
      cases hv.symm.trans hv'
      obtain ⟨rfl, rfl⟩ := ihb hb
      obtain ⟨rfl, rfl⟩ := iha ha
      exact ⟨rfl, rfl⟩

/-- The recursive walk makes one list of calls and ends in one state. -/
theorem VisitsFrom.unique {root : Placed} {s s' s'' : σ} {calls calls' : List (Call σ)}
    (h : VisitsFrom direct visit root s calls s')
    (h' : VisitsFrom direct visit root s calls' s'') : calls' = calls ∧ s'' = s' := by
  cases h with
  | skip hv =>
    cases h' with
    | skip hv' =>
      cases hv.symm.trans hv'
      exact ⟨rfl, rfl⟩
    | descend hv' => cases hv.symm.trans hv'
  | descend hv h =>
    cases h' with
    | skip hv' => cases hv.symm.trans hv'
    | descend hv' h' =>
      cases hv.symm.trans hv'
      obtain ⟨rfl, rfl⟩ := h.unique h'
      exact ⟨rfl, rfl⟩

end

/-! ## The walk over a stack -/

/-- A visitor that writes down its calls. -/
def logging {σ : Type} (visit : Visitor σ) : Visitor (σ × List (Tree × σ)) := fun t m =>
  ((visit t m.1).1, (visit t m.1).2, m.2 ++ [(t, m.1)])

/-- A visitor that looks at the nodes alone. -/
def Visitor.observe {σ : Type} (visit : Visitor σ) : Observer σ := fun e => visit e.2

/-- A call without the place of the node. -/
def Call.unplaced {σ : Type} (c : Call σ) : Tree × σ :=
  (c.1.2, c.2)

section
variable {σ : Type} {direct : Bool} {visit : Visitor σ}

/-- The stack walk visits what is on top of the stack as the recursion does, and then goes on
    with the rest of the stack. -/
theorem Visits.traverse_eq {es : List Placed} {s s' : σ} {calls : List (Call σ)}
    (h : Visits direct visit.observe es s calls s') (stack : List Tree) :
    traverse direct visit (es.map Prod.snd ++ stack) s = traverse direct visit stack s' := by
  induction h generalizing stack with
  | done => rfl
  | pass ho _ ih =>
    rw [List.map_cons, List.cons_append, traverse, if_pos (by simpa [PassedOver] using ho), ih]
  | skip hno hv _ ih =>
    simp only [Visitor.observe] at hv
    rw [List.map_cons, List.cons_append, traverse, if_neg (by simpa [PassedOver] using hno), hv]
    exact ih stack
  | descend hno hv _ _ ihb iha =>
    simp only [Visitor.observe] at hv
    rw [List.map_cons, List.cons_append, traverse, if_neg (by simpa [PassedOver] using hno), hv]
    simp only [← map_snd_placedChildren]
    rw [ihb, iha]

theorem VisitsFrom.traverseFrom_eq {root : Placed} {s s' : σ} {calls : List (Call σ)}
    (h : VisitsFrom direct visit.observe root s calls s') :
    traverseFrom direct visit root.2 s = s' := by
  cases h with
  | skip hv =>
    simp only [Visitor.observe] at hv
    rw [traverseFrom, hv]
  | descend hv h =>
    simp only [Visitor.observe] at hv
    have hstack := h.traverse_eq []
    rw [List.append_nil, map_snd_placedChildren, traverse] at hstack
    rw [traverseFrom, hv]
    exact hstack

theorem logging_observe (e : Placed) (s : σ) (log : List (Tree × σ)) :
    (logging visit).observe e (s, log) =
      ((visit.observe e s).1, (visit.observe e s).2, log ++ [(e.2, s)]) :=
  rfl

/-- Writing down the calls changes nothing else. -/
theorem Visits.logging {es : List Placed} {s s' : σ} {calls : List (Call σ)}
    (h : Visits direct visit.observe es s calls s') (log : List (Tree × σ)) :
    ∃ calls', Visits direct (RoleLint.logging visit).observe es (s, log) calls'
      (s', log ++ calls.map Call.unplaced) := by
  induction h generalizing log with
  | done => exact ⟨[], by simpa using .done⟩
  | pass ho _ ih =>
    obtain ⟨calls', h⟩ := ih log
    exact ⟨calls', .pass ho h⟩
  | @skip e rest s s₁ s' calls hno hv _ ih =>
    have hlog : (RoleLint.logging visit).observe e (s, log) = (.skip, s₁, log ++ [(e.2, s)]) := by
      rw [logging_observe, hv]
    obtain ⟨calls', h⟩ := ih (log ++ [(e.2, s)])
    exact ⟨_, .skip hno hlog (by simpa [Call.unplaced] using h)⟩
  | @descend e rest s s₁ s₂ s' below after hno hv _ _ ihb iha =>
    have hlog : (RoleLint.logging visit).observe e (s, log) =
        (.descend, s₁, log ++ [(e.2, s)]) := by
      rw [logging_observe, hv]
    obtain ⟨below', hb⟩ := ihb (log ++ [(e.2, s)])
    obtain ⟨after', ha⟩ := iha (log ++ [(e.2, s)] ++ below.map Call.unplaced)
    exact ⟨_, .descend hno hlog hb (by simpa [Call.unplaced] using ha)⟩

/-- `traverseFrom` makes the calls of the recursive walk. -/
theorem VisitsFrom.traverseFrom_logging {root : Placed} {s s' : σ} {calls : List (Call σ)}
    (h : VisitsFrom direct visit.observe root s calls s') :
    traverseFrom direct (RoleLint.logging visit) root.2 (s, []) =
      (s', calls.map Call.unplaced) := by
  cases h with
  | skip hv =>
    have hlog : (RoleLint.logging visit).observe root (s, []) = (.skip, s', [(root.2, s)]) := by
      rw [logging_observe, hv]
      rfl
    exact VisitsFrom.traverseFrom_eq (.skip hlog)
  | @descend s₁ _ calls hv h =>
    have hlog : (RoleLint.logging visit).observe root (s, []) = (.descend, s₁, [(root.2, s)]) := by
      rw [logging_observe, hv]
      rfl
    obtain ⟨calls', h⟩ := h.logging [(root.2, s)]
    exact VisitsFrom.traverseFrom_eq (.descend hlog h)

end

/-! ## The loop -/

/-- A list with everything from position `n` on in reverse order. -/
def reverseFrom {α : Type} (n : Nat) (xs : List α) : List α :=
  xs.take n ++ (xs.drop n).reverse

theorem reverseFrom_append {α : Type} (xs ys : List α) :
    reverseFrom xs.length (xs ++ ys) = xs ++ ys.reverse := by
  rw [reverseFrom, List.take_left, List.drop_left]

/-- A loop between two rounds: the nodes that it has still to look at, the next one last, the
    state of the visitor, and the calls made so far. -/
structure Pending (σ : Type) where
  stack : List Placed
  state : σ
  calls : List (Call σ)

section
variable {σ ι : Type} [DecidableEq ι] (ident : Address → ι) (first : ι) (direct : Bool)
  (visit : Observer σ)

/-- One round of the loop, if there is something to do. A direct loop drops functions, unless
    the identifier is that of the node it started at. What is below a node goes on top of the
    stack, and there in reverse, so that the first child is next. -/
def Pending.round (m : Pending σ) : Option (Pending σ) :=
  match m.stack.getLast? with
  | none => none
  | some e =>
    if direct && ident e.1 != first && e.2.kind.isFunctionLike then
      some { m with stack := m.stack.dropLast }
    else
      match visit e m.state with
      | (.skip, s) => some ⟨m.stack.dropLast, s, m.calls ++ [(e, m.state)]⟩
      | (.descend, s) =>
        some ⟨reverseFrom m.stack.dropLast.length (m.stack.dropLast ++ placedChildren e), s,
          m.calls ++ [(e, m.state)]⟩

/-- The loop gets from one point to another in the given number of rounds. -/
inductive Rounds : Nat → Pending σ → Pending σ → Prop where
  | none {m : Pending σ} : Rounds 0 m m
  | next {n : Nat} {m m₁ m' : Pending σ} : m.round ident first direct visit = some m₁ →
      Rounds n m₁ m' → Rounds (n + 1) m m'

end

section
variable {σ ι : Type} [DecidableEq ι] {ident : Address → ι} {first : ι} {direct : Bool}
  {visit : Observer σ}

theorem Rounds.trans {n k : Nat} {m m₁ m' : Pending σ}
    (h : Rounds ident first direct visit n m m₁) (h' : Rounds ident first direct visit k m₁ m') :
    Rounds ident first direct visit (n + k) m m' := by
  induction h with
  | none =>
    rw [Nat.zero_add]
    exact h'
  | next hm _ ih =>
    rw [Nat.succ_add]
    exact .next hm (ih h')

/-- A round of a loop that drops the node on top. -/
theorem round_pass (base : List Placed) {e : Placed} {s : σ} {calls : List (Call σ)}
    (hid : ident e.1 ≠ first) (hp : PassedOver direct e.2) :
    Pending.round ident first direct visit ⟨base ++ [e], s, calls⟩ = some ⟨base, s, calls⟩ := by
  obtain ⟨hd, hf⟩ := hp
  simp [Pending.round, hd, hf, hid]

/-- A round of a loop that calls the visitor for the node on top: either the node is the one
    where the loop started, or no walk passes over it. -/
theorem round_call (base : List Placed) {e : Placed} {s s₁ : σ} {calls : List (Call σ)}
    {answer : Visit} (hp : ident e.1 = first ∨ ¬ PassedOver direct e.2)
    (hv : visit e s = (answer, s₁)) :
    Pending.round ident first direct visit ⟨base ++ [e], s, calls⟩ =
      some ⟨base ++ (if answer = .descend then (placedChildren e).reverse else []), s₁,
        calls ++ [(e, s)]⟩ := by
  have htest : ¬ (direct && ident e.1 != first && e.2.kind.isFunctionLike) = true := by
    intro htest
    simp only [Bool.and_eq_true, bne_iff_ne] at htest
    rcases hp with hp | hp
    · exact htest.1.2 hp
    · exact hp ⟨htest.1.1, htest.2⟩
  simp only [Pending.round, List.getLast?_concat, List.dropLast_concat, if_neg htest, hv,
    reverseFrom_append]
  cases answer with
  | skip => simp
  | descend => simp

end

/-- Different nodes of a tree have different identifiers. -/
def Identifies {ι : Type} (ident : Address → ι) (tree : Tree) : Prop :=
  ∀ p q, (tree.at? p).isSome → (tree.at? q).isSome → ident p = ident q → p = q

/-- A node of the tree that stands strictly below the node at an address. -/
structure Below (tree : Tree) (r : Address) (e : Placed) : Prop where
  found : tree.at? e.1 = some e.2
  under : ∃ q, q ≠ [] ∧ e.1 = r ++ q

theorem below_of_mem_placedChildren {tree : Tree} {r : Address} {e c : Placed}
    (he : tree.at? e.1 = some e.2) (hr : ∃ q, e.1 = r ++ q) (hc : c ∈ placedChildren e) :
    Below tree r c := by
  obtain ⟨i, hi, hchild⟩ := mem_placedChildren hc
  obtain ⟨q, hq⟩ := hr
  refine ⟨?_, q ++ [i], by simp, by rw [hi, hq, List.append_assoc]⟩
  rw [hi, at?_append_of_eq_some he, Tree.at?, hchild]
  rfl

theorem Below.ident_ne {ι : Type} {ident : Address → ι} {tree root : Tree} {r : Address}
    {e : Placed} (h : Below tree r e) (hident : Identifies ident tree)
    (hroot : tree.at? r = some root) : ident e.1 ≠ ident r := by
  intro heq
  obtain ⟨q, hne, hq⟩ := h.under
  have hsame := hident e.1 r (by simp [h.found]) (by simp [hroot]) heq
  rw [hq] at hsame
  exact hne (by simpa using hsame)

section
variable {σ ι : Type} [DecidableEq ι] {ident : Address → ι} {direct : Bool} {visit : Observer σ}
  {tree root : Tree} {r : Address} (hident : Identifies ident tree)
  (hroot : tree.at? r = some root)
include hident hroot

/-- **The stack holds the pending calls of the recursion.** Whatever stands under them, the loop
    gets done with some nodes below the root in the way of the recursion, with at most as many
    rounds as they have nodes. -/
theorem Visits.rounds {es : List Placed} {s s' : σ} {calls : List (Call σ)}
    (h : Visits direct visit es s calls s') (hbelow : ∀ e ∈ es, Below tree r e)
    (base : List Placed) (made : List (Call σ)) :
    ∃ n ≤ sizeAll (es.map Prod.snd), Rounds ident (ident r) direct visit n
      ⟨base ++ es.reverse, s, made⟩ ⟨base, s', made ++ calls⟩ := by
  induction h generalizing base made with
  | done => exact ⟨0, Nat.zero_le _, by simpa using .none⟩
  | @pass e rest s s' calls hp _ ih =>
    obtain ⟨n, hn, hrounds⟩ := ih (fun d hd => hbelow d (List.mem_cons_of_mem e hd)) base made
    have hid := (hbelow e List.mem_cons_self).ident_ne hident hroot
    have hsize := e.2.size_eq
    refine ⟨n + 1, ?_, ?_⟩
    · simp only [List.map_cons, sizeAll]
      omega
    · rw [List.reverse_cons, ← List.append_assoc]
      exact .next (round_pass _ hid hp) hrounds
  | @skip e rest s s₁ s' calls hno hv _ ih =>
    obtain ⟨n, hn, hrounds⟩ :=
      ih (fun d hd => hbelow d (List.mem_cons_of_mem e hd)) base (made ++ [(e, s)])
    have hsize := e.2.size_eq
    refine ⟨n + 1, ?_, ?_⟩
    · simp only [List.map_cons, sizeAll]
      omega
    · rw [List.reverse_cons, ← List.append_assoc]
      refine .next (round_call _ (.inr hno) hv) ?_
      simpa using hrounds
  | @descend e rest s s₁ s₂ s' below after hno hv _ _ ihb iha =>
    have he := hbelow e List.mem_cons_self
    have hchildren : ∀ c ∈ placedChildren e, Below tree r c := by
      intro c hc
      obtain ⟨q, -, hq⟩ := he.under
      exact below_of_mem_placedChildren he.found ⟨q, hq⟩ hc
    -- First the children, over what is left of the stack, and then what is left.
    obtain ⟨n, hn, hfirst⟩ := ihb hchildren (base ++ rest.reverse) (made ++ [(e, s)])
    obtain ⟨k, hk, hthen⟩ := iha (fun d hd => hbelow d (List.mem_cons_of_mem e hd)) base
      (made ++ [(e, s)] ++ below)
    have hsize := sizeAll_placedChildren_lt e
    refine ⟨n + k + 1, ?_, ?_⟩
    · simp only [List.map_cons, sizeAll]
      omega
    · rw [List.reverse_cons, ← List.append_assoc]
      refine .next (round_call _ (.inr hno) hv) ?_
      simpa using hfirst.trans hthen

/-- **The loop makes the calls of the recursive walk and ends**, after at most as many rounds
    as there are nodes. -/
theorem VisitsFrom.rounds {s s' : σ} {calls : List (Call σ)}
    (h : VisitsFrom direct visit (r, root) s calls s') :
    ∃ n ≤ root.size, Rounds ident (ident r) direct visit n ⟨[(r, root)], s, []⟩
      ⟨[], s', calls⟩ := by
  have hsize : sizeAll ((placedChildren (r, root)).map Prod.snd) < root.size :=
    sizeAll_placedChildren_lt (r, root)
  cases h with
  | skip hv => exact ⟨1, by omega, .next (round_call [] (.inl rfl) hv) .none⟩
  | @descend s₁ _ calls hv h =>
    have hchildren : ∀ c ∈ placedChildren (r, root), Below tree r c := by
      intro c hc
      exact below_of_mem_placedChildren hroot ⟨[], by simp⟩ hc
    obtain ⟨n, hn, hrounds⟩ := h.rounds hident hroot hchildren [] [((r, root), s)]
    refine ⟨n + 1, by omega, .next (round_call [] (.inl rfl) hv) ?_⟩
    simpa using hrounds

end

/-! ## Visitors that never skip -/

/-- What a walk from a node sees, where it stands, in document order. -/
def nodesFrom (direct : Bool) (e : Placed) : List Placed :=
  (e.2.addressed direct).map fun d => (e.1 ++ d.1, d.2)

/-- What a walk sees of a node that it may pass over. -/
def nodesUnlessPassed (direct : Bool) (e : Placed) : List Placed :=
  if PassedOver direct e.2 then [] else nodesFrom direct e

theorem enters_iff {direct : Bool} {t : Tree} :
    enters direct t = true ↔ t.named = true ∧ ¬ PassedOver direct t := by
  cases direct <;> simp [enters, PassedOver]

/-- Below a node a walk sees what it sees of the children, one after the other. -/
theorem flatMap_nodesUnlessPassed (direct : Bool) (p : Address) (ts : List Tree) (i : Nat) :
    (((ts.zipIdx i).filter fun c => c.1.named).map fun c => (p ++ [c.2], c.1)).flatMap
        (nodesUnlessPassed direct) =
      (addressedFrom direct i ts).map fun d => (p ++ d.1, d.2) := by
  induction ts generalizing i with
  | nil => rfl
  | cons t ts ih =>
    rw [List.zipIdx_cons, List.filter_cons, addressedFrom, List.map_append, ← ih (i + 1)]
    by_cases hn : t.named = true
    · rw [if_pos hn, List.map_cons, List.flatMap_cons]
      congr 1
      by_cases hp : PassedOver direct t
      · rw [nodesUnlessPassed, if_pos hp, if_neg fun h => (enters_iff.mp h).2 hp]
        rfl
      · rw [nodesUnlessPassed, if_neg hp, if_pos (enters_iff.mpr ⟨hn, hp⟩), nodesFrom,
          List.map_map]
        simp [Function.comp_def]
    · rw [if_neg hn, if_neg fun h => hn (enters_iff.mp h).1]
      rfl

theorem nodesFrom_eq (direct : Bool) (e : Placed) :
    nodesFrom direct e = e :: (placedChildren e).flatMap (nodesUnlessPassed direct) := by
  rw [placedChildren, flatMap_nodesUnlessPassed, nodesFrom, Tree.addressed_eq, List.map_cons,
    List.append_nil]

section
variable {σ : Type} {direct : Bool} {visit : Observer σ}
  (hvisit : ∀ e s, (visit e s).1 = .descend)
include hvisit

theorem Visits.places {es : List Placed} {s s' : σ} {calls : List (Call σ)}
    (h : Visits direct visit es s calls s') :
    calls.map Prod.fst = es.flatMap (nodesUnlessPassed direct) := by
  induction h with
  | done => rfl
  | pass hp _ ih => rw [List.flatMap_cons, nodesUnlessPassed, if_pos hp, ih, List.nil_append]
  | @skip e _ s _ _ _ _ hv =>
    have hskip := hvisit e s
    rw [hv] at hskip
    cases hskip
  | descend hno _ _ _ ihb iha =>
    rw [List.map_cons, List.map_append, ihb, iha, List.flatMap_cons, nodesUnlessPassed,
      if_neg hno, nodesFrom_eq, List.cons_append]

/-- A visitor that never skips sees all nodes of the walk. -/
theorem VisitsFrom.places {root : Placed} {s s' : σ} {calls : List (Call σ)}
    (h : VisitsFrom direct visit root s calls s') :
    calls.map Prod.fst = nodesFrom direct root := by
  cases h with
  | skip hv =>
    have hskip := hvisit root s
    rw [hv] at hskip
    cases hskip
  | descend _ h => rw [List.map_cons, h.places hvisit, nodesFrom_eq]

end

theorem mem_nodesFrom_iff {direct : Bool} {root t : Tree} {r p : Address} :
    (p, t) ∈ nodesFrom direct (r, root) ↔ ∃ q, p = r ++ q ∧ Reached direct root q t := by
  rw [nodesFrom, List.mem_map]
  constructor
  · rintro ⟨⟨q, u⟩, hu, heq⟩
    obtain ⟨rfl, rfl⟩ := Prod.mk.inj heq
    exact ⟨q, rfl, mem_addressed_iff.mp hu⟩
  · rintro ⟨q, rfl, hq⟩
    exact ⟨(q, t), mem_addressed_iff.mpr hq, rfl⟩

theorem nodesFrom_sorted (direct : Bool) (e : Placed) :
    (nodesFrom direct e).Pairwise fun a b => a.1 < b.1 := by
  rw [nodesFrom, List.pairwise_map]
  exact (addressed_sorted direct e.2).imp fun h => List.append_left_lt h

/-! ## Refinement -/

/-- **The walk over a stack is the recursive walk.** For every node of a tree whose nodes have
    different identifiers, and every visitor, the recursive walk makes one list of calls and
    ends in one state. The loop that knows its root by the identifier makes the same calls and
    is done, in that state, after at most as many rounds as there are nodes; so does
    `traverseFrom`, for a visitor that looks at the nodes alone. If the visitor never skips, it
    is called once for each node that the walk reaches, in document order; of a walk that is
    not direct these are the root and all named nodes below it, if bare tokens have no parts. -/
theorem traversal_refines_recursion {σ ι : Type} [DecidableEq ι] (tree root : Tree)
    (ident : Address → ι) (hident : Identifies ident tree) (r : Address)
    (hroot : tree.at? r = some root) (direct : Bool) (visit : Observer σ) (s : σ) :
    ∃ calls s',
      (∀ calls' s'', VisitsFrom direct visit (r, root) s calls' s'' ↔
        calls' = calls ∧ s'' = s') ∧
      (∃ n ≤ root.size, Rounds ident (ident r) direct visit n ⟨[(r, root)], s, []⟩
        ⟨[], s', calls⟩) ∧
      (∀ v : Visitor σ, visit = v.observe →
        traverseFrom direct v root s = s' ∧
        traverseFrom direct (logging v) root (s, []) = (s', calls.map Call.unplaced)) ∧
      ((∀ e s, (visit e s).1 = .descend) →
        (calls.map Prod.fst).Pairwise (fun a b => a.1 < b.1) ∧
        (∀ p t, (p, t) ∈ calls.map Prod.fst ↔ ∃ q, p = r ++ q ∧ Reached direct root q t) ∧
        (direct = false → LeafTokens root → ∀ p t, (p, t) ∈ calls.map Prod.fst ↔
          ∃ q, p = r ++ q ∧ root.at? q = some t ∧ (q = [] ∨ t.named = true))) := by
  obtain ⟨calls, s', h⟩ := exists_visitsFrom direct visit (r, root) s
  refine ⟨calls, s', ?_, h.rounds hident hroot, ?_, ?_⟩
  · intro calls' s''
    constructor
    · exact h.unique
    · rintro ⟨rfl, rfl⟩
      exact h
  · rintro v rfl
    exact ⟨h.traverseFrom_eq, h.traverseFrom_logging⟩
  · intro hvisit
    rw [h.places hvisit]
    refine ⟨nodesFrom_sorted direct _, fun p t => mem_nodesFrom_iff, ?_⟩
    rintro rfl hleaf p t
    simp only [mem_nodesFrom_iff, hleaf.reached_iff]

/-- Counts the nodes that it sees, and skips every third one. -/
def skipThird : Visitor Nat := fun _ n =>
  (if n % 3 = 2 then .skip else .descend, n + 1)

/-- Counts the nodes that it sees. -/
def countNodes : Visitor Nat := fun _ n =>
  (.descend, n + 1)

/-- A direct walk from an arrow function with another one in it, and a walk over a whole
    tree. -/
theorem traversal_refines_recursion_nested :
    (∃ root, sampleTree.at? [1, 0, 1, 1, 0] = some root ∧ root.kind = .arrowFunction ∧
      Identifies id sampleTree ∧ ∃ calls s',
        VisitsFrom true skipThird.observe ([1, 0, 1, 1, 0], root) 0 calls s' ∧
        (∃ n ≤ root.size, Rounds id [1, 0, 1, 1, 0] true skipThird.observe n
          ⟨[([1, 0, 1, 1, 0], root)], 0, []⟩ ⟨[], s', calls⟩) ∧
        walkScope skipThird root 0 = s') ∧
    Identifies id nestedTree ∧ LeafTokens nestedTree ∧ ∃ (calls : List (Call Nat)) (s' : Nat),
      walk countNodes nestedTree 0 = s' ∧
      (calls.map Prod.fst).Pairwise (fun a b => a.1 < b.1) ∧
      (∀ p t, (p, t) ∈ calls.map Prod.fst ↔
        ∃ q, p = [] ++ q ∧ nestedTree.at? q = some t ∧ (q = [] ∨ t.named = true)) ∧
      traverseFrom false (logging countNodes) nestedTree (0, []) =
        (s', calls.map Call.unplaced) := by
  have hident : ∀ tree, Identifies (id : Address → Address) tree := fun _ _ _ _ _ h => h
  have hleaf : LeafTokens nestedTree := nestedTree_fits.2.1.token_leaf
  refine ⟨?_, hident _, hleaf, ?_⟩
  · have hinner : (sampleTree.at? [1, 0, 1, 1, 0]).map Tree.kind = some .arrowFunction := by
      decide +kernel
    obtain ⟨root, hroot, hkind⟩ := Option.map_eq_some_iff.mp hinner
    obtain ⟨calls, s', hvisits, hrounds, hwalk, -⟩ := traversal_refines_recursion sampleTree root
      id (hident _) [1, 0, 1, 1, 0] hroot true skipThird.observe 0
    exact ⟨root, hroot, hkind, hident _, calls, s',
      (hvisits calls s').mpr ⟨rfl, rfl⟩, hrounds, (hwalk skipThird rfl).1⟩
  · obtain ⟨calls, s', -, -, hwalk, hall⟩ := traversal_refines_recursion nestedTree nestedTree
      id (hident _) [] rfl false countNodes.observe 0
    obtain ⟨hordered, -, hnamed⟩ := hall fun _ _ => rfl
    obtain ⟨hstate, hcalls⟩ := hwalk countNodes rfl
    exact ⟨calls, s', hstate, hordered, hnamed rfl hleaf, hcalls⟩

end RoleLint
