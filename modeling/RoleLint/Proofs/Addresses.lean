import Mathlib.Data.List.Lex
import RoleLint.Proofs.Walk

/- Nodes by where they stand. Trees are values, and equal ones may stand at several places
   of a tree; the address of a node tells these apart. It lists the numbers of the children
   on the way from the root to the node, so the nodes in document order are their addresses
   in the order of a dictionary.

   1. `Tree.at?` - the node at an address; `FirstChild` - the child that a search by a field
      or for an expression finds.
   2. `Reached` - the nodes that a walk sees, by address; `Reached.isFunctionLike_eq_false` -
      a direct walk passes no function on its way.
   3. `Tree.addressed`, `mem_addressed_iff`, `addressed_sorted` - these nodes as a list in
      document order.
   4. `Recorded`, `exists_recorded`, `exists_recorded_below` - what a visitor that writes down
      at most one thing at each node, or about one node below it, has written down at the end.
   5. `FirstAt`, `find?_preorder_eq_some_iff` - what a search for the first node finds. -/
namespace RoleLint

/-- The way from a node to one below it: the number of the child to go to, at each step. -/
abbrev Address : Type := List Nat

/-! ## Nodes at addresses -/

/-- The node at an address. -/
def Tree.at? : Tree → Address → Option Tree
  | t, [] => some t
  | t, i :: p => t.children[i]?.bind fun c => c.at? p

theorem Tree.at?_append (t : Tree) (p q : Address) :
    t.at? (p ++ q) = (t.at? p).bind fun u => u.at? q := by
  induction p generalizing t with
  | nil => rfl
  | cons i p ih =>
    rw [List.cons_append, Tree.at?, Tree.at?, Option.bind_assoc]
    congr 1
    funext c
    exact ih c

theorem at?_append_of_eq_some {t u : Tree} {p : Address} (h : t.at? p = some u) (q : Address) :
    t.at? (p ++ q) = u.at? q := by
  rw [Tree.at?_append, h, Option.bind_some]

theorem within_of_at? {t u : Tree} {p : Address} (h : t.at? p = some u) : Within t u := by
  induction p generalizing t with
  | nil =>
    cases h
    exact .root
  | cons i p ih =>
    obtain ⟨c, hc, hu⟩ := Option.bind_eq_some_iff.mp h
    exact (Within.child .root (List.mem_of_getElem? hc)).trans (ih hu)

theorem exists_at?_of_within {t u : Tree} (h : Within t u) : ∃ p, t.at? p = some u := by
  induction h with
  | root => exact ⟨[], rfl⟩
  | child _ hc ih =>
    obtain ⟨p, hp⟩ := ih
    obtain ⟨i, hi⟩ := List.mem_iff_getElem?.mp hc
    refine ⟨p ++ [i], ?_⟩
    rw [at?_append_of_eq_some hp, Tree.at?, hi]
    rfl

/-- The child with the number `i` is the first one that passes a test. -/
structure FirstChild (test : Tree → Bool) (t : Tree) (i : Nat) (c : Tree) : Prop where
  child : t.children[i]? = some c
  passes : test c = true
  first : ∀ j d, j < i → t.children[j]? = some d → test d = false

/-- The child with the number `i` is the one that fills a field. -/
abbrev FieldAt (t : Tree) (f : Field) : Nat → Tree → Prop :=
  FirstChild (fun c => c.field == some f) t

/-- The child with the number `i` is the first expression. -/
abbrev ExpressionAt : Tree → Nat → Tree → Prop :=
  FirstChild fun c => c.named && c.kind != .comment

theorem FirstChild.unique {test : Tree → Bool} {t c d : Tree} {i j : Nat}
    (h : FirstChild test t i c) (h' : FirstChild test t j d) : i = j ∧ c = d := by
  have hij : i = j := by
    rcases Nat.lt_trichotomy i j with hlt | heq | hlt
    · have hfails := h'.first i c hlt h.child
      rw [h.passes] at hfails
      cases hfails
    · exact heq
    · have hfails := h.first j d hlt h'.child
      rw [h'.passes] at hfails
      cases hfails
  subst hij
  exact ⟨rfl, Option.some.inj (h.child.symm.trans h'.child)⟩

theorem find?_children_eq_some_iff {test : Tree → Bool} {t c : Tree} :
    t.children.find? test = some c ↔ ∃ i, FirstChild test t i c := by
  rw [List.find?_eq_some_iff_getElem]
  constructor
  · intro ⟨hc, i, hi, hget, hfirst⟩
    refine ⟨i, List.getElem?_eq_some_iff.mpr ⟨hi, hget⟩, hc, ?_⟩
    intro j d hj hd
    obtain ⟨_, rfl⟩ := List.getElem?_eq_some_iff.mp hd
    simpa using hfirst j hj
  · intro ⟨i, h⟩
    obtain ⟨hi, hget⟩ := List.getElem?_eq_some_iff.mp h.child
    refine ⟨h.passes, i, hi, hget, ?_⟩
    intro j hj
    have := h.first j _ hj (List.getElem?_eq_getElem (by omega))
    simpa using this

theorem child?_eq_some_iff {t c : Tree} {f : Field} :
    t.child? f = some c ↔ ∃ i, FieldAt t f i c :=
  find?_children_eq_some_iff

theorem firstExpression?_eq_some_iff {t e : Tree} :
    t.firstExpression? = some e ↔ ∃ i, ExpressionAt t i e := by
  rw [← find?_children_eq_some_iff, Tree.firstExpression?, Tree.namedChildren, List.find?_filter]
  simp only [Bool.decide_and, Bool.decide_eq_true]

/-! ## Nodes that a walk sees -/

/-- The walk from a root sees the node at an address: every step goes to a child that the
    walk enters. -/
inductive Reached (direct : Bool) : Tree → Address → Tree → Prop where
  | root {t : Tree} : Reached direct t [] t
  | child {t c u : Tree} {i : Nat} {p : Address} : t.children[i]? = some c →
      enters direct c = true → Reached direct c p u → Reached direct t (i :: p) u

theorem Reached.at? {direct : Bool} {root t : Tree} {p : Address} (h : Reached direct root p t) :
    root.at? p = some t := by
  induction h with
  | root => rfl
  | child hc _ _ ih => rw [Tree.at?, hc, Option.bind_some, ih]

/-- An address leads to one node. -/
theorem Reached.unique {direct : Bool} {root t u : Tree} {p : Address}
    (h : Reached direct root p t) (h' : Reached direct root p u) : t = u :=
  Option.some.inj (h.at?.symm.trans h'.at?)

/-- A direct walk passes no function on its way, the root apart. -/
theorem Reached.isFunctionLike_eq_false {root t g : Tree} {p q : Address}
    (h : Reached true root (p ++ q) t) (hp : p ≠ []) (hg : root.at? p = some g) :
    g.kind.isFunctionLike = false := by
  induction p generalizing root with
  | nil => exact absurd rfl hp
  | cons i p ih =>
    cases h with
    | child hc he h =>
      rw [Tree.at?, hc, Option.bind_some] at hg
      cases p with
      | nil =>
        cases hg
        simp only [enters, Bool.true_and, Bool.and_eq_true, Bool.not_eq_true'] at he
        exact he.2
      | cons j p => exact ih h (List.cons_ne_nil j p) hg

/-! ## Nodes in document order -/

mutual

/-- A node and the nodes below it that a walk sees, with their addresses, in document
    order. -/
def Tree.addressed (direct : Bool) : Tree → List (Address × Tree)
  | .node k f n a b w cs => ([], .node k f n a b w cs) :: addressedFrom direct 0 cs

/-- The same for those trees of a list that a walk goes to, the first of them being the
    child with the given number. -/
def addressedFrom (direct : Bool) : Nat → List Tree → List (Address × Tree)
  | _, [] => []
  | i, t :: ts =>
    (if enters direct t then (t.addressed direct).map fun e => (i :: e.1, e.2) else []) ++
      addressedFrom direct (i + 1) ts

end

theorem Tree.addressed_eq (direct : Bool) (t : Tree) :
    t.addressed direct = ([], t) :: addressedFrom direct 0 t.children := by
  cases t with
  | node k f n a b w cs => rw [Tree.addressed]; rfl

/-- Without the addresses it is the list of the nodes in document order. -/
theorem map_snd_addressed (direct : Bool) (t : Tree) :
    (t.addressed direct).map Prod.snd = t.preorder direct := by
  induction t using Tree.induct with
  | step t ih =>
    have below : ∀ (ts : List Tree) (i : Nat), (∀ c ∈ ts, c ∈ t.children) →
        (addressedFrom direct i ts).map Prod.snd =
          (ts.filter (enters direct)).flatMap (Tree.preorder direct) := by
      intro ts
      induction ts with
      | nil => intro i _; rfl
      | cons c ts ihts =>
        intro i hmem
        have hc := ih c (hmem c List.mem_cons_self)
        have hts := ihts (i + 1) fun d hd => hmem d (List.mem_cons_of_mem c hd)
        rw [addressedFrom, List.map_append, hts, List.filter_cons]
        split
        · rw [List.flatMap_cons, ← hc, List.map_map]
          rfl
        · rfl
    rw [Tree.addressed_eq, Tree.preorder_eq, List.map_cons, below t.children 0 fun c hc => hc]
    rfl

theorem mem_addressedFrom_iff {direct : Bool} {i : Nat} {ts : List Tree} {p : Address} {u : Tree} :
    (p, u) ∈ addressedFrom direct i ts ↔ ∃ j c q, ts[j]? = some c ∧ enters direct c = true ∧
      (q, u) ∈ c.addressed direct ∧ p = (i + j) :: q := by
  induction ts generalizing i with
  | nil => simp [addressedFrom]
  | cons t ts ih =>
    rw [addressedFrom, List.mem_append, ih]
    constructor
    · intro h
      rcases h with h | ⟨j, c, q, hc, he, hq, rfl⟩
      · split at h
        · next he =>
          obtain ⟨⟨q, v⟩, hq, heq⟩ := List.mem_map.mp h
          cases heq
          exact ⟨0, t, q, rfl, he, hq, rfl⟩
        · cases h
      · exact ⟨j + 1, c, q, hc, he, hq, by rw [Nat.add_assoc, Nat.add_comm 1]⟩
    · intro h
      obtain ⟨j, c, q, hc, he, hq, rfl⟩ := h
      cases j with
      | zero =>
        cases hc
        rw [if_pos he]
        exact .inl (List.mem_map.mpr ⟨(q, u), hq, rfl⟩)
      | succ j => exact .inr ⟨j, c, q, hc, he, hq, by rw [Nat.add_assoc, Nat.add_comm 1]⟩

theorem mem_addressed_iff {direct : Bool} {root t : Tree} {p : Address} :
    (p, t) ∈ root.addressed direct ↔ Reached direct root p t := by
  induction root using Tree.induct generalizing p with
  | step root ih =>
    rw [Tree.addressed_eq, List.mem_cons, mem_addressedFrom_iff]
    constructor
    · intro h
      rcases h with h | ⟨j, c, q, hc, he, hq, rfl⟩
      · cases h
        exact .root
      · rw [Nat.zero_add]
        exact .child hc he ((ih c (List.mem_of_getElem? hc)).mp hq)
    · intro h
      cases h with
      | root => exact .inl rfl
      | @child _ c _ i q hc he h =>
        refine .inr ⟨i, c, q, hc, he, (ih c (List.mem_of_getElem? hc)).mpr h, ?_⟩
        rw [Nat.zero_add]

/-- The direct scope of a root, by address. -/
theorem inScope_iff_reached {root t : Tree} : InScope root t ↔ ∃ p, Reached true root p t := by
  rw [← mem_preorder_true_iff, ← map_snd_addressed, List.mem_map]
  constructor
  · intro h
    obtain ⟨⟨p, u⟩, hu, rfl⟩ := h
    exact ⟨p, mem_addressed_iff.mp hu⟩
  · intro ⟨p, hp⟩
    exact ⟨(p, t), mem_addressed_iff.mpr hp, rfl⟩

/-- **Document order is the order of the addresses.** -/
theorem addressed_sorted (direct : Bool) (t : Tree) :
    (t.addressed direct).Pairwise fun a b => a.1 < b.1 := by
  induction t using Tree.induct with
  | step t ih =>
    -- The addresses below one child start with its number, and the numbers go up.
    have below : ∀ (ts : List Tree) (i : Nat), (∀ c ∈ ts, c ∈ t.children) →
        (addressedFrom direct i ts).Pairwise fun a b => a.1 < b.1 := by
      intro ts
      induction ts with
      | nil => intro i _; exact .nil
      | cons c ts ihts =>
        intro i hmem
        have hts := ihts (i + 1) fun d hd => hmem d (List.mem_cons_of_mem c hd)
        rw [addressedFrom]
        split
        · rw [List.pairwise_append]
          refine ⟨?_, hts, ?_⟩
          · rw [List.pairwise_map]
            refine (ih c (hmem c List.mem_cons_self)).imp fun {a b} hab => ?_
            exact List.cons_lt_cons_iff.mpr (.inr ⟨rfl, hab⟩)
          · intro a ha b hb
            obtain ⟨e, -, rfl⟩ := List.mem_map.mp ha
            obtain ⟨j, d, q, -, -, -, hq⟩ := mem_addressedFrom_iff.mp hb
            rw [hq]
            exact List.cons_lt_cons_iff.mpr (.inl (by omega))
        · exact hts
    rw [Tree.addressed_eq, List.pairwise_cons]
    refine ⟨?_, below t.children 0 fun c hc => hc⟩
    intro b hb
    obtain ⟨j, c, q, -, -, -, hq⟩ := mem_addressedFrom_iff.mp hb
    rw [hq]
    exact List.nil_lt_cons _ _

/-! ## What walks write down -/

/-- The record of a walk: an entry with the address for each node that the walk sees and
    that stands in the relation `P` to something, in document order. -/
structure Recorded {α : Type} (direct : Bool) (root : Tree) (P : Tree → α → Prop)
    (entries : List (Address × α)) : Prop where
  ordered : entries.Pairwise fun a b => a.1 < b.1
  exact : ∀ p x, (p, x) ∈ entries ↔ ∃ t, Reached direct root p t ∧ P t x

/-- Taking down what `f` gives at each node makes a record. -/
theorem exists_recorded {α : Type} {f : Tree → Option α} {P : Tree → α → Prop}
    (hf : ∀ t x, f t = some x ↔ P t x) (direct : Bool) (root : Tree) :
    ∃ entries, Recorded direct root P entries ∧
      (root.preorder direct).filterMap f = entries.map Prod.snd := by
  refine ⟨(root.addressed direct).filterMap fun e => (f e.2).map (e.1, ·), ⟨?_, ?_⟩, ?_⟩
  · rw [List.pairwise_filterMap]
    refine (addressed_sorted direct root).imp fun {a b} hab x hx y hy => ?_
    obtain ⟨_, _, rfl⟩ := Option.map_eq_some_iff.mp hx
    obtain ⟨_, _, rfl⟩ := Option.map_eq_some_iff.mp hy
    exact hab
  · intro p x
    rw [List.mem_filterMap]
    constructor
    · intro ⟨⟨q, t⟩, ht, hx⟩
      obtain ⟨y, hy, heq⟩ := Option.map_eq_some_iff.mp hx
      cases heq
      exact ⟨t, mem_addressed_iff.mp ht, (hf t x).mp hy⟩
    · intro ⟨t, ht, hx⟩
      refine ⟨(p, t), mem_addressed_iff.mpr ht, ?_⟩
      rw [(hf t x).mpr hx]
      rfl
  · rw [← map_snd_addressed, List.filterMap_map, List.map_filterMap]
    congr 1
    funext e
    rw [Option.map_map, Function.comp]
    exact (Option.map_id' (x := f e.2)).symm

/-- The same where each entry is about something below the node: the address goes on from
    the node's by `w`. -/
theorem exists_recorded_below {α : Type} {f : Tree → Option α} {P : Tree → Address → α → Prop}
    (hf : ∀ t x, f t = some x ↔ ∃ w, P t w x)
    (hunique : ∀ t w w' x x', P t w x → P t w' x' → w = w' ∧ x = x') (direct : Bool)
    (root : Tree) :
    ∃ entries : List (Address × α), (root.preorder direct).filterMap f = entries.map Prod.snd ∧
      ∀ p x, (p, x) ∈ entries ↔ ∃ q t w, Reached direct root q t ∧ P t w x ∧ p = q ++ w := by
  have hpart : ∀ t, ∃ o : Option (Address × α), (∀ e, o = some e ↔ P t e.1 e.2) ∧
      f t = o.map Prod.snd := by
    intro t
    cases hx : f t with
    | none =>
      refine ⟨none, ?_, rfl⟩
      intro e
      constructor
      · intro h
        cases h
      · intro h
        rw [(hf t e.2).mpr ⟨e.1, h⟩] at hx
        cases hx
    | some x =>
      obtain ⟨w, hw⟩ := (hf t x).mp hx
      refine ⟨some (w, x), ?_, rfl⟩
      intro e
      constructor
      · intro h
        obtain rfl := Option.some.inj h
        exact hw
      · intro h
        obtain ⟨hwe, hxe⟩ := hunique t w e.1 x e.2 hw h
        rw [hwe, hxe]
  obtain ⟨g, hg⟩ := Classical.axiomOfChoice hpart
  obtain ⟨entries, hrecorded, hentries⟩ := exists_recorded (fun t => (hg t).1) direct root
  refine ⟨entries.map fun e => (e.1 ++ e.2.1, e.2.2), ?_, ?_⟩
  · have hf : f = fun t => (g t).map Prod.snd := funext fun t => (hg t).2
    rw [hf, ← List.map_filterMap, hentries, List.map_map, List.map_map]
    rfl
  · intro p x
    rw [List.mem_map]
    constructor
    · intro ⟨⟨q, w, y⟩, he, heq⟩
      obtain ⟨rfl, rfl⟩ := Prod.mk.inj heq
      obtain ⟨t, ht, hP⟩ := (hrecorded.exact q (w, y)).mp he
      exact ⟨q, t, w, ht, hP, rfl⟩
    · intro h
      obtain ⟨q, t, w, ht, hP, rfl⟩ := h
      exact ⟨(q, w, x), (hrecorded.exact q (w, x)).mpr ⟨t, ht, hP⟩, rfl⟩

/-- The first node that a walk sees with a property. -/
structure FirstAt (direct : Bool) (root : Tree) (P : Tree → Prop) (p : Address) (t : Tree) :
    Prop where
  reached : Reached direct root p t
  holds : P t
  least : ∀ q u, Reached direct root q u → P u → p ≤ q

theorem FirstAt.unique {direct : Bool} {root t u : Tree} {P : Tree → Prop} {p q : Address}
    (h : FirstAt direct root P p t) (h' : FirstAt direct root P q u) : p = q ∧ t = u := by
  have hpq : p = q :=
    le_antisymm (h.least q u h'.reached h'.holds) (h'.least p t h.reached h.holds)
  subst hpq
  exact ⟨rfl, h.reached.unique h'.reached⟩

/-- A search in document order that finds something finds the first one. -/
theorem firstAt_of_find? {direct : Bool} {root t : Tree} {test : Tree → Bool}
    (h : (root.preorder direct).find? test = some t) :
    ∃ p, FirstAt direct root (fun u => test u = true) p t := by
  rw [← map_snd_addressed, List.find?_map] at h
  obtain ⟨⟨p, u⟩, hfind, hu⟩ := Option.map_eq_some_iff.mp h
  obtain rfl : u = t := hu
  obtain ⟨htest, before, after, hsplit, hbefore⟩ := List.find?_eq_some_iff_append.mp hfind
  have hsorted := addressed_sorted direct root
  rw [hsplit] at hsorted
  have hmem : (p, u) ∈ root.addressed direct := by
    rw [hsplit]
    exact List.mem_append_right before List.mem_cons_self
  refine ⟨p, mem_addressed_iff.mp hmem, htest, ?_⟩
  intro q v hv hvtest
  have hvmem := mem_addressed_iff.mpr hv
  rw [hsplit, List.mem_append, List.mem_cons] at hvmem
  rcases hvmem with hv' | heq | hv'
  · have hno : test v = false := by simpa using hbefore (q, v) hv'
    rw [hno] at hvtest
    cases hvtest
  · cases heq
    exact le_refl p
  · have hlt := (List.pairwise_cons.mp (List.pairwise_append.mp hsorted).2.1).1 (q, v) hv'
    exact le_of_lt hlt

theorem find?_preorder_ne_none {direct : Bool} {root t : Tree} {test : Tree → Bool} {p : Address}
    (h : Reached direct root p t) (ht : test t = true) :
    (root.preorder direct).find? test ≠ none := by
  intro hnone
  rw [← map_snd_addressed, List.find?_eq_none] at hnone
  exact hnone t (List.mem_map.mpr ⟨(p, t), mem_addressed_iff.mpr h, rfl⟩) ht

theorem find?_preorder_eq_some_iff {direct : Bool} {root t : Tree} {test : Tree → Bool} :
    (root.preorder direct).find? test = some t ↔
      ∃ p, FirstAt direct root (fun u => test u = true) p t := by
  refine ⟨firstAt_of_find?, ?_⟩
  intro ⟨p, h⟩
  obtain ⟨u, hu⟩ := Option.ne_none_iff_exists'.mp (find?_preorder_ne_none h.reached h.holds)
  obtain ⟨q, hq⟩ := firstAt_of_find? hu
  rw [hu, (h.unique hq).2]

end RoleLint
