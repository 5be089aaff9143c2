import Mathlib.Data.List.Nodup
import RoleLint.Proofs.Traversal

/- The scopes of a tree. A walk from a root comes through the root and through functions below
   it, to any depth; direct walks from each of these, taken together, see what that walk sees,
   and no node twice.

   1. `Tree.functionsBelow`, `Tree.scopes` - the functions that a walk comes through, and the
      nodes that scopes start at.
   2. `Reached.exists_scopeTop`, `ScopeTop.unique` - every node stands in the scope of the
      nearest function around it, and in no other.
   3. `nodesFrom_perm_scopes`, `flatMap_scopes_nodup` - so the scopes are a partition.
   4. `visited`, `visited_eq` - what walks with visitors that never skip see of it.
   5. `scopes_partition` - all of this for the calls that walks make. -/
namespace RoleLint

/-! ## Where scopes start -/

/-- The functions that a walk sees strictly below its root, where they stand. -/
def Tree.functionsBelow (root : Tree) : List Placed :=
  (addressedFrom false 0 root.children).filter fun e => e.2.kind.isFunctionLike

/-- The nodes that scopes start at: the root and the functions below it. -/
def Tree.scopes (root : Tree) : List Placed :=
  ([], root) :: root.functionsBelow

/-- A scope starts at a node that a walk from the root sees. -/
structure ScopeTop (root : Tree) (e : Placed) : Prop where
  reached : Reached false root e.1 e.2
  starts : e.1 = [] ∨ e.2.kind.isFunctionLike = true

theorem mem_functionsBelow_iff {root f : Tree} {q : Address} :
    (q, f) ∈ root.functionsBelow ↔
      Reached false root q f ∧ q ≠ [] ∧ f.kind.isFunctionLike = true := by
  rw [Tree.functionsBelow, List.mem_filter, ← mem_addressed_iff, Tree.addressed_eq, List.mem_cons]
  constructor
  · intro ⟨hmem, hf⟩
    obtain ⟨j, c, r, -, -, -, rfl⟩ := mem_addressedFrom_iff.mp hmem
    exact ⟨.inr hmem, List.cons_ne_nil _ r, hf⟩
  · intro ⟨hmem, hne, hf⟩
    rcases hmem with hmem | hmem
    · exact absurd (Prod.mk.inj hmem).1 hne
    · exact ⟨hmem, hf⟩

theorem mem_scopes_iff {root : Tree} {e : Placed} : e ∈ root.scopes ↔ ScopeTop root e := by
  obtain ⟨q, f⟩ := e
  rw [Tree.scopes, List.mem_cons, mem_functionsBelow_iff]
  constructor
  · intro h
    rcases h with h | ⟨hq, -, hf⟩
    · cases h
      exact ⟨.root, .inl rfl⟩
    · exact ⟨hq, .inr hf⟩
  · intro ⟨hq, htop⟩
    by_cases hne : q = []
    · subst hne
      cases hq
      exact .inl rfl
    · exact .inr ⟨hq, hne, htop.resolve_left hne⟩

theorem nodup_of_sorted {l : List Placed} (h : l.Pairwise fun a b => a.1 < b.1) : l.Nodup := by
  refine h.imp ?_
  rintro a _ hlt rfl
  exact List.lt_irrefl a.1 hlt

theorem scopes_nodup (root : Tree) : root.scopes.Nodup := by
  have hsub : root.scopes.Sublist (root.addressed false) := by
    rw [Tree.addressed_eq, Tree.scopes]
    exact List.Sublist.cons_cons _ List.filter_sublist
  exact hsub.nodup (nodup_of_sorted (addressed_sorted false root))

/-! ## The nearest function -/

/-- A walk sees what a direct walk sees. -/
theorem Reached.of_direct {root t : Tree} {p : Address} (h : Reached true root p t) :
    Reached false root p t := by
  induction h with
  | root => exact .root
  | child hc he _ ih => exact .child hc (by simpa [enters] using (enters_iff.mp he).1) ih

theorem Reached.append {direct : Bool} {root t u : Tree} {p q : Address}
    (h : Reached direct root p t) (h' : Reached direct t q u) :
    Reached direct root (p ++ q) u := by
  induction h with
  | root => exact h'
  | child hc he _ ih => exact .child hc he (ih h')

/-- Every node stands in a scope. -/
theorem Reached.exists_scopeTop {root t : Tree} {p : Address} (h : Reached false root p t) :
    ∃ e, ScopeTop root e ∧ (p, t) ∈ nodesFrom true e := by
  induction h with
  | @root root => exact ⟨([], root), ⟨.root, .inl rfl⟩, mem_nodesFrom_iff.mpr ⟨[], rfl, .root⟩⟩
  | @child root c t i p hc he _ ih =>
    obtain ⟨⟨q, f⟩, htop, hmem⟩ := ih
    obtain ⟨r, rfl, hr⟩ := mem_nodesFrom_iff.mp hmem
    by_cases hf : f.kind.isFunctionLike = true
    · have htop' : ScopeTop root (i :: q, f) := ⟨.child hc he htop.reached, .inr hf⟩
      exact ⟨_, htop', mem_nodesFrom_iff.mpr ⟨r, rfl, hr⟩⟩
    · -- The scope starts at the child, which is no function: the scope of the parent goes on.
      obtain rfl : q = [] := htop.starts.resolve_right hf
      obtain rfl : c = f := Option.some.inj htop.reached.at?
      have hdirect : enters true c = true :=
        enters_iff.mpr ⟨(enters_iff.mp he).1, fun hpassed => hf hpassed.2⟩
      refine ⟨([], root), ⟨.root, .inl rfl⟩, mem_nodesFrom_iff.mpr ?_⟩
      exact ⟨i :: r, rfl, .child hc hdirect hr⟩

/-- No scope starts inside another one. -/
theorem ScopeTop.not_inside {root f f' t : Tree} {q a b : Address} (h : ScopeTop root (q, f))
    (h' : ScopeTop root (q ++ a, f')) (ht : Reached true f (a ++ b) t) : a = [] := by
  by_contra hne
  have hf' : f.at? a = some f' := by
    rw [← at?_append_of_eq_some h.reached.at?]
    exact h'.reached.at?
  rcases h'.starts with hnil | hfun
  · exact hne (List.append_eq_nil_iff.mp hnil).2
  · rw [ht.isFunctionLike_eq_false hne hf'] at hfun
    cases hfun

/-- A node stands in one scope alone. -/
theorem ScopeTop.unique {root : Tree} {e e' d : Placed} (h : ScopeTop root e)
    (h' : ScopeTop root e') (hd : d ∈ nodesFrom true e) (hd' : d ∈ nodesFrom true e') :
    e = e' := by
  obtain ⟨q, f⟩ := e
  obtain ⟨q', f'⟩ := e'
  obtain ⟨r, hr, ht⟩ := mem_nodesFrom_iff.mp hd
  obtain ⟨r', hr', ht'⟩ := mem_nodesFrom_iff.mp hd'
  -- Both scopes start on the way to the node, so one of them starts inside the other.
  have hq : q = q' := by
    rcases List.append_eq_append_iff.mp (hr.symm.trans hr') with ⟨a, rfl, rfl⟩ | ⟨a, rfl, rfl⟩
    · rw [h.not_inside h' ht, List.append_nil]
    · rw [h'.not_inside h ht', List.append_nil]
  subst hq
  exact Prod.ext rfl (h.reached.unique h'.reached)

/-- **Every node that a walk sees stands in exactly one scope.** -/
theorem Reached.existsUnique_scope {root t : Tree} {p : Address} (h : Reached false root p t) :
    ∃! e, e ∈ root.scopes ∧ (p, t) ∈ nodesFrom true e := by
  obtain ⟨e, htop, hmem⟩ := h.exists_scopeTop
  refine ⟨e, ⟨mem_scopes_iff.mpr htop, hmem⟩, ?_⟩
  rintro e' ⟨htop', hmem'⟩
  exact (mem_scopes_iff.mp htop').unique htop hmem' hmem

/-! ## The partition -/

/-- What a direct walk from the start of a scope sees, the walk from the root sees as well. -/
theorem ScopeTop.reached_of_mem {root t : Tree} {e : Placed} {p : Address} (h : ScopeTop root e)
    (ht : (p, t) ∈ nodesFrom true e) : Reached false root p t := by
  obtain ⟨q, f⟩ := e
  obtain ⟨r, rfl, hr⟩ := mem_nodesFrom_iff.mp ht
  exact h.reached.append hr.of_direct

theorem nodesFrom_nodup (direct : Bool) (e : Placed) : (nodesFrom direct e).Nodup :=
  nodup_of_sorted (nodesFrom_sorted direct e)

/-- Scopes have no node in common. -/
theorem flatMap_scopes_nodup (root : Tree) : (root.scopes.flatMap (nodesFrom true)).Nodup := by
  rw [List.nodup_flatMap]
  refine ⟨fun e _ => nodesFrom_nodup true e, ?_⟩
  refine (scopes_nodup root).imp_of_mem ?_
  intro e e' he he' hne d hd hd'
  exact hne ((mem_scopes_iff.mp he).unique (mem_scopes_iff.mp he') hd hd')

/-- **The scopes are a partition** of what a walk sees. -/
theorem nodesFrom_perm_scopes (root : Tree) :
    (nodesFrom false ([], root)).Perm (root.scopes.flatMap (nodesFrom true)) := by
  rw [List.perm_ext_iff_of_nodup (nodesFrom_nodup false _) (flatMap_scopes_nodup root)]
  intro ⟨p, t⟩
  rw [mem_nodesFrom_iff, List.mem_flatMap]
  constructor
  · rintro ⟨q, rfl, ht⟩
    obtain ⟨e, htop, hmem⟩ := ht.exists_scopeTop
    exact ⟨e, mem_scopes_iff.mpr htop, hmem⟩
  · rintro ⟨e, htop, hmem⟩
    exact ⟨p, rfl, (mem_scopes_iff.mp htop).reached_of_mem hmem⟩

/-! ## What walks see of it -/

/-- The nodes that a walk calls its visitor for, one after the other. -/
def visited {σ : Type} (direct : Bool) (visit : Visitor σ) (root : Tree) (s : σ) : List Tree :=
  (traverseFrom direct (logging visit) root (s, [])).2.map Prod.fst

theorem visited_eq {σ : Type} {visit : Visitor σ} (hvisit : ∀ t s, (visit t s).1 = .descend)
    (direct : Bool) (e : Placed) (s : σ) :
    visited direct visit e.2 s = (nodesFrom direct e).map Prod.snd := by
  obtain ⟨calls, s', h⟩ := exists_visitsFrom direct visit.observe e s
  have hplaces : calls.map Prod.fst = nodesFrom direct e := h.places fun d => hvisit d.2
  rw [visited, h.traverseFrom_logging, ← hplaces, List.map_map, List.map_map]
  rfl

/-- Functions are more than bare tokens. -/
def FunctionsNamed (tree : Tree) : Prop :=
  ∀ t ∈ tree.everyNode, t.kind.isFunctionLike = true → t.named = true

instance (tree : Tree) : Decidable (FunctionsNamed tree) :=
  inferInstanceAs (Decidable (∀ t ∈ tree.everyNode, _ → _))

/-- Where bare tokens have no parts and are no functions, a walk comes through all functions. -/
theorem mem_functionsBelow_iff_at? {root f : Tree} {q : Address} (hleaf : LeafTokens root)
    (hnamed : FunctionsNamed root) :
    (q, f) ∈ root.functionsBelow ↔
      root.at? q = some f ∧ q ≠ [] ∧ f.kind.isFunctionLike = true := by
  rw [mem_functionsBelow_iff, hleaf.reached_iff]
  constructor
  · rintro ⟨⟨hf, -⟩, hne, hfun⟩
    exact ⟨hf, hne, hfun⟩
  · rintro ⟨hf, hne, hfun⟩
    exact ⟨⟨hf, .inr (hnamed f (mem_everyNode_iff.mpr (within_of_at? hf)) hfun)⟩, hne, hfun⟩

/-- **Scopes partition a tree.** For every root, and visitors that never skip, a walk visits what
    the direct walk from the root and the direct walks from the functions below it visit
    together. Taken where they stand, none of these nodes is visited twice, and each is in
    exactly one scope. If bare tokens have no parts and are no functions, this is so with all
    functions strictly below the root, and for the root and all named nodes below it. -/
theorem scopes_partition {σ τ : Type} (root : Tree) (visit : Visitor σ)
    (hvisit : ∀ t s, (visit t s).1 = .descend) (own : Placed → Visitor τ)
    (hown : ∀ e t s, (own e t s).1 = .descend) (s : σ) (start : Placed → τ) :
    (visited false visit root s).Perm
      (visited true (own ([], root)) root (start ([], root)) ++
        root.functionsBelow.flatMap fun e => visited true (own e) e.2 (start e)) ∧
    (visited false visit root s = (nodesFrom false ([], root)).map Prod.snd ∧
      (∀ e, visited true (own e) e.2 (start e) = (nodesFrom true e).map Prod.snd) ∧
      (nodesFrom false ([], root)).Perm (root.scopes.flatMap (nodesFrom true)) ∧
      (root.scopes.flatMap (nodesFrom true)).Nodup) ∧
    (∀ p t, (p, t) ∈ nodesFrom false ([], root) →
      ∃! e, e ∈ root.scopes ∧ (p, t) ∈ nodesFrom true e) ∧
    (LeafTokens root → FunctionsNamed root →
      (∀ q f, (q, f) ∈ root.functionsBelow ↔
        root.at? q = some f ∧ q ≠ [] ∧ f.kind.isFunctionLike = true) ∧
      ∀ p t, root.at? p = some t → p = [] ∨ t.named = true →
        ∃! e, e ∈ root.scopes ∧ (p, t) ∈ nodesFrom true e) := by
  have hwhole := visited_eq hvisit false ([], root) s
  have hscope : ∀ e, visited true (own e) e.2 (start e) = (nodesFrom true e).map Prod.snd :=
    fun e => visited_eq (hown e) true e (start e)
  have hperm := nodesFrom_perm_scopes root
  refine ⟨?_, ⟨hwhole, hscope, hperm, flatMap_scopes_nodup root⟩, ?_, ?_⟩
  · have hmap := hperm.map Prod.snd
    rw [List.map_flatMap, Tree.scopes, List.flatMap_cons] at hmap
    simp only [hscope]
    rw [hwhole]
    exact hmap
  · intro p t ht
    obtain ⟨q, rfl, hq⟩ := mem_nodesFrom_iff.mp ht
    exact hq.existsUnique_scope
  · intro hleaf hnamed
    refine ⟨fun q f => mem_functionsBelow_iff_at? hleaf hnamed, ?_⟩
    intro p t ht htop
    exact (hleaf.reached_iff.mpr ⟨ht, htop⟩).existsUnique_scope

/-- Functions in a default value, in markup and in functions, with all that is around them. -/
theorem scopes_partition_nested :
    (LeafTokens nestedTree ∧ FunctionsNamed nestedTree ∧ nestedTree.functionsBelow.length = 6) ∧
    (visited false countNodes nestedTree 0).Perm
      (visited true countNodes nestedTree 0 ++
        nestedTree.functionsBelow.flatMap fun e => visited true countNodes e.2 e.1.length) ∧
    (∀ q f, (q, f) ∈ nestedTree.functionsBelow ↔
      nestedTree.at? q = some f ∧ q ≠ [] ∧ f.kind.isFunctionLike = true) ∧
    ∀ p t, nestedTree.at? p = some t → p = [] ∨ t.named = true →
      ∃! e, e ∈ nestedTree.scopes ∧ (p, t) ∈ nodesFrom true e := by
  have hleaf : LeafTokens nestedTree := nestedTree_fits.2.1.token_leaf
  obtain ⟨hnamed, hcount⟩ :
      FunctionsNamed nestedTree ∧ nestedTree.functionsBelow.length = 6 := by decide +kernel
  obtain ⟨hperm, -, -, hall⟩ := scopes_partition nestedTree countNodes (fun _ _ => rfl)
    (fun _ => countNodes) (fun _ _ _ => rfl) 0 fun e => e.1.length
  exact ⟨⟨hleaf, hnamed, hcount⟩, hperm, hall hleaf hnamed⟩

end RoleLint
