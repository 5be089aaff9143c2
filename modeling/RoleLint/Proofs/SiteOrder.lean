import RoleLint.Proofs.Exactness

/- The sites of a function in the order of the text. Scans write sites down in the order in
   which they meet the nodes, and nothing sorts them afterwards; the site of a call is what
   it calls, which may start behind the call itself.

   1. `SitesPlain`, `ReturnsApart` - what the order rests on.
   2. `InOrder`, `SpansFit.inOrder` - increasing offsets are increasing locations.
   3. `apiCalls_inOrder`, `markupReturns_inOrder` - the sites of one body.
   4. `sites_in_source_order` - every function of a text has its sites in strict order. -/
namespace RoleLint

/-! ## What the order rests on -/

/-- Sites are where their nodes begin: what is called stands before the arguments and the
    other parts of a call, what a network call calls holds no call, markup covers some text,
    and comments have no parts. -/
structure SitesPlain (s : Source) (tree : Tree) : Prop where
  callee_first : ∀ t ∈ tree.everyNode, t.kind = .call → ∀ c ∈ t.child? .callee,
    ∀ d ∈ t.namedChildren, d.kind ≠ .comment → c.start ≤ d.start
  callee_plain : ∀ t ∈ tree.everyNode, ∀ site, NetworkCall s t site →
    ∀ u ∈ site.everyNode, u.kind ≠ .call
  markup_covers : ∀ t ∈ tree.everyNode, t.kind = .markup → t.start < t.stop
  comment_leaf : ∀ t ∈ tree.everyNode, t.kind = .comment → t.children = []

/-- No return in the direct scope of a body lies inside the argument of another one. What
    stands in an argument that is a function is not in that scope. -/
def ReturnsApart (body : Tree) : Prop :=
  ∀ r e r', InScope body r → r.kind = .returned → r.firstExpression? = some e →
    e.kind.isFunctionLike = false → InScope e r' → r'.kind ≠ .returned

instance (s : Source) (tree : Tree) : Decidable (SitesPlain s tree) :=
  decidable_of_iff
    ((∀ t ∈ tree.everyNode, t.kind = .call → ∀ c ∈ t.child? .callee,
        ∀ d ∈ t.namedChildren, d.kind ≠ .comment → c.start ≤ d.start) ∧
      (∀ t ∈ tree.everyNode, ∀ site ∈ networkSite? s t, ∀ u ∈ site.everyNode, u.kind ≠ .call) ∧
      (∀ t ∈ tree.everyNode, t.kind = .markup → t.start < t.stop) ∧
      ∀ t ∈ tree.everyNode, t.kind = .comment → t.children = [])
    ⟨fun ⟨a, b, c, d⟩ => ⟨a, fun t ht site h => b t ht site (networkSite?_eq_some_iff.mpr h), c, d⟩,
      fun ⟨a, b, c, d⟩ => ⟨a, fun t ht site h => b t ht site (networkSite?_eq_some_iff.mp h), c, d⟩⟩

instance (body : Tree) : Decidable (ReturnsApart body) :=
  decidable_of_iff
    (∀ r ∈ body.preorder true, r.kind = .returned → ∀ e ∈ r.firstExpression?,
      e.kind.isFunctionLike = false → ∀ r' ∈ e.preorder true, r'.kind ≠ .returned)
    ⟨fun h r e r' hr hk he hf hr' =>
        h r (mem_preorder_true_iff.mpr hr) hk e he hf r' (mem_preorder_true_iff.mpr hr'),
      fun h r hr hk e he hf r' hr' =>
        h r e r' (mem_preorder_true_iff.mp hr) hk he hf (mem_preorder_true_iff.mp hr')⟩

theorem SitesPlain.sitesLead {s : Source} {tree : Tree} (h : SitesPlain s tree) :
    SitesLead s tree where
  comment_leaf := h.comment_leaf
  callee_first := h.callee_first
  inner_later := by
    intro t ht site hsite u hu hk
    exact absurd hk (h.callee_plain t ht site hsite u hu)

/-! ## Locations in order -/

/-- Locations in strictly increasing order, so the first one is the least. -/
structure InOrder (ls : List Location) : Prop where
  strict : ls.Pairwise Location.Before
  first_least : ∀ l ∈ ls.head?, ∀ l' ∈ ls, l.le l' = true

theorem inOrder_of_pairwise {ls : List Location} (h : ls.Pairwise Location.Before) :
    InOrder ls where
  strict := h
  first_least := by
    cases ls with
    | nil => intro l hl; cases hl
    | cons first rest =>
      intro l hl l' hl'
      obtain rfl : first = l := Option.some.inj hl
      rcases List.mem_cons.mp hl' with rfl | hrest
      · simp [Location.le]
      · exact Location.le_of_before ((List.pairwise_cons.mp h).1 l' hrest)

section
variable {text : List Char} {tree : Tree} (hs : SpansFit text tree)
include hs

/-- Nodes whose starts increase have increasing locations. -/
theorem SpansFit.inOrder {ts : List Tree} (hts : ∀ t ∈ ts, Within tree t)
    (h : ts.Pairwise fun a b => a.start < b.start) :
    InOrder (ts.map (Source.ofText text).locationOf) := by
  apply inOrder_of_pairwise
  rw [List.pairwise_map]
  apply h.imp_of_mem
  intro a b ha hb hlt
  have hab := (hs.boundaries a (mem_everyNode_iff.mpr (hts a ha))).1
  have hbb := (hs.boundaries b (mem_everyNode_iff.mpr (hts b hb))).1
  exact Source.locate_before hab hbb hlt

/-! ## The sites of one body -/

theorem apiCalls_inOrder (hp : SitesPlain (Source.ofText text) tree) {body : Tree}
    (hb : Within tree body) : InOrder (apiCalls (Source.ofText text) body) := by
  rw [apiCalls_eq]
  apply hs.inOrder
  · intro site hsite
    obtain ⟨call, hcall, hsite⟩ := List.mem_filterMap.mp hsite
    exact ((networkSite?_eq_some_iff.mp hsite).span hs
      (hb.trans (within_of_mem_preorder hcall))).1
  · exact networkSites_ordered hs hp.sitesLead true hb

theorem ReturnsMarkup.span (hp : SitesPlain (Source.ofText text) tree) {r m : Tree}
    (hr : Within tree r) (h : ReturnsMarkup r m) :
    Within tree m ∧ m.start < m.stop ∧
      ∃ e, r.firstExpression? = some e ∧ e.start ≤ m.start ∧ m.stop ≤ e.stop := by
  obtain ⟨-, e, he, hfirst⟩ := h
  obtain ⟨hk, hscope⟩ := hfirst.spec
  have hew := hr.trans (.child .root (firstExpression?_mem_children he))
  have hmw := hew.trans hscope.within
  have hspan := hs.within hew hscope.within
  exact ⟨hmw, hp.markup_covers m (mem_everyNode_iff.mpr hmw) hk, e, he, hspan⟩

/-- **Returns in the order of the text return markup in the order of the text**, unless one
    lies inside what another one returns. -/
theorem returnedMarkup_ordered (hp : SitesPlain (Source.ofText text) tree) {body : Tree}
    (hb : Within tree body) (ha : ReturnsApart body) :
    ((body.preorder true).filterMap returnedMarkup?).Pairwise fun a b => a.start < b.start := by
  apply hs.filterMap_preorder_ordered hb
  · intro r m hr hm
    obtain ⟨-, hne, e, he, hspan⟩ :=
      (returnedMarkup?_eq_some_iff.mp hm).span hs hp hr
    have := hs.within hr (.child .root (firstExpression?_mem_children he))
    omega
  · intro r hr c hc r' hr' m m' hm hm'
    have hrw := hb.trans (within_of_mem_preorder hr)
    have hcw := hrw.trans (.child .root (Tree.mem_steps.mp hc).1)
    have hr'w := hcw.trans (within_of_mem_preorder hr')
    have hret := returnedMarkup?_eq_some_iff.mp hm
    have hret' := returnedMarkup?_eq_some_iff.mp hm'
    obtain ⟨-, hne, e, he, hspan⟩ := hret.span hs hp hrw
    obtain ⟨-, -, e', he', hspan'⟩ := hret'.span hs hp hr'w
    have harg := hs.within hr'w (.child .root (firstExpression?_mem_children he'))
    -- The inner return would be in the argument of the outer one, or it stands behind that.
    rcases hs.below_firstExpression hp.comment_leaf hrw he hc hr' (by rw [hret'.1]; decide)
      with rfl | hle
    · have hfunction := (mem_steps_true.mp hc).2
      exact absurd hret'.1 (ha r c r' (mem_preorder_true_iff.mp hr) hret.1 he hfunction
        (mem_preorder_true_iff.mp hr'))
    · omega

theorem markupReturns_inOrder (hp : SitesPlain (Source.ofText text) tree) {body : Tree}
    (hb : Within tree body) (ha : ReturnsApart body) :
    InOrder (markupReturns (Source.ofText text) body) := by
  by_cases hk : body.kind = .block
  · rw [markupReturns_eq_of_block hk]
    apply hs.inOrder
    · intro m hm
      obtain ⟨r, hr, hm⟩ := List.mem_filterMap.mp hm
      exact ((returnedMarkup?_eq_some_iff.mp hm).span hs hp
        (hb.trans (within_of_mem_preorder hr))).1
    · exact returnedMarkup_ordered hs hp hb ha
  · -- A body that is no block has at most one site.
    rw [markupReturns_eq_of_not_block hk]
    apply inOrder_of_pairwise
    cases firstMarkup? body with
    | none => exact .nil
    | some m => exact List.pairwise_singleton _ _

end

/-! ## The functions of a text -/

/-- **Sites are in the order of the text.** The functions of a text with a tree that has no
    faults are those that its named nodes declare. Of each the network calls stand at strictly
    increasing locations, and so does the returned markup where no return lies inside the
    argument of another one; the first site of a list is then the first one in the text. -/
theorem sites_in_source_order (path : Path) (dialect : Dialect) (text : List Char) (tree : Tree)
    (hfree : ErrorFree tree) (hs : SpansFit text tree)
    (hp : SitesPlain (Source.ofText text) tree) :
    ∃ ds, readTree path dialect text tree = .ok ds ∧
      (∀ d, d ∈ ds ↔ ∃ t ∈ tree.preorder false, ∃ name body, Declares t name body ∧
        d = descriptorOf (Source.ofText text) name body) ∧
      ∀ t ∈ tree.preorder false, ∀ name body d, Declares t name body →
        d = descriptorOf (Source.ofText text) name body →
          InOrder d.apiCalls ∧ ((∀ b ∈ body, ReturnsApart b) → InOrder d.markupReturns) := by
  refine ⟨_, (analyzeTree_eq_ok hfree).1, fun d => mem_descriptors_iff, ?_⟩
  intro t ht name body d hdecl hd
  subst hd
  cases body with
  | none => exact ⟨inOrder_of_pairwise .nil, fun _ => inOrder_of_pairwise .nil⟩
  | some b =>
    have hb := (within_of_mem_preorder ht).trans (hdecl.within_body rfl)
    exact ⟨apiCalls_inOrder hs hp hb, fun ha => markupReturns_inOrder hs hp hb (ha b rfl)⟩

/-- A component with a network call in the arguments of another one, one after `await`, and
    two returns of markup. -/
def orderedText : List Char :=
  ("async function Card()\x7bif(fetch(axios.get(1)))return<a><i/></a>;\r\n" ++
    "await/*😀*/fetch<T>(2);return/*b*/<b/>\x7d").toList

/-- The tree of that text. -/
def orderedTree : Tree :=
  Dialect.tsx.parse orderedText

theorem orderedTree_fits : ErrorFree orderedTree ∧ SpansFit orderedText orderedTree ∧
    SitesPlain (Source.ofText orderedText) orderedTree ∧
    ∀ b ∈ orderedTree.everyNode, ReturnsApart b := by
  decide +kernel

theorem sites_in_source_order_sample :
    (ErrorFree orderedTree ∧ SpansFit orderedText orderedTree ∧
      SitesPlain (Source.ofText orderedText) orderedTree) ∧
    ∃ ds, extract "card.tsx" .tsx orderedText = .ok ds ∧
      ∀ d ∈ ds, InOrder d.apiCalls ∧ InOrder d.markupReturns := by
  obtain ⟨hfree, hs, hp, hreturns⟩ := orderedTree_fits
  obtain ⟨ds, hread, hmem, hordered⟩ :=
    sites_in_source_order "card.tsx" .tsx orderedText orderedTree hfree hs hp
  refine ⟨⟨hfree, hs, hp⟩, ds, hread, ?_⟩
  intro d hd
  obtain ⟨t, ht, name, body, hdecl, rfl⟩ := (hmem d).mp hd
  obtain ⟨hcalls, hmarkup⟩ := hordered t ht name body _ hdecl rfl
  refine ⟨hcalls, hmarkup ?_⟩
  intro b hb
  apply hreturns b
  exact mem_everyNode_iff.mpr ((within_of_mem_preorder ht).trans (hdecl.within_body hb))

end RoleLint
