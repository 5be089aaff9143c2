import RoleLint.Proofs.Exactness
import RoleLint.Proofs.Ownership
import RoleLint.Proofs.Scans

/- No node is a site of two functions. Sites and functions are nodes, known by their
   addresses; nothing is assumed of the spans.

   1. `StandsForAt`, `exists_standsForAt` - the function that a value stands for is the one
      at the least address that choices lead to.
   2. `FunctionAt` - the function of a declaration.
   3. `SiteAt`, `Declares.sitesOf` - the nodes that the scans of its body write down; the sites
      of a descriptor are the locations of these nodes.
   4. `SiteAt.declaration_unique`, `sites_unshared` - different declarations have different
      functions and no site in common. -/
namespace RoleLint

/-! ## The function that a value stands for -/

/-- The function that a value stands for, and where it stands. -/
structure StandsForAt (t : Tree) (p : Address) (f : Tree) : Prop where
  unwraps : UnwrapsAt t p f
  least : ∀ q g, UnwrapsAt t q g → p ≤ q

theorem StandsForAt.unique {t f g : Tree} {p q : Address} (h : StandsForAt t p f)
    (h' : StandsForAt t q g) : p = q ∧ f = g := by
  have hpq : p = q := le_antisymm (h.least q g h'.unwraps) (h'.least p f h.unwraps)
  subst hpq
  exact ⟨rfl, Option.some.inj (h.unwraps.at?.symm.trans h'.unwraps.at?)⟩

theorem standsForAt_of_parenthesized {t c f : Tree} {i : Nat} {p : Address}
    (hk : t.kind = .parenthesized) (hc : ExpressionAt t i c) (h : StandsForAt c p f) :
    StandsForAt t (i :: p) f where
  unwraps := .parenthesized hk hc h.unwraps
  least := by
    intro q g hq
    cases hq with
    | here hv => simp [Tree.isFunctionValue, hk] at hv
    | parenthesized _ hc' hq =>
      obtain ⟨rfl, rfl⟩ := hc.unique hc'
      exact List.cons_le_cons i (h.least _ g hq)
    | argument hk' _ _ _ _ =>
      rw [hk] at hk'
      cases hk'

/-- A call stands for what the first of its arguments does that stands for a function. -/
theorem standsForAt_of_call {t args c f : Tree} {i j : Nat} {p : Address} (hk : t.kind = .call)
    (hargs : FieldAt t .arguments i args)
    (hc : FirstChild (fun d => d.named && (unwrapFunction d).isSome) args j c)
    (h : StandsForAt c p f) : StandsForAt t (i :: j :: p) f where
  unwraps := by
    have hnamed := (Bool.and_eq_true_iff.mp hc.passes).1
    exact .argument hk hargs hc.child hnamed h.unwraps
  least := by
    intro q g hq
    cases hq with
    | here hv => simp [Tree.isFunctionValue, hk] at hv
    | parenthesized hk' _ _ =>
      rw [hk] at hk'
      cases hk'
    | @argument _ args' d _ i' j' q _ hargs' hd hnamed hq =>
      obtain ⟨rfl, rfl⟩ := hargs.unique hargs'
      apply List.cons_le_cons i
      rcases Nat.lt_trichotomy j j' with hlt | rfl | hlt
      · exact le_of_lt (List.cons_lt_cons_iff.mpr (.inl hlt))
      · obtain rfl : c = d := Option.some.inj (hc.child.symm.trans hd)
        exact List.cons_le_cons j (h.least q g hq)
      · -- An argument in front of the first one that stands for a function stands for none.
        obtain ⟨_, hu⟩ := hq.exists_unwraps
        have hno := hc.first j' d hlt hd
        rw [hnamed, Bool.true_and, Option.isSome_eq_false_iff, Option.isNone_iff_eq_none] at hno
        exact absurd hno (unwrapFunction_ne_none hu)

theorem find?_of_findSome? {α β : Type} {p : α → Bool} {g : α → Option β} {l : List α} {b : β}
    (h : (l.filter p).findSome? g = some b) :
    ∃ a, l.find? (fun a => p a && (g a).isSome) = some a ∧ g a = some b := by
  induction l with
  | nil => cases h
  | cons a l ih =>
    rw [List.filter_cons] at h
    rw [List.find?_cons]
    cases hp : p a with
    | false =>
      rw [hp, if_neg (by decide)] at h
      exact ih h
    | true =>
      rw [hp, if_pos rfl, List.findSome?_cons] at h
      cases hg : g a with
      | none =>
        rw [hg] at h
        exact ih h
      | some c =>
        rw [hg] at h
        exact ⟨a, rfl, hg.trans h⟩

/-- **The function that is found is the one at the least address.** -/
theorem exists_standsForAt {t f : Tree} (h : unwrapFunction t = some f) :
    ∃ p, StandsForAt t p f := by
  -- Along the steps of the search, which lead to smaller nodes.
  induction hn : t.size using Nat.strongRecOn generalizing t with
  | ind n ih =>
    have next : ∀ {c : Tree}, c ∈ t.wrapped → unwrapFunction c = some f →
        ∃ p, StandsForAt c p f :=
      fun hc hf => ih _ (hn ▸ size_lt_of_mem_wrapped hc) hf rfl
    rw [unwrapFunction_eq] at h
    split at h
    · next hv =>
      obtain rfl := Option.some.inj h
      exact ⟨[], .here hv, fun q _ _ => le_of_not_gt (List.not_lt_nil q)⟩
    · rw [Tree.wrapped] at h
      split at h
      · next hk =>
        cases he : t.firstExpression? with
        | none =>
          rw [he] at h
          cases h
        | some c =>
          rw [he, Option.toList_some, List.findSome?_singleton] at h
          obtain ⟨i, hi⟩ := firstExpression?_eq_some_iff.mp he
          obtain ⟨p, hp⟩ := next (mem_wrapped_iff.mpr (.inl ⟨hk, he⟩)) h
          exact ⟨i :: p, standsForAt_of_parenthesized hk hi hp⟩
      · next hk =>
        cases hargs : t.child? .arguments with
        | none =>
          rw [hargs] at h
          cases h
        | some args =>
          rw [hargs, Option.map_some, Option.getD_some, Tree.namedChildren] at h
          obtain ⟨i, hi⟩ := child?_eq_some_iff.mp hargs
          obtain ⟨c, hfind, hf⟩ := find?_of_findSome? h
          obtain ⟨j, hj⟩ := find?_children_eq_some_iff.mp hfind
          have hnamed := (Bool.and_eq_true_iff.mp hj.passes).1
          have hmem : c ∈ args.namedChildren :=
            List.mem_filter.mpr ⟨List.mem_of_getElem? hj.child, hnamed⟩
          obtain ⟨p, hp⟩ := next (mem_wrapped_iff.mpr (.inr ⟨hk, args, hargs, hmem⟩)) hf
          exact ⟨i :: j :: p, standsForAt_of_call hk hi hj hp⟩
      · cases h

/-! ## The function of a declaration -/

/-- The node at `p` declares the function at `q`: by itself, or as a variable with a plain
    name whose value stands for the function. -/
inductive FunctionAt (tree : Tree) (p : Address) : Address → Tree → Prop where
  | function {t name : Tree} : tree.at? p = some t → t.kind = .functionDeclaration →
      t.child? .name = some name → FunctionAt tree p p t
  | binding {t name value f : Tree} {i : Nat} {u : Address} : tree.at? p = some t →
      t.kind = .declarator → t.child? .name = some name → name.kind = .identifier →
      FieldAt t .value i value → StandsForAt value u f → FunctionAt tree p (p ++ i :: u) f

/-- A node declares one function at most. -/
theorem FunctionAt.unique {tree f f' : Tree} {p q q' : Address} (h : FunctionAt tree p q f)
    (h' : FunctionAt tree p q' f') : q = q' ∧ f = f' := by
  cases h with
  | function ht hk _ =>
    cases h' with
    | function ht' _ _ => exact ⟨rfl, Option.some.inj (ht.symm.trans ht')⟩
    | @binding t' _ _ _ _ _ ht' hk' _ _ _ _ =>
      obtain rfl : f = t' := Option.some.inj (ht.symm.trans ht')
      rw [hk] at hk'
      cases hk'
  | @binding t _ _ _ _ _ ht hk _ _ hv hf =>
    cases h' with
    | function ht' hk' _ =>
      obtain rfl : t = f' := Option.some.inj (ht.symm.trans ht')
      rw [hk] at hk'
      cases hk'
    | @binding t' _ _ _ _ _ ht' _ _ _ hv' hf' =>
      obtain rfl : t = t' := Option.some.inj (ht.symm.trans ht')
      obtain ⟨rfl, rfl⟩ := hv.unique hv'
      obtain ⟨rfl, rfl⟩ := hf.unique hf'
      exact ⟨rfl, rfl⟩

theorem FunctionAt.ownsAt {tree f : Tree} {p q : Address} (h : FunctionAt tree p q f) :
    ∃ t a, tree.at? p = some t ∧ OwnsAt t a f ∧ q = p ++ a := by
  cases h with
  | function ht hk _ => exact ⟨f, [], ht, .function hk, (List.append_nil p).symm⟩
  | @binding t _ _ _ i u ht hk _ _ hv hf =>
    exact ⟨t, i :: u, ht, .binding hk hv hf.unwraps, rfl⟩

theorem Declares.functionAt {tree t name : Tree} {body : Option Tree} {p : Address}
    (h : Declares t name body) (ht : tree.at? p = some t) :
    ∃ q f, FunctionAt tree p q f ∧ body = f.child? .body := by
  cases h with
  | function hk hn => exact ⟨p, t, .function ht hk hn, rfl⟩
  | @binding _ f hk hn hname hv hf =>
    obtain ⟨i, hi⟩ := child?_eq_some_iff.mp hv
    obtain ⟨u, hu⟩ := exists_standsForAt (unwrapFunction_eq_some_iff.mpr hf)
    exact ⟨p ++ i :: u, f, .binding ht hk hn hname hi hu, rfl⟩

/-- Declarations of one function are one. -/
theorem FunctionAt.declaration_unique {tree f f' : Tree} {p p' q : Address}
    (ha : RootsPlain tree) (h : FunctionAt tree p q f) (h' : FunctionAt tree p' q f') :
    p = p' := by
  obtain ⟨t, a, ht, hf, hq⟩ := h.ownsAt
  obtain ⟨t', a', ht', hf', hq'⟩ := h'.ownsAt
  exact hf.declaration_unique ha hf' ht ht' (hq.symm.trans hq')

/-! ## The sites of a declaration -/

/-- The call at `r` below a body is written down, for what it calls. -/
def CalledAt (s : Source) (body : Tree) (r : Address) (site : Tree) : Prop :=
  ∃ call, Reached true body r call ∧ NetworkCall s call site

/-- The markup at `w` below a return is the first one that it returns. -/
inductive ReturnsAt (r : Tree) : Address → Tree → Prop where
  | argument {e m : Tree} {j : Nat} {k : Address} : r.kind = .returned → ExpressionAt r j e →
      FirstMarkupAt e k m → ReturnsAt r (j :: k) m

/-- The markup at `r` below a body is written down: a return in the direct scope of a block
    returns it, or a body that is no block is itself what is returned. -/
def ReturnedAt (body : Tree) (r : Address) (m : Tree) : Prop :=
  if body.kind = .block then
    ∃ a ret w, Reached true body a ret ∧ ReturnsAt ret w m ∧ r = a ++ w
  else FirstMarkupAt body r m

/-- A scan of the body of the function that the node at `p` declares writes down the node
    at `x`, for the sake of the site `y`. -/
def SiteAt (scan : Tree → Address → Tree → Prop) (tree : Tree) (p x : Address) (y : Tree) :
    Prop :=
  ∃ q f i b r, FunctionAt tree p q f ∧ FieldAt f .body i b ∧ scan b r y ∧ x = q ++ i :: r

/-- The locations are those of the sites that are written down, and of no other. -/
def Lists (s : Source) (P : Address → Tree → Prop) (locations : List Location) : Prop :=
  ∃ sites : List (Address × Tree), locations = sites.map (fun e => s.locationOf e.2) ∧
    ∀ x y, (x, y) ∈ sites ↔ P x y

theorem lists_apiCalls (s : Source) (body : Tree) :
    Lists s (CalledAt s body) (apiCalls s body) := by
  have hsite : ∀ call site, networkSite? s call = some site ↔ NetworkCall s call site :=
    fun _ _ => networkSite?_eq_some_iff
  obtain ⟨sites, hrecorded, hsites⟩ := exists_recorded hsite true body
  refine ⟨sites, ?_, hrecorded.exact⟩
  rw [apiCalls_eq, hsites, List.map_map]
  rfl

theorem returnedMarkup?_iff_returnsAt {r m : Tree} :
    returnedMarkup? r = some m ↔ ∃ w, ReturnsAt r w m := by
  rw [returnedMarkup?_iff_returnsFirst]
  constructor
  · intro ⟨hk, e, k, he, hm⟩
    obtain ⟨j, hj⟩ := firstExpression?_eq_some_iff.mp he
    exact ⟨j :: k, .argument hk hj hm⟩
  · intro ⟨_, h⟩
    cases h with
    | argument hk he hm => exact ⟨hk, _, _, firstExpression?_eq_some_iff.mpr ⟨_, he⟩, hm⟩

theorem ReturnsAt.unique {r m m' : Tree} {w w' : Address} (h : ReturnsAt r w m)
    (h' : ReturnsAt r w' m') : w = w' ∧ m = m' := by
  cases h with
  | argument _ he hm =>
    cases h' with
    | argument _ he' hm' =>
      obtain ⟨rfl, rfl⟩ := he.unique he'
      obtain ⟨rfl, rfl⟩ := hm.unique hm'
      exact ⟨rfl, rfl⟩

theorem lists_markupReturns (s : Source) (body : Tree) :
    Lists s (ReturnedAt body) (markupReturns s body) := by
  by_cases hblock : body.kind = .block
  · obtain ⟨sites, hsites, hexact⟩ := exists_recorded_below
      (fun _ _ => returnedMarkup?_iff_returnsAt)
      (fun _ _ _ _ _ h h' => ReturnsAt.unique h h') true body
    refine ⟨sites, ?_, ?_⟩
    · rw [markupReturns_eq_of_block hblock, hsites, List.map_map]
      rfl
    · intro x m
      rw [hexact, ReturnedAt, if_pos hblock]
  · rcases markupReturns_of_not_block s hblock with ⟨r, m, hr, heq⟩ | ⟨hno, heq⟩
    · refine ⟨[(r, m)], heq, ?_⟩
      intro x m'
      rw [List.mem_singleton, ReturnedAt, if_neg hblock]
      constructor
      · intro h
        obtain ⟨rfl, rfl⟩ := Prod.mk.inj h
        exact hr
      · intro h
        obtain ⟨rfl, rfl⟩ := hr.unique h
        rfl
    · refine ⟨[], heq, ?_⟩
      intro x m
      rw [ReturnedAt, if_neg hblock]
      constructor
      · intro h
        cases h
      · intro h
        exact absurd (exists_firstMarkupAt_iff.mp ⟨x, m, h⟩) hno

/-- What a scan lists of the body of a function, it lists of the function's declaration. -/
theorem FunctionAt.lists {s : Source} {scan : Tree → Address → Tree → Prop}
    {scanned : Tree → List Location} {tree f : Tree} {p q : Address}
    (hscan : ∀ b, Lists s (scan b) (scanned b)) (h : FunctionAt tree p q f) :
    Lists s (SiteAt scan tree p) (((f.child? .body).map scanned).getD []) := by
  cases hbody : f.child? .body with
  | none =>
    refine ⟨[], rfl, ?_⟩
    intro x y
    constructor
    · intro hmem
      cases hmem
    · intro ⟨_, _, i, b, _, h', hb, _⟩
      obtain ⟨-, rfl⟩ := h.unique h'
      rw [child?_eq_some_iff.mpr ⟨i, hb⟩] at hbody
      cases hbody
  | some b =>
    obtain ⟨i, hi⟩ := child?_eq_some_iff.mp hbody
    obtain ⟨sites, hsites, hexact⟩ := hscan b
    refine ⟨sites.map fun e => (q ++ i :: e.1, e.2), ?_, ?_⟩
    · rw [Option.map_some, Option.getD_some, hsites, List.map_map]
      rfl
    · intro x y
      rw [List.mem_map]
      constructor
      · intro ⟨⟨r, z⟩, hmem, heq⟩
        obtain ⟨rfl, rfl⟩ := Prod.mk.inj heq
        exact ⟨q, f, i, b, r, h, hi, (hexact r z).mp hmem, rfl⟩
      · intro ⟨_, _, _, _, r, h', hi', hr, hx⟩
        obtain ⟨rfl, rfl⟩ := h.unique h'
        obtain ⟨rfl, rfl⟩ := hi.unique hi'
        exact ⟨(r, y), (hexact r y).mpr hr, by rw [hx]⟩

/-- The sites of a descriptor are those of the node that it describes. -/
structure SitesOf (s : Source) (tree : Tree) (p : Address) (d : Descriptor) : Prop where
  calls : Lists s (SiteAt (CalledAt s) tree p) d.apiCalls
  markup : Lists s (SiteAt ReturnedAt tree p) d.markupReturns

theorem Declares.sitesOf {s : Source} {tree t name : Tree} {body : Option Tree} {p : Address}
    (h : Declares t name body) (ht : tree.at? p = some t) :
    SitesOf s tree p (descriptorOf s name body) := by
  obtain ⟨q, f, hf, hbody⟩ := h.functionAt ht
  have hcalls := hf.lists (lists_apiCalls s)
  have hmarkup := hf.lists (lists_markupReturns s)
  rw [← hbody] at hcalls hmarkup
  cases body with
  | none => exact ⟨hcalls, hmarkup⟩
  | some b => exact ⟨hcalls, hmarkup⟩

/-! ## No site is shared -/

/-- What a scan writes down of the body of a function, the function holds. -/
def Held (scan : Tree → Address → Tree → Prop) : Prop :=
  ∀ f i b r y, f.kind.isFunctionLike = true → FieldAt f .body i b → scan b r y →
    ∃ x, HoldsAt f (i :: r) x

theorem held_calledAt (s : Source) : Held (CalledAt s) := by
  intro f i b r site hf hb ⟨call, hcall, _⟩
  exact ⟨call, .scan (.body hf hb hcall)⟩

theorem held_returnedAt : Held ReturnedAt := by
  intro f i b r m hf hb h
  rw [ReturnedAt] at h
  split at h
  · obtain ⟨a, ret, w, hret, hw, rfl⟩ := h
    cases hw with
    | argument hk he hm => exact ⟨m, .returned (.body hf hb hret) hk (.argument hk he hm.reached)⟩
  · exact ⟨m, .scan (.body hf hb h.reached)⟩

/-- **A site has one declaration.** -/
theorem SiteAt.declaration_unique {scan : Tree → Address → Tree → Prop} {tree y y' : Tree}
    {p p' x : Address} (ha : RootsPlain tree) (hscan : Held scan) (h : SiteAt scan tree p x y)
    (h' : SiteAt scan tree p' x y') : p = p' := by
  obtain ⟨q, f, i, b, r, hf, hb, hr, hx⟩ := h
  obtain ⟨q', f', i', b', r', hf', hb', hr', hx'⟩ := h'
  obtain ⟨t, a, ht, hown, rfl⟩ := hf.ownsAt
  obtain ⟨t', a', ht', hown', rfl⟩ := hf'.ownsAt
  obtain ⟨z, hz⟩ := hscan f i b r y hown.isFunctionLike hb hr
  obtain ⟨z', hz'⟩ := hscan f' i' b' r' y' hown'.isFunctionLike hb' hr'
  exact hz.owner_unique ha hz' hown hown' ht ht' (hx.symm.trans hx')

/-- Two nodes share nothing: neither the function that they declare, nor a call or markup
    that is written down about it. -/
structure Apart (s : Source) (tree : Tree) (p p' : Address) : Prop where
  functions : ∀ q f f', FunctionAt tree p q f → ¬ FunctionAt tree p' q f'
  calls : ∀ x y y', SiteAt (CalledAt s) tree p x y → ¬ SiteAt (CalledAt s) tree p' x y'
  markup : ∀ x y y', SiteAt ReturnedAt tree p x y → ¬ SiteAt ReturnedAt tree p' x y'

theorem apart_of_ne {s : Source} {tree : Tree} {p p' : Address} (ha : RootsPlain tree)
    (hne : p ≠ p') : Apart s tree p p' where
  functions := fun _ _ _ h h' => hne (h.declaration_unique ha h')
  calls := fun _ _ _ h h' => hne (h.declaration_unique ha (held_calledAt s) h')
  markup := fun _ _ _ h h' => hne (h.declaration_unique ha held_returnedAt h')

/-- **No site is that of two functions.** The functions of a text with a tree that has no
    faults are those that the named nodes of the tree declare, each described once and in
    document order. The network calls and the returned markup of a descriptor are the
    locations of nodes that the scans of its function write down, and no such node is
    written down for two declarations, nor is one function that of two. -/
theorem sites_unshared (path : Path) (dialect : Dialect) (text : List Char) (tree : Tree)
    (hfree : ErrorFree tree) (ha : RootsPlain tree) :
    ∃ found : List (Address × Descriptor),
      readTree path dialect text tree = .ok (found.map Prod.snd) ∧
      Recorded false tree (fun t d => ∃ name body, Declares t name body ∧
        d = descriptorOf (Source.ofText text) name body) found ∧
      (∀ p d, (p, d) ∈ found → SitesOf (Source.ofText text) tree p d) ∧
      ∀ p p', p ≠ p' → Apart (Source.ofText text) tree p p' := by
  obtain ⟨found, hrecorded, hfound⟩ := exists_recorded
    (fun t d => @describe?_eq_some_iff (Source.ofText text) t d) false tree
  refine ⟨found, ?_, hrecorded, ?_, fun p p' => apart_of_ne ha⟩
  · rw [(analyzeTree_eq_ok hfree).1, descriptors_eq, hfound]
  · intro p d hd
    obtain ⟨t, ht, name, body, hdecl, rfl⟩ := (hrecorded.exact p d).mp hd
    exact hdecl.sitesOf ht.at?

theorem sites_unshared_sample :
    (ErrorFree sampleTree ∧ RootsPlain sampleTree) ∧
    ∃ found : List (Address × Descriptor),
      extract "card.tsx" .tsx sampleText = .ok (found.map Prod.snd) ∧
      Recorded false sampleTree (fun t d => ∃ name body, Declares t name body ∧
        d = descriptorOf (Source.ofText sampleText) name body) found ∧
      (∀ p d, (p, d) ∈ found → SitesOf (Source.ofText sampleText) sampleTree p d) ∧
      ∀ p p', p ≠ p' → Apart (Source.ofText sampleText) sampleTree p p' := by
  obtain ⟨hfree, _, _, ha, _⟩ := sample_fits
  exact ⟨⟨hfree, ha⟩, sites_unshared "card.tsx" .tsx sampleText sampleTree hfree ha⟩

end RoleLint
