import Mathlib.Data.List.Basic
import RoleLint.Proofs.Unwrap

/- What extraction records, said without walks.

   1. `NetworkCall`, `apiCalls_eq` - the network calls of a body are those in its direct
      scope, in document order.
   2. `FirstOf`, `ReturnsMarkup`, `markupReturns_eq_of_block` - the same for returned
      markup.
   3. `Declares`, `describe?_eq_some_iff`, `descriptors_eq` - the functions of a tree are
      those that its named nodes declare, in document order. -/
namespace RoleLint

/-- The first element of a list with a property. -/
def FirstOf {α : Type} (P : α → Prop) (l : List α) (a : α) : Prop :=
  ∃ before after, l = before ++ a :: after ∧ P a ∧ ∀ b ∈ before, ¬ P b

theorem find?_eq_some_iff_firstOf {α : Type} {p : α → Bool} {l : List α} {a : α} :
    l.find? p = some a ↔ FirstOf (fun b => p b = true) l a := by
  rw [List.find?_eq_some_iff_append]
  constructor
  · rintro ⟨hp, before, after, hl, hb⟩
    exact ⟨before, after, hl, hp, fun b hm => by simpa using hb b hm⟩
  · rintro ⟨before, after, hl, hp, hb⟩
    exact ⟨hp, before, after, hl, fun b hm => by simpa using hb b hm⟩

/-- What a search that also maps finds first. -/
theorem head?_filterMap_eq_some_iff {α β : Type} {f : α → Option β} {l : List α} {b : β} :
    (l.filterMap f).head? = some b ↔
      ∃ a, FirstOf (fun a => ∃ b, f a = some b) l a ∧ f a = some b := by
  rw [List.head?_filterMap, List.findSome?_eq_some_iff]
  constructor
  · rintro ⟨before, a, after, hl, hf, hb⟩
    refine ⟨a, ⟨before, after, hl, ⟨b, hf⟩, ?_⟩, hf⟩
    rintro c hc ⟨d, hd⟩
    rw [hb c hc] at hd
    cases hd
  · rintro ⟨a, ⟨before, after, hl, _, hb⟩, hf⟩
    refine ⟨before, a, after, hl, hf, ?_⟩
    intro c hc
    cases h : f c with
    | none => rfl
    | some d => exact absurd ⟨d, h⟩ (hb c hc)

/-! ## Network calls -/

/-- The node that a call calls; an `await` around it is looked through. -/
def Called (call site : Tree) : Prop :=
  ∃ callee, call.child? .callee = some callee ∧
    (callee.kind ≠ .awaited ∧ site = callee ∨
      callee.kind = .awaited ∧ callee.firstExpression? = some site)

/-- A name of the network: `fetch`, `axios`, or a member of `axios`. -/
def NetworkName (s : Source) (site : Tree) : Prop :=
  site.kind = .identifier ∧ (s.textOf site = "fetch" ∨ s.textOf site = "axios") ∨
    site.kind = .member ∧ ∃ object, site.child? .object = some object ∧
      object.kind = .identifier ∧ s.textOf object = "axios"

/-- A call of the network at `site`: it has arguments that are no template, and what it
    calls is a name of the network. -/
structure NetworkCall (s : Source) (call site : Tree) : Prop where
  isCall : call.kind = .call
  hasArguments : ∃ args, call.child? .arguments = some args ∧ args.kind ≠ .template
  called : Called call site
  name : NetworkName s site

theorem isNetworkCallee_iff {s : Source} {site : Tree} :
    s.isNetworkCallee site = true ↔ NetworkName s site := by
  unfold Source.isNetworkCallee NetworkName
  split
  · next hk => simp [hk, networkNames]
  · next hk =>
    simp only [hk, reduceCtorEq, false_and, false_or, true_and]
    cases site.child? .object <;>
      simp [Source.isClient, networkClient]
  · next hi hm =>
    simp only [Bool.false_eq_true, false_iff]
    rintro (⟨hk, _⟩ | ⟨hk, _⟩)
    · exact hi hk
    · exact hm hk

theorem calledNode?_eq_some_iff {call site : Tree} :
    calledNode? call = some site ↔ Called call site := by
  unfold calledNode? Called
  cases call.child? .callee with
  | none => simp
  | some callee =>
    by_cases h : callee.kind = .awaited
    · simp [h]
    · simp [h, eq_comm (a := site)]

/-- Where a node calls the network, if it does. -/
def networkSite? (s : Source) (t : Tree) : Option Tree :=
  if t.kind == .call then networkCallee? s t else none

theorem networkSite?_eq_some_iff {s : Source} {t site : Tree} :
    networkSite? s t = some site ↔ NetworkCall s t site := by
  have hfilter : (calledNode? t).filter s.isNetworkCallee = some site ↔
      Called t site ∧ NetworkName s site := by
    rw [Option.filter_eq_some_iff, calledNode?_eq_some_iff, isNetworkCallee_iff]
  constructor
  · intro h
    unfold networkSite? networkCallee? at h
    split at h
    · next hk =>
      split at h
      · cases h
      · next args ha =>
        split at h
        · cases h
        · next ht =>
          obtain ⟨hc, hn⟩ := hfilter.mp h
          exact ⟨by simpa using hk, ⟨args, ha, by simpa using ht⟩, hc, hn⟩
    · cases h
  · rintro ⟨hk, ⟨args, ha, ht⟩, hc, hn⟩
    unfold networkSite? networkCallee?
    rw [if_pos (by simpa using hk), ha]
    simp only [beq_iff_eq, ht, if_false]
    exact hfilter.mpr ⟨hc, hn⟩

theorem apiCalls_eq (s : Source) (body : Tree) :
    apiCalls s body = ((body.preorder true).filterMap (networkSite? s)).map s.locationOf := by
  -- The visitor never skips and appends at most one location at each node.
  have hrecord : ∀ (t : Tree) (found : List Location), recordCall s t found =
      (.descend, found ++ ((networkSite? s t).map s.locationOf).toList) := by
    intro t found
    unfold recordCall networkSite?
    split
    · cases networkCallee? s t <;> simp
    · simp
  rw [apiCalls, walkScope, traverseFrom_eq_foldl _ _ (fun t found => by rw [hrecord])]
  simp only [hrecord]
  rw [← List.flatMap_eq_foldl, List.map_filterMap, List.filterMap_eq_flatMap_toList]

/-- The network calls of a body, one by one. -/
theorem mem_apiCalls_iff {s : Source} {body : Tree} {l : Location} :
    l ∈ apiCalls s body ↔
      ∃ call site, InScope body call ∧ NetworkCall s call site ∧ s.locationOf site = l := by
  simp only [apiCalls_eq, List.mem_map, List.mem_filterMap, mem_preorder_true_iff,
    networkSite?_eq_some_iff]
  constructor
  · rintro ⟨site, ⟨call, hscope, hcall⟩, rfl⟩
    exact ⟨call, site, hscope, hcall, rfl⟩
  · rintro ⟨call, site, hscope, hcall, rfl⟩
    exact ⟨site, ⟨call, hscope, hcall⟩, rfl⟩

/-! ## Returned markup -/

/-- The first markup in the direct scope of a node. -/
def FirstMarkup (root m : Tree) : Prop :=
  FirstOf (fun t => t.kind = .markup) (root.preorder true) m

/-- A return of markup, whose first is `m`. -/
def ReturnsMarkup (t m : Tree) : Prop :=
  t.kind = .returned ∧ ∃ e, t.firstExpression? = some e ∧ FirstMarkup e m

theorem firstMarkup?_eq (root : Tree) :
    firstMarkup? root = (root.preorder true).find? fun t => t.kind == .markup :=
  traverseFrom_eq_find? true _ recordMarkup (fun _ _ => rfl) (fun _ => rfl) root

theorem firstMarkup?_eq_some_iff {root m : Tree} :
    firstMarkup? root = some m ↔ FirstMarkup root m := by
  rw [firstMarkup?_eq, find?_eq_some_iff_firstOf, FirstMarkup]
  simp only [beq_iff_eq]

/-- The markup that a node returns, if it does. -/
def returnedMarkup? (t : Tree) : Option Tree :=
  if t.kind == .returned then t.firstExpression?.bind firstMarkup? else none

theorem returnedMarkup?_eq_some_iff {t m : Tree} :
    returnedMarkup? t = some m ↔ ReturnsMarkup t m := by
  unfold returnedMarkup? ReturnsMarkup
  by_cases h : t.kind = .returned
  · simp [h, Option.bind_eq_some_iff, firstMarkup?_eq_some_iff]
  · simp [h]

theorem markupReturns_eq_of_block {s : Source} {body : Tree} (h : body.kind = .block) :
    markupReturns s body = ((body.preorder true).filterMap returnedMarkup?).map s.locationOf := by
  have hrecord : ∀ (t : Tree) (found : List Location), recordReturn s t found =
      (.descend, found ++ ((returnedMarkup? t).map s.locationOf).toList) := by
    intro t found
    unfold recordReturn returnedMarkup?
    split
    · cases t.firstExpression?.bind firstMarkup? <;> simp
    · simp
  rw [markupReturns, if_pos (by simpa using h), walkScope,
    traverseFrom_eq_foldl _ _ (fun t found => by rw [hrecord])]
  simp only [hrecord]
  rw [← List.flatMap_eq_foldl, List.map_filterMap, List.filterMap_eq_flatMap_toList]

theorem markupReturns_eq_of_not_block {s : Source} {body : Tree} (h : body.kind ≠ .block) :
    markupReturns s body = (firstMarkup? body).toList.map s.locationOf := by
  rw [markupReturns, if_neg (by simpa using h)]
  cases firstMarkup? body <;> rfl

/-- The first markup that a body returns. A body that is no block is itself what is
    returned; of a block it is the first markup of the first return that has some. -/
def FirstReturned (body m : Tree) : Prop :=
  if body.kind = .block then
    ∃ r, FirstOf (fun t => ∃ m, ReturnsMarkup t m) (body.preorder true) r ∧ ReturnsMarkup r m
  else FirstMarkup body m

theorem head?_markupReturns {s : Source} {body : Tree} {l : Location} :
    (markupReturns s body).head? = some l ↔
      ∃ m, FirstReturned body m ∧ l = s.locationOf m := by
  unfold FirstReturned
  by_cases h : body.kind = .block
  · simp only [h, if_true, markupReturns_eq_of_block, List.head?_map, Option.map_eq_some_iff,
      head?_filterMap_eq_some_iff, returnedMarkup?_eq_some_iff, eq_comm (a := l)]
  · rw [markupReturns_eq_of_not_block h]
    simp only [h, if_false, List.head?_map, Option.head?_toList, Option.map_eq_some_iff,
      firstMarkup?_eq_some_iff, eq_comm (a := l)]

theorem FirstMarkup.spec {root m : Tree} (h : FirstMarkup root m) :
    m.kind = .markup ∧ InScope root m := by
  obtain ⟨before, after, hl, hk, _⟩ := h
  refine ⟨hk, mem_preorder_true_iff.mp ?_⟩
  rw [hl]
  exact List.mem_append_right before List.mem_cons_self

/-- The markup that a body returns stands in its direct scope, or in that of what a return
    there returns. -/
theorem exists_of_mem_markupReturns {s : Source} {body : Tree} {l : Location}
    (h : l ∈ markupReturns s body) :
    ∃ m, m.kind = .markup ∧ s.locationOf m = l ∧
      (InScope body m ∨ ∃ r e, InScope body r ∧ r.kind = .returned ∧
        r.firstExpression? = some e ∧ InScope e m) := by
  by_cases hk : body.kind = .block
  · rw [markupReturns_eq_of_block hk] at h
    obtain ⟨m, hm, rfl⟩ := List.mem_map.mp h
    obtain ⟨r, hr, hm⟩ := List.mem_filterMap.mp hm
    obtain ⟨hrk, e, he, hfirst⟩ := returnedMarkup?_eq_some_iff.mp hm
    exact ⟨m, hfirst.spec.1, rfl, .inr ⟨r, e, mem_preorder_true_iff.mp hr, hrk, he, hfirst.spec.2⟩⟩
  · rw [markupReturns_eq_of_not_block hk] at h
    obtain ⟨m, hm, rfl⟩ := List.mem_map.mp h
    have hfirst := firstMarkup?_eq_some_iff.mp (Option.mem_toList.mp hm)
    exact ⟨m, hfirst.spec.1, rfl, .inl hfirst.spec.2⟩

/-! ## Descriptors -/

/-- The node declares a function called by `name`, with a body unless it is only a
    signature: by itself, or as a variable with a plain name whose value stands for a
    function. -/
inductive Declares : Tree → Tree → Option Tree → Prop where
  | function {t name : Tree} : t.kind = .functionDeclaration → t.child? .name = some name →
      Declares t name (t.child? .body)
  | binding {t name value f : Tree} : t.kind = .declarator → t.child? .name = some name →
      name.kind = .identifier → t.child? .value = some value → StandsFor value f →
      Declares t name (f.child? .body)

theorem Declares.child?_name {t name : Tree} {body : Option Tree} (h : Declares t name body) :
    t.child? .name = some name := by
  cases h with
  | function _ hn => exact hn
  | binding _ hn => exact hn

theorem Declares.name_mem {t name : Tree} {body : Option Tree} (h : Declares t name body) :
    name ∈ t.children :=
  mem_children_of_child? h.child?_name

theorem describe?_eq_some_iff {s : Source} {t : Tree} {d : Descriptor} :
    describe? s t = some d ↔ ∃ name body, Declares t name body ∧ d = descriptorOf s name body := by
  constructor
  · intro h
    unfold describe? at h
    split at h
    · next hk =>
      obtain ⟨name, hn, rfl⟩ := Option.map_eq_some_iff.mp h
      exact ⟨name, _, .function hk hn, rfl⟩
    · next hk =>
      split at h
      · next name value hn hv =>
        split at h
        · next hi =>
          obtain ⟨f, hf, rfl⟩ := Option.map_eq_some_iff.mp h
          exact ⟨name, _, .binding hk hn (by simpa using hi) hv
            (unwrapFunction_eq_some_iff.mp hf), rfl⟩
        · cases h
      · cases h
    · cases h
  · rintro ⟨name, body, hd, rfl⟩
    unfold describe?
    cases hd with
    | function hk hn => simp [hk, hn]
    | binding hk hn hi hv hf => simp [hk, hn, hi, hv, unwrapFunction_eq_some_iff.mpr hf]

theorem descriptors_eq (s : Source) (root : Tree) :
    descriptors s root = (root.preorder false).filterMap (describe? s) := by
  rw [descriptors, walk, traverseFrom_eq_foldl _ _ (fun _ _ => rfl)]
  simp only [recordFunction]
  rw [← List.flatMap_eq_foldl, List.filterMap_eq_flatMap_toList]

/-- The descriptors of a tree, one by one. -/
theorem mem_descriptors_iff {s : Source} {root : Tree} {d : Descriptor} :
    d ∈ descriptors s root ↔ ∃ t ∈ root.preorder false, ∃ name body,
      Declares t name body ∧ d = descriptorOf s name body := by
  simp only [descriptors_eq, List.mem_filterMap, describe?_eq_some_iff]

/-- What holds of the locations of all offsets holds of all locations of a descriptor. -/
theorem descriptors_located {s : Source} {root : Tree} {d : Descriptor}
    (hd : d ∈ descriptors s root) {P : Location → Prop} (hp : ∀ n, P (s.locate n)) :
    P d.location ∧ (∀ l ∈ d.apiCalls, P l) ∧ ∀ l ∈ d.markupReturns, P l := by
  obtain ⟨t, _, name, body, _, rfl⟩ := mem_descriptors_iff.mp hd
  cases body with
  | none => exact ⟨hp name.start, by simp [descriptorOf, Descriptor.ofName]⟩
  | some b =>
    refine ⟨hp name.start, ?_, ?_⟩
    · intro l hl
      obtain ⟨_, site, _, _, rfl⟩ := mem_apiCalls_iff.mp hl
      exact hp site.start
    · intro l hl
      obtain ⟨m, _, rfl, _⟩ := exists_of_mem_markupReturns hl
      exact hp m.start

end RoleLint
