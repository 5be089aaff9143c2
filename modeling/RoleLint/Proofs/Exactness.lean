import RoleLint.Analysis
import RoleLint.Proofs.Report
import RoleLint.Proofs.Spans

/- The analysis reports exactly what it is meant to report.

   1. `LeastCall`, `head?_apiCalls` - the first network call that a scan of a body
      records is the first one in the text.
   2. `finding?_eq_some_iff`, `findings_all` - a function breaks at most one of the rules
      that are built in.
   3. `Offence` - what a declaration does wrong, said without scans.
   4. `analysis_exact` - the findings about a text are the offences of the nodes of its
      tree, each once. -/
namespace RoleLint

/-! ## The first call -/

/-- The least location of a network call in the direct scope of a body. -/
def LeastCall (s : Source) (body : Tree) (l : Location) : Prop :=
  (∃ call site, InScope body call ∧ NetworkCall s call site ∧ l = s.locationOf site) ∧
    ∀ call site, InScope body call → NetworkCall s call site → l.le (s.locationOf site) = true

theorem Location.le_antisymm {a b : Location} (h : a.le b = true) (h' : b.le a = true) : a = b := by
  cases a
  cases b
  simp only [le, Bool.or_eq_true, decide_eq_true_eq, Bool.and_eq_true, beq_iff_eq] at h h'
  simp only [mk.injEq]
  omega

theorem LeastCall.unique {s : Source} {body : Tree} {l l' : Location} (h : LeastCall s body l)
    (h' : LeastCall s body l') : l = l' := by
  obtain ⟨⟨call, site, hc, hn, rfl⟩, hle⟩ := h
  obtain ⟨⟨call', site', hc', hn', rfl⟩, hle'⟩ := h'
  exact Location.le_antisymm (hle call' site' hc' hn') (hle' call site hc hn)

section
variable {text : List Char} {tree : Tree} (hs : SpansFit text tree) (hl : CalleesLead tree)
include hs hl

theorem leastCall_of_head? {body : Tree} {l : Location} (hb : Within tree body)
    (h : (apiCalls (Source.ofText text) body).head? = some l) :
    LeastCall (Source.ofText text) body l := by
  rw [apiCalls_eq, List.head?_map] at h
  obtain ⟨first, hfirst, rfl⟩ := Option.map_eq_some_iff.mp h
  obtain ⟨rest, hsites⟩ := List.head?_eq_some_iff.mp hfirst
  have hmem : first ∈ (body.preorder true).filterMap (networkSite? (Source.ofText text)) := by
    rw [hsites]
    exact List.mem_cons_self
  obtain ⟨call, hcall, hsite⟩ := List.mem_filterMap.mp hmem
  refine ⟨⟨call, first, mem_preorder_true_iff.mp hcall, networkSite?_eq_some_iff.mp hsite, rfl⟩, ?_⟩
  intro call' site' hc' hn'
  have hcall' := mem_preorder_true_iff.mpr hc'
  have hmem' := List.mem_filterMap.mpr ⟨call', hcall', networkSite?_eq_some_iff.mpr hn'⟩
  -- The sites are in the order of the text, so none comes before the first one.
  have hle : first.start ≤ site'.start := by
    have hordered := networkSites_ordered hs (hl.sitesLead hs) true hb
    rw [hsites] at hordered hmem'
    rcases List.mem_cons.mp hmem' with rfl | hrest
    · exact Nat.le_refl _
    · exact Nat.le_of_lt ((List.pairwise_cons.mp hordered).1 site' hrest)
  have boundary : ∀ {c t : Tree}, c ∈ body.preorder true →
      NetworkCall (Source.ofText text) c t → IsBoundary text t.start := by
    intro c t hc hn
    obtain ⟨hw, -⟩ := hn.span hs (hb.trans (within_of_mem_preorder hc))
    exact (hs.boundaries t (mem_everyNode_iff.mpr hw)).1
  exact Source.locate_le (boundary hcall (networkSite?_eq_some_iff.mp hsite))
    (boundary hcall' hn') hle

/-- The first call that a scan records is the first one in the text. -/
theorem head?_apiCalls {body : Tree} {l : Location} (hb : Within tree body) :
    (apiCalls (Source.ofText text) body).head? = some l ↔
      LeastCall (Source.ofText text) body l := by
  refine ⟨leastCall_of_head? hs hl hb, fun h => ?_⟩
  obtain ⟨⟨call, site, hc, hn, _⟩, _⟩ := id h
  cases hcalls : (apiCalls (Source.ofText text) body).head? with
  | some l' => rw [(leastCall_of_head? hs hl hb hcalls).unique h]
  | none =>
    rw [apiCalls_eq, List.head?_map, Option.map_eq_none_iff, List.head?_eq_none_iff] at hcalls
    have := List.mem_filterMap.mpr
      ⟨call, mem_preorder_true_iff.mpr hc, networkSite?_eq_some_iff.mpr hn⟩
    rw [hcalls] at this
    cases this

end

/-! ## Findings about one function -/

/-- The finding that a network call in a component leads to. -/
def apiFinding (name : String) (l : Location) : Violation :=
  ⟨"no-direct-api-in-component", "React component should not call API directly", .error,
    ⟨name, .component⟩, l⟩

/-- The finding that markup in a hook leads to. -/
def markupFinding (name : String) (l : Location) : Violation :=
  ⟨"no-markup-in-hook", "Hooks must not return JSX", .error, ⟨name, .hook⟩, l⟩

/-- The finding about a function, if it breaks one of the rules that are built in. -/
def Descriptor.finding? (d : Descriptor) : Option Violation :=
  match d.role with
  | .component => d.apiCalls.head?.map (apiFinding d.name)
  | .hook => d.markupReturns.head?.map (markupFinding d.name)
  | .utility => none

theorem filterMap_check_all (d : Descriptor) :
    (Rule.all.filterMap fun r => r.check d) = d.finding?.toList := by
  unfold Descriptor.finding?
  cases hr : d.role
  · cases hc : d.apiCalls.head? <;>
      simp [Rule.all, Rule.noDirectApi, Rule.noMarkup, Rule.firstSite, Descriptor.ref, apiFinding,
        hr, hc]
  · cases hc : d.markupReturns.head? <;>
      simp [Rule.all, Rule.noDirectApi, Rule.noMarkup, Rule.firstSite, Descriptor.ref,
        markupFinding, hr, hc]
  · simp [Rule.all, Rule.noDirectApi, Rule.noMarkup, Rule.firstSite, hr]

/-- A function breaks at most one of the rules that are built in. -/
theorem findings_all (ds : List Descriptor) :
    findings Rule.all ds = ds.filterMap Descriptor.finding? := by
  simp only [findings, filterMap_check_all]
  rw [List.filterMap_eq_flatMap_toList]

theorem finding?_eq_some_iff {d : Descriptor} {v : Violation} :
    d.finding? = some v ↔
      (d.role = .component ∧ ∃ l, d.apiCalls.head? = some l ∧ v = apiFinding d.name l) ∨
        (d.role = .hook ∧ ∃ l, d.markupReturns.head? = some l ∧ v = markupFinding d.name l) := by
  unfold Descriptor.finding?
  cases hr : d.role <;> simp [Option.map_eq_some_iff, eq_comm (a := v)]

/-- A finding is about its function, at one of the function's sites. -/
theorem finding?_site {d : Descriptor} {v : Violation} (h : d.finding? = some v) :
    d.ref = v.function ∧
      (v.ruleId = "no-direct-api-in-component" ∧ v.location ∈ d.apiCalls ∨
        v.ruleId = "no-markup-in-hook" ∧ v.location ∈ d.markupReturns) := by
  rcases finding?_eq_some_iff.mp h with ⟨hr, l, hl, rfl⟩ | ⟨hr, l, hl, rfl⟩
  · refine ⟨?_, .inl ⟨rfl, List.mem_of_head? hl⟩⟩
    rw [Descriptor.ref, hr]
    rfl
  · refine ⟨?_, .inr ⟨rfl, List.mem_of_head? hl⟩⟩
    rw [Descriptor.ref, hr]
    rfl

/-- What holds of the sites of all functions holds of the locations of all findings. -/
theorem report_located {ds : List Descriptor} {P : Location → Prop}
    (h : ∀ d ∈ ds, (∀ l ∈ d.apiCalls, P l) ∧ ∀ l ∈ d.markupReturns, P l) {v : Violation}
    (hv : v ∈ report Rule.all ds) : P v.location := by
  have hv := (report_perm Rule.all ds).mem_iff.mp hv
  rw [findings_all] at hv
  obtain ⟨d, hd, hv⟩ := List.mem_filterMap.mp hv
  rcases (finding?_site hv).2 with ⟨_, hl⟩ | ⟨_, hl⟩
  · exact (h d hd).1 _ hl
  · exact (h d hd).2 _ hl

/-! ## Offences -/

/-- What a node does wrong: it declares a component that calls the network in the direct
    scope of its body, or a hook that returns markup. The finding is about the first
    call in the text, or about the first markup of the first return that has some. -/
inductive Offence (s : Source) (t : Tree) : Violation → Prop where
  | api {name body : Tree} {l : Location} : Declares t name (some body) →
      Role.ofName (s.textOf name) = .component → LeastCall s body l →
      Offence s t (apiFinding (s.textOf name) l)
  | markup {name body m : Tree} : Declares t name (some body) →
      Role.ofName (s.textOf name) = .hook → FirstReturned body m →
      Offence s t (markupFinding (s.textOf name) (s.locationOf m))

theorem Declares.within_body {t name b : Tree} {body : Option Tree} (h : Declares t name body)
    (hb : body = some b) : Within t b := by
  cases h with
  | function _ _ => exact .child .root (mem_children_of_child? hb)
  | binding _ _ _ hv hf =>
    obtain ⟨p, hp, _⟩ := hf
    exact .child ((Within.child .root (mem_children_of_child? hv)).trans hp.within)
      (mem_children_of_child? hb)

/-- The finding about the function that a node declares. -/
def nodeFinding? (s : Source) (t : Tree) : Option Violation :=
  (describe? s t).bind Descriptor.finding?

theorem nodeFinding?_eq_some_iff {text : List Char} {tree t : Tree} (hs : SpansFit text tree)
    (hl : CalleesLead tree) (ht : Within tree t) {v : Violation} :
    nodeFinding? (Source.ofText text) t = some v ↔ Offence (Source.ofText text) t v := by
  rw [nodeFinding?, Option.bind_eq_some_iff]
  constructor
  · rintro ⟨d, hd, hv⟩
    obtain ⟨name, body, hdecl, rfl⟩ := describe?_eq_some_iff.mp hd
    cases body with
    | none => simp [finding?_eq_some_iff, descriptorOf, Descriptor.ofName] at hv
    | some body =>
      have hb := ht.trans (hdecl.within_body rfl)
      rcases finding?_eq_some_iff.mp hv with ⟨hr, l, hc, rfl⟩ | ⟨hr, l, hm, rfl⟩
      · exact .api hdecl hr ((head?_apiCalls hs hl hb).mp hc)
      · obtain ⟨m, hfirst, rfl⟩ := head?_markupReturns.mp hm
        exact .markup hdecl hr hfirst
  · intro h
    cases h with
    | @api name body l hdecl hr hc =>
      have hb := ht.trans (hdecl.within_body rfl)
      exact ⟨_, describe?_eq_some_iff.mpr ⟨name, some body, hdecl, rfl⟩,
        finding?_eq_some_iff.mpr (.inl ⟨hr, l, (head?_apiCalls hs hl hb).mpr hc, rfl⟩)⟩
    | @markup name body m hdecl hr hm =>
      exact ⟨_, describe?_eq_some_iff.mpr ⟨name, some body, hdecl, rfl⟩,
        finding?_eq_some_iff.mpr (.inr ⟨hr, _, head?_markupReturns.mpr ⟨m, hm, rfl⟩, rfl⟩)⟩

theorem findings_descriptors (s : Source) (tree : Tree) :
    findings Rule.all (descriptors s tree) = (tree.preorder false).filterMap (nodeFinding? s) := by
  rw [findings_all, descriptors_eq, List.filterMap_filterMap]
  rfl

theorem analyzeTree_eq_ok {path : Path} {dialect : Dialect} {text : List Char} {tree : Tree}
    (h : ErrorFree tree) :
    readTree path dialect text tree = .ok (descriptors (Source.ofText text) tree) ∧
      analyzeTree path dialect text tree =
        .ok (judge path (descriptors (Source.ofText text) tree)) := by
  simp only [analyzeTree, readTree, firstFault_eq_none h]
  exact ⟨trivial, rfl⟩

/-- **The analysis reports exactly the offences.** A text with a tree that has no faults
    gets a result; its findings are, in some order, the offences of the named nodes of the
    tree. A node has at most one, so there are as many findings as nodes that offend. -/
theorem analysis_exact (path : Path) (dialect : Dialect) (text : List Char) (tree : Tree)
    (hfree : ErrorFree tree) (hs : SpansFit text tree) (hl : CalleesLead tree) :
    ∃ r, analyzeTree path dialect text tree = .ok r ∧ r.filePath = path ∧
      ∃ verdict : Tree → Option Violation,
        (∀ t ∈ tree.preorder false, ∀ v,
          verdict t = some v ↔ Offence (Source.ofText text) t v) ∧
        r.violations.Perm ((tree.preorder false).filterMap verdict) ∧
        r.violations.length = (tree.preorder false).countP fun t => (verdict t).isSome := by
  have hperm := report_perm Rule.all (descriptors (Source.ofText text) tree)
  rw [findings_descriptors] at hperm
  refine ⟨_, (analyzeTree_eq_ok hfree).2, rfl, nodeFinding? (Source.ofText text), ?_, hperm, ?_⟩
  · intro t ht v
    exact nodeFinding?_eq_some_iff hs hl (within_of_mem_preorder ht)
  · exact hperm.length_eq.trans List.length_filterMap_eq_countP

theorem analysis_exact_sample :
    (ErrorFree sampleTree ∧ SpansFit sampleText sampleTree ∧ CalleesLead sampleTree) ∧
    ∃ r, analyze "card.tsx" .tsx sampleText = .ok r ∧ r.filePath = "card.tsx" ∧
      ∃ verdict : Tree → Option Violation,
        (∀ t ∈ sampleTree.preorder false, ∀ v,
          verdict t = some v ↔ Offence (Source.ofText sampleText) t v) ∧
        r.violations.Perm ((sampleTree.preorder false).filterMap verdict) ∧
        r.violations.length = (sampleTree.preorder false).countP fun t => (verdict t).isSome := by
  obtain ⟨hfree, hs, hl, _⟩ := sample_fits
  exact ⟨⟨hfree, hs, hl⟩, analysis_exact "card.tsx" .tsx sampleText sampleTree hfree hs hl⟩

end RoleLint
