import RoleLint.Proofs.Editor
import RoleLint.Proofs.Ownership

/- Every finding is about one function, and no two stand at one place.

   1. `Marks` - sorts of nodes that are known by an offset; `calls_mark` and `markup_marks`
      are the two that findings are about.
   2. `HeldAt`, `Marks.locate_ne` - the offsets of such nodes that a declaration holds, and
      that no other declaration has a location in common with it.
   3. `descriptors_apart`, `calls_ne_returns` - no two functions share a network call or
      returned markup, and no location is that of both.
   4. `findings_attributed` - findings stand at different locations, in their order, and each
      is about the one function that has its location. -/
namespace RoleLint

/-! ## Nodes known by an offset -/

/-- A sort of nodes, each with an offset of the text that lies in the node and that no
    node of the sort below it has. -/
structure Marks (text : List Char) (tree : Tree) (P : Tree → Nat → Prop) : Prop where
  inside : ∀ t n, Within tree t → P t n → IsBoundary text n ∧ t.start ≤ n ∧ n < t.stop
  below : ∀ t c u n m, Within tree t → P t n → c ∈ t.children → Within c u → P u m → n ≠ m

/-- A network call is known by where its site starts. -/
def CallAt (s : Source) (call : Tree) (n : Nat) : Prop :=
  ∃ site, NetworkCall s call site ∧ site.start = n

/-- Markup is known by where it starts. -/
def MarkupAt (m : Tree) (n : Nat) : Prop :=
  m.kind = .markup ∧ m.start = n

section
variable {text : List Char} {tree : Tree} (hs : SpansFit text tree)
include hs

theorem calls_mark (hn : NamesLead tree) : Marks text tree (CallAt (Source.ofText text)) where
  inside := by
    rintro call _ hw ⟨site, hcall, rfl⟩
    obtain ⟨hsite, hle, hlt, hle'⟩ := hcall.span hs hw
    exact ⟨(hs.boundaries site (mem_everyNode_iff.mpr hsite)).1, hle, by omega⟩
  below := by
    rintro call c call' _ _ hw ⟨site, hcall, rfl⟩ hc hb ⟨site', hcall', rfl⟩
    exact hcall.start_ne_of_below hs hn hw hc hb hcall'

theorem markup_marks (hm : MarkupApart text tree) : Marks text tree MarkupAt where
  inside := by
    rintro m _ hw ⟨hk, rfl⟩
    have hmem := mem_everyNode_iff.mpr hw
    obtain ⟨cs, hcs, hhead⟩ := Option.bind_eq_some_iff.mp (hm.bracket m hmem hk)
    obtain ⟨rest, rfl⟩ := List.head?_eq_some_iff.mp hhead
    obtain ⟨a, b, -, ha, hstop⟩ := byteSlice_eq_some_iff.mp hcs
    have := Char.utf8Size_pos '<'
    rw [byteLength_cons] at hstop
    exact ⟨(hs.boundaries m hmem).1, Nat.le_refl _, by omega⟩
  below := by
    rintro m c m' _ _ hw ⟨hk, rfl⟩ hc hb ⟨hk', rfl⟩
    have := hm.apart m (mem_everyNode_iff.mpr hw) hk c hc m' (mem_everyNode_iff.mpr hb) hk'
    omega

/-- A node of such a sort is known by its offset. -/
theorem Marks.eq_of_offset {P : Tree → Nat → Prop} (h : Marks text tree P) {t u : Tree} {n : Nat}
    (ht : Within tree t) (htn : P t n) (hu : Within tree u) (hun : P u n) : t = u := by
  obtain ⟨-, _, _⟩ := h.inside t n ht htn
  obtain ⟨-, _, _⟩ := h.inside u n hu hun
  rcases hs.nested_or_apart ht hu with hle | hle | hle | hle
  · rcases hle.cases_head with rfl | ⟨c, hc, hb⟩
    · rfl
    · exact absurd rfl (h.below t c u n n ht htn hc hb hun)
  · rcases hle.cases_head with rfl | ⟨c, hc, hb⟩
    · rfl
    · exact absurd rfl (h.below u c t n n hu hun hc hb htn)
  · omega
  · omega

end

/-! ## Sites of a declaration -/

/-- At the offset `n` stands a node of the sort that the function that `t` declares holds
    itself. -/
def HeldAt (P : Tree → Nat → Prop) (t : Tree) (n : Nat) : Prop :=
  ∃ f x, Owns t f ∧ Holds f x ∧ P x n

theorem Declares.owns {t name b : Tree} {body : Option Tree} (h : Declares t name body)
    (hb : body = some b) : ∃ f, Owns t f ∧ f.child? .body = some b := by
  cases h with
  | function hk _ => exact ⟨t, .function hk, hb⟩
  | binding hk _ _ hv hf =>
    obtain ⟨p, hp, _⟩ := hf
    exact ⟨_, .binding hk hv hp, hb⟩

theorem describe?_calls {s : Source} {t : Tree} {d : Descriptor} {l : Location}
    (hd : describe? s t = some d) (hl : l ∈ d.apiCalls) :
    ∃ n, HeldAt (CallAt s) t n ∧ s.locate n = l := by
  obtain ⟨name, body, hdecl, rfl⟩ := describe?_eq_some_iff.mp hd
  cases body with
  | none => cases hl
  | some b =>
    obtain ⟨f, hf, hb⟩ := hdecl.owns rfl
    obtain ⟨call, site, hscope, hcall, rfl⟩ := mem_apiCalls_iff.mp hl
    exact ⟨site.start, ⟨f, call, hf, .body hb hscope, site, hcall, rfl⟩, rfl⟩

theorem describe?_returns {s : Source} {t : Tree} {d : Descriptor} {l : Location}
    (hd : describe? s t = some d) (hl : l ∈ d.markupReturns) :
    ∃ n, HeldAt MarkupAt t n ∧ s.locate n = l := by
  obtain ⟨name, body, hdecl, rfl⟩ := describe?_eq_some_iff.mp hd
  cases body with
  | none => cases hl
  | some b =>
    obtain ⟨f, hf, hb⟩ := hdecl.owns rfl
    obtain ⟨m, hk, rfl, hscope | ⟨r, e, hr, hrk, he, hscope⟩⟩ := exists_of_mem_markupReturns hl
    · exact ⟨m.start, ⟨f, m, hf, .body hb hscope, hk, rfl⟩, rfl⟩
    · exact ⟨m.start, ⟨f, m, hf, .returned hb hr hrk he hscope, hk, rfl⟩, rfl⟩

section
variable {text : List Char} {tree : Tree} (hs : SpansFit text tree)
include hs

/-- A node that two declarations hold would have to be in both, and in the scope of only
    one of their functions. -/
theorem Holds.not_shared (ha : RootsPlain tree) {u v f g x : Tree} (h : Holds f x)
    (h' : Holds g x) (hf : Owns u f) (hg : Owns v g) (hu : Within tree u) (hv : Within tree v)
    (hx : x.start < x.stop)
    (huv : (∃ c ∈ u.steps false, v ∈ c.preorder false) ∨ u.stop ≤ v.start) : False := by
  rcases huv with ⟨c, hc, hcv⟩ | hle
  · obtain ⟨i, hi⟩ := List.mem_iff_getElem?.mp (Tree.mem_steps.mp hc).1
    obtain ⟨a, hav⟩ := exists_at?_of_within (within_of_mem_preorder hcv)
    have hv : u.at? (i :: a) = some v := by rw [Tree.at?, hi, Option.bind_some, hav]
    cases h.not_below hs ha h' hf hg hu hv hx
  · have h1 := hs.within hu (hf.within.trans h.within)
    have h2 := hs.within hv (hg.within.trans h'.within)
    omega

/-- What two declarations hold of a sort stands at different locations. -/
theorem Marks.locate_ne {P : Tree → Nat → Prop} (h : Marks text tree P) (ha : RootsPlain tree)
    {u v : Tree} {n m : Nat} (hu : Within tree u) (hv : Within tree v)
    (huv : (∃ c ∈ u.steps false, v ∈ c.preorder false) ∨ u.stop ≤ v.start)
    (hn : HeldAt P u n) (hm : HeldAt P v m) :
    (Source.ofText text).locate n ≠ (Source.ofText text).locate m := by
  intro heq
  obtain ⟨f, x, hf, hx, hxn⟩ := hn
  obtain ⟨g, y, hg, hy, hym⟩ := hm
  have hxw := hu.trans (hf.within.trans hx.within)
  have hyw := hv.trans (hg.within.trans hy.within)
  obtain ⟨hbn, _, _⟩ := h.inside x n hxw hxn
  obtain ⟨hbm, _, _⟩ := h.inside y m hyw hym
  -- A shared location is a shared offset, that a shared node, and that has one owner.
  obtain rfl := Source.locate_inj hbn hbm heq
  obtain rfl := h.eq_of_offset hs hxw hxn hyw hym
  exact hx.not_shared hs ha hy hf hg hu hv (by omega) huv

/-- **No two functions share a site.** -/
theorem descriptors_apart (hn : NamesLead tree) (ha : RootsPlain tree)
    (hm : MarkupApart text tree) :
    (descriptors (Source.ofText text) tree).Pairwise fun d e =>
      (∀ l ∈ d.apiCalls, l ∉ e.apiCalls) ∧ ∀ l ∈ d.markupReturns, l ∉ e.markupReturns := by
  rw [descriptors_eq, List.pairwise_filterMap]
  apply (preorder_ordered hs .root).imp_of_mem
  intro u v hu hv huv d hd e he
  have hu := within_of_mem_preorder hu
  have hv := within_of_mem_preorder hv
  refine ⟨?_, ?_⟩
  · intro l hl hl'
    obtain ⟨n, hheld, rfl⟩ := describe?_calls hd hl
    obtain ⟨m, hheld', heq⟩ := describe?_calls he hl'
    exact (calls_mark hs hn).locate_ne hs ha hu hv huv hheld hheld' heq.symm
  · intro l hl hl'
    obtain ⟨n, hheld, rfl⟩ := describe?_returns hd hl
    obtain ⟨m, hheld', heq⟩ := describe?_returns he hl'
    exact (markup_marks hs hm).locate_ne hs ha hu hv huv hheld hheld' heq.symm

end

/-- No location is both that of a network call and that of markup: an editor shows a name
    at the one and a bracket at the other. -/
theorem calls_ne_returns {text : List Char} {tree : Tree} (hb : OnBoundaries text tree)
    (hl : MembersLead tree) (hm : MarkupApart text tree) {d e : Descriptor} {l : Location}
    (hd : d ∈ descriptors (Source.ofText text) tree)
    (he : e ∈ descriptors (Source.ofText text) tree) (hcall : l ∈ d.apiCalls) :
    l ∉ e.markupReturns := by
  intro hret
  rw [descriptors_eq] at hd he
  obtain ⟨u, hu, hd⟩ := List.mem_filterMap.mp hd
  obtain ⟨v, hv, he⟩ := List.mem_filterMap.mp he
  obtain ⟨n, ⟨f, call, hf, hheld, site, hnet, rfl⟩, rfl⟩ := describe?_calls hd hcall
  obtain ⟨n, ⟨g, m, hg, hheld', hk, rfl⟩, heq⟩ := describe?_returns he hret
  have hcw := (within_of_mem_preorder hu).trans (hf.within.trans hheld.within)
  have hmw := (within_of_mem_preorder hv).trans (hg.within.trans hheld'.within)
  obtain ⟨cs, hcs, hhead⟩ := Option.bind_eq_some_iff.mp
    (hm.bracket m (mem_everyNode_iff.mpr hmw) hk)
  obtain ⟨tail, rfl⟩ := List.head?_eq_some_iff.mp hhead
  obtain ⟨rest, hread⟩ := hb.shows hmw
  rw [textOf_eq_ofList hcs, String.toList_ofList] at hread
  have hnames := hb.shows_network hl hcw hnet
  rw [Source.locationOf, ← heq] at hnames
  rcases hnames with ⟨rest', h⟩ | ⟨rest', h⟩
  · cases hread.symm.trans h
  · cases hread.symm.trans h

/-! ## Findings -/

theorem filter_eq_singleton {α : Type} {p : α → Bool} {l : List α} {a : α}
    (h : l.Pairwise fun b c => p b = true → p c = false) (ha : a ∈ l) (hp : p a = true) :
    l.filter p = [a] := by
  obtain ⟨before, after, rfl⟩ := List.append_of_mem ha
  obtain ⟨-, hafter, hbefore⟩ := List.pairwise_append.mp h
  have h1 : before.filter p = [] := by
    rw [List.filter_eq_nil_iff]
    intro b hb hpb
    rw [hbefore b hb a List.mem_cons_self hpb] at hp
    cases hp
  have h2 : after.filter p = [] := by
    rw [List.filter_eq_nil_iff]
    intro c hc hpc
    rw [(List.pairwise_cons.mp hafter).1 c hc hp] at hpc
    cases hpc
  rw [List.filter_append, List.filter_cons_of_pos hp, h1, h2, List.nil_append]

section
variable {text : List Char} {tree : Tree} (hs : SpansFit text tree) (hn : NamesLead tree)
  (ha : RootsPlain tree) (hm : MarkupApart text tree)
include hs hn ha hm

/-- No two findings stand at one location. -/
theorem findings_apart : (findings Rule.all (descriptors (Source.ofText text) tree)).Pairwise
    fun v w => v.location ≠ w.location := by
  rw [findings_all, List.pairwise_filterMap]
  apply (descriptors_apart hs hn ha hm).imp_of_mem
  intro d e hd he hde v hv w hw heq
  have hne := @calls_ne_returns text tree hs.boundaries hn.member_start hm
  rcases (finding?_site hv).2 with ⟨_, hlv⟩ | ⟨_, hlv⟩ <;>
    rcases (finding?_site hw).2 with ⟨_, hlw⟩ | ⟨_, hlw⟩
  · exact hde.1 _ hlv (heq ▸ hlw)
  · exact hne hd he hlv (heq ▸ hlw)
  · exact hne he hd hlw (heq ▸ hlv)
  · exact hde.2 _ hlv (heq ▸ hlw)

/-- A site is that of one function only. -/
theorem owner_of_site {d : Descriptor} {l : Location}
    (hd : d ∈ descriptors (Source.ofText text) tree) :
    (l ∈ d.apiCalls →
      (descriptors (Source.ofText text) tree).filter (fun d => l ∈ d.apiCalls) = [d]) ∧
    (l ∈ d.markupReturns →
      (descriptors (Source.ofText text) tree).filter (fun d => l ∈ d.markupReturns) = [d]) := by
  have hapart := descriptors_apart hs hn ha hm
  refine ⟨fun hl => ?_, fun hl => ?_⟩
  · refine filter_eq_singleton (hapart.imp fun {b c} hbc hb => ?_) hd (by simpa using hl)
    simpa using hbc.1 l (by simpa using hb)
  · refine filter_eq_singleton (hapart.imp fun {b c} hbc hb => ?_) hd (by simpa using hl)
    simpa using hbc.2 l (by simpa using hb)

end

/-- **Every finding has a place and a function of its own.** The findings about a text with
    a tree that has no faults stand at strictly increasing locations. Of the functions of
    the text exactly one has the location of a finding among its network calls, or among
    its returned markup, as the rule is about the one or the other; it is the function that
    the finding names. -/
theorem findings_attributed (path : Path) (dialect : Dialect) (text : List Char) (tree : Tree)
    (hfree : ErrorFree tree) (hs : SpansFit text tree) (hn : NamesLead tree)
    (ha : RootsPlain tree) (hm : MarkupApart text tree) :
    ∃ ds r, readTree path dialect text tree = .ok ds ∧
      analyzeTree path dialect text tree = .ok r ∧
      r.violations.Pairwise (fun v w => v.location.Before w.location) ∧
      ∀ v ∈ r.violations, ∃ d, d.ref = v.function ∧
        (v.ruleId = "no-direct-api-in-component" ∧
            ds.filter (fun d => v.location ∈ d.apiCalls) = [d] ∨
          v.ruleId = "no-markup-in-hook" ∧
            ds.filter (fun d => v.location ∈ d.markupReturns) = [d]) := by
  obtain ⟨hread, hanalyze⟩ := @analyzeTree_eq_ok path dialect text tree hfree
  refine ⟨_, _, hread, hanalyze, report_strict (findings_apart hs hn ha hm), ?_⟩
  intro v hv
  have hv := (report_perm Rule.all (descriptors (Source.ofText text) tree)).mem_iff.mp hv
  rw [findings_all] at hv
  obtain ⟨d, hd, hv⟩ := List.mem_filterMap.mp hv
  obtain ⟨href, hsite⟩ := finding?_site hv
  obtain ⟨hcalls, hreturns⟩ := @owner_of_site text tree hs hn ha hm d v.location hd
  refine ⟨d, href, ?_⟩
  rcases hsite with ⟨hid, hl⟩ | ⟨hid, hl⟩
  · exact .inl ⟨hid, hcalls hl⟩
  · exact .inr ⟨hid, hreturns hl⟩

theorem findings_attributed_sample :
    (ErrorFree sampleTree ∧ SpansFit sampleText sampleTree ∧ NamesLead sampleTree ∧
      RootsPlain sampleTree ∧ MarkupApart sampleText sampleTree) ∧
    ∃ ds r, extract "card.tsx" .tsx sampleText = .ok ds ∧
      analyze "card.tsx" .tsx sampleText = .ok r ∧
      r.violations.Pairwise (fun v w => v.location.Before w.location) ∧
      ∀ v ∈ r.violations, ∃ d, d.ref = v.function ∧
        (v.ruleId = "no-direct-api-in-component" ∧
            ds.filter (fun d => v.location ∈ d.apiCalls) = [d] ∨
          v.ruleId = "no-markup-in-hook" ∧
            ds.filter (fun d => v.location ∈ d.markupReturns) = [d]) := by
  obtain ⟨hfree, hs, hl, ha, hm⟩ := sample_fits
  exact ⟨⟨hfree, hs, hl.toNamesLead, ha, hm⟩, findings_attributed "card.tsx" .tsx sampleText
    sampleTree hfree hs hl.toNamesLead ha hm⟩

end RoleLint
