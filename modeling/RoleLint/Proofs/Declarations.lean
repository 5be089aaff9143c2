import RoleLint.Proofs.Addresses
import RoleLint.Proofs.SiteOrder

/- The functions of a text, one for each node that declares one.

   1. `Classifies`, `classifies_ofName` - the role that a name stands for.
   2. `Describes`, `describes_iff` - what a descriptor says about a declaration.
   3. `LeafTokens`, `LeafTokens.reached_iff` - a walk sees its root and every named node of a
      tree; `TokensBare` - the root is a named node too.
   4. `NamesFirst`, `declaredNames_ordered` - names stand in the text in the order in which a
      walk meets their declarations.
   5. `declarations_enumerated` - the descriptors of a text are those of its declarations, in
      document order and at increasing locations. -/
namespace RoleLint

/-! ## Roles of names -/

/-- A letter from `A` to `Z`. -/
def Capital (c : Char) : Prop :=
  'A' ≤ c ∧ c ≤ 'Z'

/-- The role that a name stands for: `use` and a capital letter make a hook, a capital letter
    in front a component, and every other name is that of a utility. -/
inductive Classifies : List Char → Role → Prop where
  | hook {c : Char} {rest : List Char} : Capital c →
      Classifies ('u' :: 's' :: 'e' :: c :: rest) .hook
  | component {c : Char} {rest : List Char} : Capital c → Classifies (c :: rest) .component
  | utility {name : List Char} :
      (∀ c rest, name = 'u' :: 's' :: 'e' :: c :: rest → ¬ Capital c) →
      (∀ c rest, name = c :: rest → ¬ Capital c) → Classifies name .utility

theorem isUpper_iff {c : Char} : c.isUpper = true ↔ Capital c :=
  decide_eq_true_iff

theorem isHookName_iff {name : List Char} :
    Role.isHookName name = true ↔ ∃ c rest, name = 'u' :: 's' :: 'e' :: c :: rest ∧ Capital c := by
  unfold Role.isHookName
  split
  · next c rest => simp [isUpper_iff]
  · next hne =>
    constructor
    · intro h
      cases h
    · rintro ⟨c, rest, rfl, _⟩
      exact absurd rfl (hne c rest)

theorem isComponentName_iff {name : List Char} :
    Role.isComponentName name = true ↔ ∃ c rest, name = c :: rest ∧ Capital c := by
  cases name with
  | nil => simp [Role.isComponentName]
  | cons c rest => simp [Role.isComponentName, isUpper_iff]

theorem classifies_ofName (name : String) : Classifies name.toList (Role.ofName name) := by
  unfold Role.ofName
  split
  · next h =>
    obtain ⟨c, rest, heq, hc⟩ := isHookName_iff.mp h
    rw [heq]
    exact .hook hc
  · next hhook =>
    split
    · next h =>
      obtain ⟨c, rest, heq, hc⟩ := isComponentName_iff.mp h
      rw [heq]
      exact .component hc
    · next hcomponent =>
      refine .utility ?_ ?_
      · intro c rest heq hc
        exact hhook (isHookName_iff.mpr ⟨c, rest, heq, hc⟩)
      · intro c rest heq hc
        exact hcomponent (isComponentName_iff.mpr ⟨c, rest, heq, hc⟩)

/-- A name stands for one role. -/
theorem Classifies.unique {name : List Char} {r r' : Role} (h : Classifies name r)
    (h' : Classifies name r') : r = r' := by
  have hu : ¬ Capital 'u' := by
    unfold Capital
    decide
  cases h with
  | hook hc =>
    cases h' with
    | hook _ => rfl
    | component hc' => exact absurd hc' hu
    | utility hno _ => exact absurd hc (hno _ _ rfl)
  | component hc =>
    cases h' with
    | hook _ => exact absurd hc hu
    | component _ => rfl
    | utility _ hno => exact absurd hc (hno _ _ rfl)
  | utility hhook hcomponent =>
    cases h' with
    | hook hc => exact absurd hc (hhook _ _ rfl)
    | component hc => exact absurd hc (hcomponent _ _ rfl)
    | utility _ _ => rfl

/-! ## Descriptions -/

/-- What a descriptor says about the function called `name`: its text, the role that this
    stands for, where it stands, and the sites of the body. A function without a body, which
    is a signature, has none. -/
structure Describes (s : Source) (name : Tree) (body : Option Tree) (d : Descriptor) : Prop where
  text : d.name = s.textOf name
  role : Classifies (s.textOf name).toList d.role
  place : d.location = s.locationOf name
  signature : body = none → d.apiCalls = [] ∧ d.markupReturns = []
  sites : ∀ b, body = some b → d.apiCalls = apiCalls s b ∧ d.markupReturns = markupReturns s b

theorem describes_iff {s : Source} {name : Tree} {body : Option Tree} {d : Descriptor} :
    Describes s name body d ↔ d = descriptorOf s name body := by
  constructor
  · intro h
    have hrole := h.role.unique (classifies_ofName (s.textOf name))
    obtain ⟨n, r, l, calls, returns⟩ := d
    obtain ⟨rfl, -, rfl, hnone, hsome⟩ := h
    cases body with
    | none =>
      obtain ⟨rfl, rfl⟩ := hnone rfl
      obtain rfl : r = Role.ofName (s.textOf name) := hrole
      rfl
    | some b =>
      obtain ⟨rfl, rfl⟩ := hsome b rfl
      obtain rfl : r = Role.ofName (s.textOf name) := hrole
      rfl
  · rintro rfl
    have hrole := classifies_ofName (s.textOf name)
    cases body with
    | none => exact ⟨rfl, hrole, rfl, fun _ => ⟨rfl, rfl⟩, by simp⟩
    | some b =>
      refine ⟨rfl, hrole, rfl, by simp, ?_⟩
      intro b' hb
      obtain rfl := Option.some.inj hb
      exact ⟨rfl, rfl⟩

/-! ## Named nodes -/

/-- Bare tokens have no parts. -/
def LeafTokens (tree : Tree) : Prop :=
  ∀ t ∈ tree.everyNode, t.named = false → t.children = []

instance (tree : Tree) : Decidable (LeafTokens tree) :=
  inferInstanceAs (Decidable (∀ t ∈ tree.everyNode, _ → _))

/-- Bare tokens have no parts, and the root is none of them. -/
structure TokensBare (tree : Tree) : Prop where
  root_named : tree.named = true
  token_leaf : LeafTokens tree

instance (tree : Tree) : Decidable (TokensBare tree) :=
  decidable_of_iff (_ ∧ _) ⟨fun ⟨a, b⟩ => ⟨a, b⟩, fun ⟨a, b⟩ => ⟨a, b⟩⟩

theorem Reached.named {direct : Bool} {root t : Tree} {p : Address} (h : Reached direct root p t)
    (hroot : root.named = true) : t.named = true := by
  induction h with
  | root => exact hroot
  | child _ he _ ih => exact ih (Bool.and_eq_true_iff.mp he).1

/-- Where bare tokens have no parts, only named nodes stand above a node. -/
theorem reached_of_at? {root t : Tree} {p : Address}
    (hleaf : ∀ u, Within root u → u.named = false → u.children = []) (ht : root.at? p = some t)
    (hnamed : t.named = true) : Reached false root p t := by
  induction p generalizing root with
  | nil =>
    obtain rfl := Option.some.inj ht
    exact .root
  | cons i p ih =>
    obtain ⟨c, hc, ht⟩ := Option.bind_eq_some_iff.mp ht
    have hcw : Within root c := .child .root (List.mem_of_getElem? hc)
    have hcn : c.named = true := by
      cases p with
      | nil =>
        obtain rfl := Option.some.inj ht
        exact hnamed
      | cons j p =>
        by_contra hbare
        obtain ⟨d, hd, -⟩ := Option.bind_eq_some_iff.mp ht
        rw [hleaf c hcw (by simpa using hbare)] at hd
        cases hd
    refine .child hc ?_ (ih (fun u hu => hleaf u (hcw.trans hu)) ht)
    simp [enters, hcn]

/-- A walk that is not direct sees its root, and every named node below it. -/
theorem LeafTokens.reached_iff {root t : Tree} {q : Address} (h : LeafTokens root) :
    Reached false root q t ↔ root.at? q = some t ∧ (q = [] ∨ t.named = true) := by
  constructor
  · intro ht
    refine ⟨ht.at?, ?_⟩
    cases ht with
    | root => exact .inl rfl
    | child _ he ht => exact .inr (ht.named (Bool.and_eq_true_iff.mp he).1)
  · rintro ⟨ht, rfl | hnamed⟩
    · cases ht
      exact .root
    · exact reached_of_at? (fun u hu => h u (mem_everyNode_iff.mpr hu)) ht hnamed

/-- **A walk sees every named node of a tree**, at any depth. -/
theorem TokensBare.reached_iff {tree t : Tree} {p : Address} (h : TokensBare tree) :
    Reached false tree p t ↔ tree.at? p = some t ∧ t.named = true := by
  rw [h.token_leaf.reached_iff]
  refine and_congr_right fun ht => or_iff_right_of_imp ?_
  rintro rfl
  obtain rfl := Option.some.inj ht
  exact h.root_named

/-! ## Names in the text -/

/-- The name of the function that a node declares, if it declares one. -/
def declaredName? (t : Tree) : Option Tree :=
  match t.kind with
  | .functionDeclaration => t.child? .name
  | .declarator =>
    if ((t.child? .value).bind unwrapFunction).isSome then
      (t.child? .name).filter fun name => name.kind == .identifier
    else none
  | _ => none

theorem declaredName?_eq_some_iff {t name : Tree} :
    declaredName? t = some name ↔ ∃ body, Declares t name body := by
  constructor
  · intro h
    unfold declaredName? at h
    split at h
    · next hk => exact ⟨_, .function hk h⟩
    · next hk =>
      split at h
      · next hf =>
        obtain ⟨f, hf⟩ := Option.isSome_iff_exists.mp hf
        obtain ⟨value, hv, hf⟩ := Option.bind_eq_some_iff.mp hf
        obtain ⟨hn, hi⟩ := Option.filter_eq_some_iff.mp h
        exact ⟨_, .binding hk hn (by simpa using hi) hv (unwrapFunction_eq_some_iff.mp hf)⟩
      · cases h
    · cases h
  · rintro ⟨body, hd⟩
    cases hd with
    | function hk hn => simp [declaredName?, hk, hn]
    | binding hk hn hi hv hf =>
      simp [declaredName?, hk, hn, hi, hv, unwrapFunction_eq_some_iff.mpr hf]

/-- A descriptor is located at the name of its function. -/
theorem location_describe? (s : Source) (t : Tree) :
    (describe? s t).map Descriptor.location = (declaredName? t).map s.locationOf := by
  cases hd : describe? s t with
  | some d =>
    obtain ⟨name, body, hdecl, hd⟩ := describe?_eq_some_iff.mp hd
    rw [declaredName?_eq_some_iff.mpr ⟨body, hdecl⟩, Option.map_some, Option.map_some,
      (describes_iff.mpr hd).place]
  | none =>
    cases hn : declaredName? t with
    | none => rfl
    | some name =>
      obtain ⟨body, hdecl⟩ := declaredName?_eq_some_iff.mp hn
      rw [describe?_eq_some_iff.mpr ⟨name, body, hdecl, rfl⟩] at hd
      cases hd

/-- A comment, which has no parts. -/
def Tree.isComment (t : Tree) : Bool :=
  t.kind == .comment && t.children.isEmpty

/-- A name that covers some text, has no parts, and ends before the other named parts of its
    declaration start, comments apart. -/
structure LeadingName (t name : Tree) : Prop where
  leaf : name.children = []
  covers : name.start < name.stop
  first : ∀ c ∈ t.namedChildren, c.field ≠ some .name → c.isComment = false →
    name.stop ≤ c.start

/-- Every declaration leads with its name. -/
def NamesFirst (tree : Tree) : Prop :=
  ∀ t ∈ tree.everyNode, ∀ name body, Declares t name body → LeadingName t name

instance (t name : Tree) : Decidable (LeadingName t name) :=
  decidable_of_iff (_ ∧ _ ∧ _) ⟨fun ⟨a, b, c⟩ => ⟨a, b, c⟩, fun ⟨a, b, c⟩ => ⟨a, b, c⟩⟩

instance (tree : Tree) : Decidable (NamesFirst tree) :=
  decidable_of_iff (∀ t ∈ tree.everyNode, ∀ name ∈ declaredName? t, LeadingName t name)
    ⟨fun h t ht name body hd => h t ht name (declaredName?_eq_some_iff.mpr ⟨body, hd⟩),
      fun h t ht name hn =>
        let ⟨body, hd⟩ := declaredName?_eq_some_iff.mp hn
        h t ht name body hd⟩

section
variable {text : List Char} {tree : Tree} (hs : SpansFit text tree)
include hs

/-- The named parts of a declaration that are no leaves stand behind its name. -/
theorem LeadingName.stop_le {t name c : Tree} (h : LeadingName t name) (ht : Within tree t)
    (hn : t.child? .name = some name) (hc : c ∈ t.namedChildren) (hne : c.children ≠ []) :
    name.stop ≤ c.start := by
  obtain ⟨i, hi⟩ := child?_eq_some_iff.mp hn
  obtain ⟨j, hj⟩ := List.mem_iff_getElem?.mp (mem_children_of_mem_namedChildren hc)
  rcases Nat.lt_trichotomy j i with hlt | rfl | hlt
  · -- The name is the first part that fills its field, and a comment would be a leaf.
    have hfield : c.field ≠ some .name := by simpa using hi.first j c hlt hj
    have hcomment : c.isComment = false := by simp [Tree.isComment, hne]
    exact h.first c hc hfield hcomment
  · obtain rfl : name = c := Option.some.inj (hi.child.symm.trans hj)
    exact absurd h.leaf hne
  · have hordered := hs.ordered t (mem_everyNode_iff.mpr ht)
    obtain ⟨hi', rfl⟩ := List.getElem?_eq_some_iff.mp hi.child
    obtain ⟨hj', rfl⟩ := List.getElem?_eq_some_iff.mp hj
    exact List.pairwise_iff_getElem.mp hordered i j hi' hj' hlt

/-- **Names stand in the text in the order of their declarations.** -/
theorem declaredNames_ordered (hn : NamesFirst tree) :
    ((tree.preorder false).filterMap declaredName?).Pairwise fun a b => a.start < b.start := by
  apply hs.filterMap_preorder_ordered .root
  · intro t name ht hname
    obtain ⟨body, hd⟩ := declaredName?_eq_some_iff.mp hname
    have hcovers := (hn t (mem_everyNode_iff.mpr ht) name body hd).covers
    have hspan := hs.within ht (.child .root hd.name_mem)
    omega
  · intro t ht c hc u hu name name' hname hname'
    obtain ⟨body, hd⟩ := declaredName?_eq_some_iff.mp hname
    obtain ⟨body', hd'⟩ := declaredName?_eq_some_iff.mp hname'
    have htw := within_of_mem_preorder ht
    have hlead := hn t (mem_everyNode_iff.mpr htw) name body hd
    have hcw := htw.trans (.child .root (Tree.mem_steps.mp hc).1)
    have hcu := within_of_mem_preorder hu
    -- The inner declaration has parts, so the part of the outer one around it has some too.
    have hne : c.children ≠ [] := by
      rcases hcu.cases_head with rfl | ⟨d, hd, -⟩
      · exact List.ne_nil_of_mem hd'.name_mem
      · exact List.ne_nil_of_mem hd
    have hstop := hlead.stop_le hs htw hd.child?_name (Tree.mem_namedChildren_of_mem_steps hc) hne
    have hcspan := hs.within hcw hcu
    have huspan := hs.within (hcw.trans hcu) (.child .root hd'.name_mem)
    have hcovers := hlead.covers
    omega

theorem descriptors_located_inOrder (hn : NamesFirst tree) :
    ((descriptors (Source.ofText text) tree).map Descriptor.location).Pairwise Location.Before := by
  have hlocations : (descriptors (Source.ofText text) tree).map Descriptor.location =
      ((tree.preorder false).filterMap declaredName?).map (Source.ofText text).locationOf := by
    rw [descriptors_eq, List.map_filterMap, List.map_filterMap]
    simp only [location_describe?]
  rw [hlocations]
  refine (hs.inOrder ?_ (declaredNames_ordered hs hn)).strict
  intro name hname
  obtain ⟨t, ht, hname⟩ := List.mem_filterMap.mp hname
  obtain ⟨body, hd⟩ := declaredName?_eq_some_iff.mp hname
  exact (within_of_mem_preorder ht).trans (.child .root hd.name_mem)

end

/-! ## The declarations of a text -/

/-- **The functions of a text are those that its nodes declare.** A text with a tree that has
    no faults gets one descriptor for each named node that declares a function, at any depth, and
    no other; they are in document order and say what is to be said about their declarations.
    The nodes meant are all named nodes of the tree where bare tokens have no parts, and the
    descriptors have strictly increasing locations where declarations lead with their names. -/
theorem declarations_enumerated (path : Path) (dialect : Dialect) (text : List Char)
    (tree : Tree) (hfree : ErrorFree tree) :
    ∃ found : List (Address × Descriptor),
      readTree path dialect text tree = .ok (found.map Prod.snd) ∧
      Recorded false tree (fun t d => ∃ name body, Declares t name body ∧
        Describes (Source.ofText text) name body d) found ∧
      (∀ p, (∃ d, (p, d) ∈ found) ↔
        ∃ t name body, Reached false tree p t ∧ Declares t name body) ∧
      (TokensBare tree → ∀ p t, Reached false tree p t ↔ tree.at? p = some t ∧ t.named = true) ∧
      (SpansFit text tree → NamesFirst tree →
        ((found.map Prod.snd).map Descriptor.location).Pairwise Location.Before) := by
  have hdescribe : ∀ t d, describe? (Source.ofText text) t = some d ↔
      ∃ name body, Declares t name body ∧ Describes (Source.ofText text) name body d := by
    intro t d
    simp only [describe?_eq_some_iff, describes_iff]
  obtain ⟨found, hrecorded, hfound⟩ := exists_recorded hdescribe false tree
  rw [← descriptors_eq] at hfound
  refine ⟨found, ?_, hrecorded, ?_, fun h p t => h.reached_iff, ?_⟩
  · rw [(analyzeTree_eq_ok hfree).1, hfound]
  · intro p
    constructor
    · intro ⟨d, hd⟩
      obtain ⟨t, ht, name, body, hdecl, -⟩ := (hrecorded.exact p d).mp hd
      exact ⟨t, name, body, ht, hdecl⟩
    · intro ⟨t, name, body, ht, hdecl⟩
      exact ⟨_, (hrecorded.exact p _).mpr ⟨t, ht, name, body, hdecl, describes_iff.mpr rfl⟩⟩
  · intro hs hn
    rw [← hfound]
    exact descriptors_located_inOrder hs hn

/-- A signature, and declarations in a default value and in markup, with a comment in front of
    a name. -/
def nestedText : List Char :=
  ("function f():T;\r\nfunction*/*😀*/Page(x=()=>\x7blet c=()=>0\x7d)" ++
    "\x7breturn<p>\x7b()=>\x7bconst useB=m((()=>0))\x7d\x7d</p>\x7d").toList

/-- The tree of that text. -/
def nestedTree : Tree :=
  Dialect.tsx.parse nestedText

theorem nestedTree_fits : ErrorFree nestedTree ∧ TokensBare nestedTree ∧
    SpansFit nestedText nestedTree ∧ NamesFirst nestedTree := by
  decide +kernel

theorem declarations_enumerated_nested :
    (ErrorFree nestedTree ∧ TokensBare nestedTree ∧ SpansFit nestedText nestedTree ∧
      NamesFirst nestedTree) ∧
    ∃ found : List (Address × Descriptor),
      extract "page.tsx" .tsx nestedText = .ok (found.map Prod.snd) ∧
      (∀ p, (∃ d, (p, d) ∈ found) ↔ ∃ t name body,
        (nestedTree.at? p = some t ∧ t.named = true) ∧ Declares t name body) ∧
      ((found.map Prod.snd).map Descriptor.location).Pairwise Location.Before := by
  obtain ⟨hfree, htokens, hs, hn⟩ := nestedTree_fits
  obtain ⟨found, hread, -, hexact, hnamed, hordered⟩ :=
    declarations_enumerated "page.tsx" .tsx nestedText nestedTree hfree
  simp only [hnamed htokens] at hexact
  exact ⟨⟨hfree, htokens, hs, hn⟩, found, hread, hexact, hordered hs hn⟩

end RoleLint
