import RoleLint.Proofs.Addresses
import RoleLint.Proofs.Spans

/- The function that a node belongs to. A declaration, its function and what that function
   holds follow each other on the way from the root of a tree, so they are prefixes of one
   address, and of two prefixes one continues the other.

   1. `UnwrapsAt`, `UnwrapsAt.wraps` - the way from a value to a function that it may stand
      for, and what stands on it.
   2. `OwnsAt`, `OwnsAt.between` - the same for the function that a declaration is about.
   3. `ScansAt`, `ScansAt.function` - what a scan sees that starts from a function or from a
      return, and that the only function on its way is the root of the scan.
   4. `HoldsAt`, `HoldsAt.not_through`, `HoldsAt.owner_unique` - no other declared function
      comes between a function and what it holds, so one declaration alone holds a node.
   5. `Owns`, `Holds`, `SpansFit.at?_unique` - the same without addresses: a node that covers
      some text has one address. -/
namespace RoleLint

/-! ## From values to functions -/

/-- The way from a value to a function that it may stand for: from parentheses to the first
    expression in them, from a call to one of its arguments. -/
inductive UnwrapsAt : Tree → Address → Tree → Prop where
  | here {t : Tree} : t.isFunctionValue = true → UnwrapsAt t [] t
  | parenthesized {t c f : Tree} {i : Nat} {p : Address} : t.kind = .parenthesized →
      ExpressionAt t i c → UnwrapsAt c p f → UnwrapsAt t (i :: p) f
  | argument {t args c f : Tree} {i j : Nat} {p : Address} : t.kind = .call →
      FieldAt t .arguments i args → args.children[j]? = some c → c.named = true →
      UnwrapsAt c p f → UnwrapsAt t (i :: j :: p) f

theorem exists_unwrapsAt {t f : Tree} {p : List Nat} (h : Unwraps t p f) :
    ∃ a, UnwrapsAt t a f := by
  induction h with
  | here hv => exact ⟨[], .here hv⟩
  | step hi _ ih =>
    obtain ⟨a, ha⟩ := ih
    rcases mem_wrapped_iff.mp (List.mem_of_getElem? hi) with ⟨hk, hc⟩ | ⟨hk, args, hargs, hc⟩
    · obtain ⟨i, hi⟩ := firstExpression?_eq_some_iff.mp hc
      exact ⟨i :: a, .parenthesized hk hi ha⟩
    · obtain ⟨i, hi⟩ := child?_eq_some_iff.mp hargs
      obtain ⟨hmem, hn⟩ := List.mem_filter.mp hc
      obtain ⟨j, hj⟩ := List.mem_iff_getElem?.mp hmem
      exact ⟨i :: j :: a, .argument hk hi hj hn ha⟩

theorem UnwrapsAt.exists_unwraps {t f : Tree} {a : Address} (h : UnwrapsAt t a f) :
    ∃ p, Unwraps t p f := by
  induction h with
  | here hv => exact ⟨[], .here hv⟩
  | parenthesized hk hc _ ih =>
    obtain ⟨p, hp⟩ := ih
    have hmem := mem_wrapped_iff.mpr (.inl ⟨hk, firstExpression?_eq_some_iff.mpr ⟨_, hc⟩⟩)
    obtain ⟨n, hn⟩ := List.mem_iff_getElem?.mp hmem
    exact ⟨n :: p, .step hn hp⟩
  | @argument _ args c _ i _ _ hk hargs hc hnamed _ ih =>
    obtain ⟨p, hp⟩ := ih
    have hnext : c ∈ args.namedChildren := List.mem_filter.mpr ⟨List.mem_of_getElem? hc, hnamed⟩
    have hmem := mem_wrapped_iff.mpr (.inr ⟨hk, args, child?_eq_some_iff.mpr ⟨i, hargs⟩, hnext⟩)
    obtain ⟨n, hn⟩ := List.mem_iff_getElem?.mp hmem
    exact ⟨n :: p, .step hn hp⟩

theorem UnwrapsAt.at? {t f : Tree} {p : Address} (h : UnwrapsAt t p f) : t.at? p = some f := by
  induction h with
  | here _ => rfl
  | parenthesized _ hc _ ih => rw [Tree.at?, hc.child, Option.bind_some, ih]
  | argument _ hargs hc _ _ ih =>
    rw [Tree.at?, hargs.child, Option.bind_some, Tree.at?, hc, Option.bind_some, ih]

theorem UnwrapsAt.isFunctionValue {t f : Tree} {p : Address} (h : UnwrapsAt t p f) :
    f.kind = .functionExpression ∨ f.kind = .arrowFunction := by
  obtain ⟨_, hu⟩ := h.exists_unwraps
  exact hu.isFunctionValue

/-- Kinds that may stand between a variable and the function that it is bound to: those
    that are seen through, and the lists that arguments stand in. -/
def Kind.wraps : Kind → Bool
  | .parenthesized | .call | .template | .other => true
  | _ => false

/-- Between a value and the function that it stands for there is only what wraps. -/
theorem UnwrapsAt.wraps {tree t f g : Tree} {p a b : Address} (ha : RootsPlain tree)
    (h : UnwrapsAt t p f) (ht : Within tree t) (hp : p = a ++ b) (hb : b ≠ [])
    (hg : t.at? a = some g) : g.kind.wraps = true := by
  -- Along the way from the value to the function; `a` ends before its last node.
  induction h generalizing a with
  | here _ => exact absurd (List.append_eq_nil_iff.mp hp.symm).2 hb
  | parenthesized hk hc _ ih =>
    have hcw := ht.trans (.child .root (List.mem_of_getElem? hc.child))
    cases a with
    | nil =>
      cases hg
      rw [hk]; rfl
    | cons n a =>
      rw [List.cons_append, List.cons.injEq] at hp
      obtain ⟨rfl, hp⟩ := hp
      rw [Tree.at?, hc.child, Option.bind_some] at hg
      exact ih hcw hp hg
  | @argument t args c f i j p hk hargs hc _ _ ih =>
    have hargsmem := List.mem_of_getElem? hargs.child
    have hcw := (ht.trans (.child .root hargsmem)).trans (.child .root (List.mem_of_getElem? hc))
    cases a with
    | nil =>
      cases hg
      rw [hk]; rfl
    | cons n a =>
      rw [List.cons_append, List.cons.injEq] at hp
      obtain ⟨rfl, hp⟩ := hp
      rw [Tree.at?, hargs.child, Option.bind_some] at hg
      cases a with
      | nil =>
        obtain rfl : args = g := Option.some.inj hg
        have hfield := child?_eq_some_iff.mpr ⟨i, hargs⟩
        rcases ha.arguments_plain t (mem_everyNode_iff.mpr ht) hk args hfield with hk' | hk' <;>
          rw [hk'] <;> rfl
      | cons m a =>
        rw [List.cons_append, List.cons.injEq] at hp
        obtain ⟨rfl, hp⟩ := hp
        rw [Tree.at?, hc, Option.bind_some] at hg
        exact ih hcw hp hg

/-! ## From declarations to functions -/

/-- The way from a declaration to the function that it is about. -/
inductive OwnsAt : Tree → Address → Tree → Prop where
  | function {t : Tree} : t.kind = .functionDeclaration → OwnsAt t [] t
  | binding {t value f : Tree} {i : Nat} {p : Address} : t.kind = .declarator →
      FieldAt t .value i value → UnwrapsAt value p f → OwnsAt t (i :: p) f

namespace OwnsAt
variable {t f : Tree} {q : Address} (h : OwnsAt t q f)
include h

theorem at? : t.at? q = some f := by
  cases h with
  | function _ => rfl
  | binding _ hv hu => rw [Tree.at?, hv.child, Option.bind_some, hu.at?]

theorem isFunctionLike : f.kind.isFunctionLike = true := by
  cases h with
  | function hk => rw [hk]; rfl
  | binding _ _ hu => rcases hu.isFunctionValue with hk | hk <;> rw [hk] <;> rfl

/-- A function that does not declare itself is bound to a variable. -/
theorem declarator (hk : f.kind ≠ .functionDeclaration) : t.kind = .declarator ∧ q ≠ [] := by
  cases h with
  | function hk' => exact absurd hk' hk
  | binding hk' _ _ => exact ⟨hk', List.cons_ne_nil _ _⟩

/-- A function below its declaration does not declare itself. -/
theorem kind_ne (hq : q ≠ []) : f.kind ≠ .functionDeclaration := by
  cases h with
  | function _ => exact absurd rfl hq
  | binding _ _ hu =>
    intro hk
    rcases hu.isFunctionValue with hk' | hk' <;> rw [hk] at hk' <;> cases hk'

/-- Between a declaration and its function there is only what wraps. -/
theorem between {tree g : Tree} {a b : Address} (ha : RootsPlain tree) (ht : Within tree t)
    (hq : q = a ++ b) (hb : b ≠ []) (hg : t.at? a = some g) :
    a = [] ∧ g.kind = .declarator ∨ g.kind.wraps = true := by
  cases h with
  | function _ => exact absurd (List.append_eq_nil_iff.mp hq.symm).2 hb
  | binding hk hv hu =>
    cases a with
    | nil =>
      cases hg
      exact .inl ⟨rfl, hk⟩
    | cons n a =>
      rw [List.cons_append, List.cons.injEq] at hq
      obtain ⟨rfl, hq⟩ := hq
      rw [Tree.at?, hv.child, Option.bind_some] at hg
      have hvw := ht.trans (.child .root (List.mem_of_getElem? hv.child))
      exact .inr (hu.wraps ha hvw hq hb hg)

end OwnsAt

/-- Declarations of one function are one. -/
theorem OwnsAt.declaration_unique {tree t t' f f' : Tree} {p p' q q' : Address}
    (ha : RootsPlain tree) (h : OwnsAt t q f) (h' : OwnsAt t' q' f') (ht : tree.at? p = some t)
    (ht' : tree.at? p' = some t') (heq : p ++ q = p' ++ q') : p = p' := by
  -- If one address went on from the other, a variable would stand between the other
  -- declaration and the function.
  have apart : ∀ {t t' f : Tree} {p p' q q' a : Address}, OwnsAt t q f → OwnsAt t' q' f →
      tree.at? p = some t → tree.at? p' = some t' → p' = p ++ a → q = a ++ q' → a = [] := by
    intro t t' f p p' q q' a h h' ht ht' hp hq
    by_contra hne
    have hk := h.kind_ne (by rw [hq]; exact List.append_ne_nil_of_left_ne_nil hne q')
    obtain ⟨hdecl, hq'⟩ := h'.declarator hk
    have hbetween : t.at? a = some t' := by
      rw [hp, at?_append_of_eq_some ht] at ht'
      exact ht'
    rcases h.between ha (within_of_at? ht) hq hq' hbetween with ⟨hnil, -⟩ | hwraps
    · exact hne hnil
    · rw [hdecl] at hwraps
      cases hwraps
  have hf : f = f' := by
    have hat := (at?_append_of_eq_some ht q).trans h.at?
    have hat' := (at?_append_of_eq_some ht' q').trans h'.at?
    rw [heq, hat'] at hat
    exact (Option.some.inj hat).symm
  subst hf
  rcases List.append_eq_append_iff.mp heq with ⟨a, hp, hq⟩ | ⟨a, hp, hq⟩
  · rw [hp, apart h h' ht ht' hp hq, List.append_nil]
  · rw [hp, apart h' h ht' ht hp hq, List.append_nil]

/-! ## From functions to what they hold -/

/-- What a scan sees that starts from the body of a function or from the argument of a
    return. -/
inductive ScansAt : Tree → Address → Tree → Prop where
  | body {t b x : Tree} {i : Nat} {p : Address} : t.kind.isFunctionLike = true →
      FieldAt t .body i b → Reached true b p x → ScansAt t (i :: p) x
  | argument {t e x : Tree} {i : Nat} {p : Address} : t.kind = .returned →
      ExpressionAt t i e → Reached true e p x → ScansAt t (i :: p) x

theorem ScansAt.at? {t x : Tree} {p : Address} (h : ScansAt t p x) : t.at? p = some x := by
  cases h with
  | body _ hb hx => rw [Tree.at?, hb.child, Option.bind_some, hx.at?]
  | argument _ he hx => rw [Tree.at?, he.child, Option.bind_some, hx.at?]

/-- The only function on the way of a scan is its root, and that does not declare itself. -/
theorem ScansAt.function {tree t x g : Tree} {a b : Address} (ha : RootsPlain tree)
    (h : ScansAt t (a ++ b) x) (ht : Within tree t) (hne : a ≠ []) (hg : t.at? a = some g)
    (hk : g.kind.isFunctionLike = true) :
    (t.kind.isFunctionLike = true ∨ t.kind = .returned) ∧ g.kind ≠ .functionDeclaration ∧
      ∃ i, a = [i] := by
  have below : ∀ {root : Tree} {a b : Address}, Reached true root (a ++ b) x →
      root.at? a = some g → a = [] := by
    intro root a b hx hg
    by_contra hne
    rw [hx.isFunctionLike_eq_false hne hg] at hk
    cases hk
  cases a with
  | nil => exact absurd rfl hne
  | cons i a =>
    cases h with
    | body hkt hb hx =>
      rw [Tree.at?, hb.child, Option.bind_some] at hg
      obtain rfl := below hx hg
      cases hg
      have hfield := child?_eq_some_iff.mpr ⟨i, hb⟩
      exact ⟨.inl hkt, ha.body_plain t (mem_everyNode_iff.mpr ht) hkt _ hfield, i, rfl⟩
    | argument hkt he hx =>
      rw [Tree.at?, he.child, Option.bind_some] at hg
      obtain rfl := below hx hg
      cases hg
      have hfirst := firstExpression?_eq_some_iff.mpr ⟨i, he⟩
      exact ⟨.inr hkt, ha.return_plain t (mem_everyNode_iff.mpr ht) hkt _ hfirst, i, rfl⟩

/-- No declared function stands on the way of a scan: its parent would have to be the
    variable that it is bound to, or wrap it. -/
theorem ScansAt.not_through {tree t x u f : Tree} {a b w p q : Address} (ha : RootsPlain tree)
    (h : ScansAt t (a ++ b) x) (ht : tree.at? w = some t) (hne : a ≠ [])
    (hu : tree.at? p = some u) (hf : OwnsAt u q f) : p ++ q ≠ w ++ a := by
  intro heq
  have hfa : t.at? a = some f := by
    have hat := (at?_append_of_eq_some hu q).trans hf.at?
    rw [heq, at?_append_of_eq_some ht] at hat
    exact hat
  obtain ⟨hkt, hkf, i, rfl⟩ := h.function ha (within_of_at? ht) hne hfa hf.isFunctionLike
  -- The last steps of both ways are the same, so what is left leads to the parent.
  obtain ⟨q', j, rfl⟩ : ∃ q' j, q = q' ++ [j] :=
    ⟨_, _, (List.dropLast_append_getLast (hf.declarator hkf).2).symm⟩
  rw [← List.append_assoc] at heq
  have hw := (List.append_inj' heq rfl).1
  have hparent : u.at? q' = some t := by
    rw [← hw, at?_append_of_eq_some hu] at ht
    exact ht
  have hbetween := hf.between ha (within_of_at? hu) rfl (List.cons_ne_nil j []) hparent
  revert hkt hbetween
  cases t.kind <;> simp [Kind.isFunctionLike, Kind.wraps]

/-- What a function holds itself: what the scan of its body sees, and what scans from the
    returns among that see. -/
inductive HoldsAt (f : Tree) : Address → Tree → Prop where
  | scan {x : Tree} {h : Address} : ScansAt f h x → HoldsAt f h x
  | returned {r x : Tree} {h k : Address} : ScansAt f h r → r.kind = .returned →
      ScansAt r k x → HoldsAt f (h ++ k) x

theorem HoldsAt.at? {f x : Tree} {h : Address} (hx : HoldsAt f h x) : f.at? h = some x := by
  cases hx with
  | scan hx => exact hx.at?
  | returned hr _ hx => rw [at?_append_of_eq_some hr.at?, hx.at?]

/-- **No declared function comes between a function and what it holds.** -/
theorem HoldsAt.not_through {tree f x u g : Tree} {a b h w p q : Address} (ha : RootsPlain tree)
    (hx : HoldsAt f h x) (hh : h = a ++ b) (hf : tree.at? w = some f) (hne : a ≠ [])
    (hu : tree.at? p = some u) (hg : OwnsAt u q g) : p ++ q ≠ w ++ a := by
  cases hx with
  | scan hx =>
    rw [hh] at hx
    exact hx.not_through ha hf hne hu hg
  | @returned r _ h k hr _ hx =>
    -- The way ends before the return, or it goes on behind it.
    rcases List.append_eq_append_iff.mp hh.symm with ⟨c, hc, -⟩ | ⟨c, hc, hk⟩
    · rw [hc] at hr
      exact hr.not_through ha hf hne hu hg
    · by_cases hnil : c = []
      · rw [hnil, List.append_nil] at hc
        rw [hc]
        rw [← List.append_nil h] at hr
        exact hr.not_through ha hf (hc ▸ hne) hu hg
      · have hrw := (at?_append_of_eq_some hf h).trans hr.at?
        rw [hk] at hx
        rw [hc, ← List.append_assoc]
        exact hx.not_through ha hrw hnil hu hg

/-- **One declaration alone holds a node.** -/
theorem HoldsAt.owner_unique {tree t t' f f' x x' : Tree} {p p' q q' h h' : Address}
    (ha : RootsPlain tree) (hx : HoldsAt f h x) (hx' : HoldsAt f' h' x') (hf : OwnsAt t q f)
    (hf' : OwnsAt t' q' f') (ht : tree.at? p = some t) (ht' : tree.at? p' = some t')
    (heq : p ++ q ++ h = p' ++ q' ++ h') : p = p' := by
  have hat := (at?_append_of_eq_some ht q).trans hf.at?
  have hat' := (at?_append_of_eq_some ht' q').trans hf'.at?
  -- Both functions are on the way to the node; neither is below the other.
  have hfunctions : p ++ q = p' ++ q' := by
    rcases List.append_eq_append_iff.mp heq with ⟨a, hp, hh⟩ | ⟨a, hp, hh⟩
    · by_cases hnil : a = []
      · rw [hp, hnil, List.append_nil]
      · exact absurd hp (hx.not_through ha hh hat hnil ht' hf')
    · by_cases hnil : a = []
      · rw [hp, hnil, List.append_nil]
      · exact absurd hp (hx'.not_through ha hh hat' hnil ht hf)
  exact hf.declaration_unique ha hf' ht ht' hfunctions

/-! ## Without addresses -/

/-- The function that a declaration is about. -/
inductive Owns : Tree → Tree → Prop where
  | function {t : Tree} : t.kind = .functionDeclaration → Owns t t
  | binding {t value f : Tree} {p : List Nat} : t.kind = .declarator →
      t.child? .value = some value → Unwraps value p f → Owns t f

/-- What a function holds itself: the direct scope of its body, and that of what a return
    in it returns. -/
inductive Holds (f x : Tree) : Prop where
  | body {b : Tree} : f.child? .body = some b → InScope b x → Holds f x
  | returned {b r e : Tree} : f.child? .body = some b → InScope b r → r.kind = .returned →
      r.firstExpression? = some e → InScope e x → Holds f x

theorem Owns.exists_ownsAt {t f : Tree} (h : Owns t f) : ∃ q, OwnsAt t q f := by
  cases h with
  | function hk => exact ⟨[], .function hk⟩
  | binding hk hv hu =>
    obtain ⟨i, hi⟩ := child?_eq_some_iff.mp hv
    obtain ⟨a, ha⟩ := exists_unwrapsAt hu
    exact ⟨i :: a, .binding hk hi ha⟩

theorem Holds.exists_holdsAt {f x : Tree} (h : Holds f x) (hf : f.kind.isFunctionLike = true) :
    ∃ a, HoldsAt f a x := by
  cases h with
  | body hb hx =>
    obtain ⟨i, hi⟩ := child?_eq_some_iff.mp hb
    obtain ⟨p, hp⟩ := inScope_iff_reached.mp hx
    exact ⟨i :: p, .scan (.body hf hi hp)⟩
  | returned hb hr hk he hx =>
    obtain ⟨i, hi⟩ := child?_eq_some_iff.mp hb
    obtain ⟨p, hp⟩ := inScope_iff_reached.mp hr
    obtain ⟨j, hj⟩ := firstExpression?_eq_some_iff.mp he
    obtain ⟨k, hk'⟩ := inScope_iff_reached.mp hx
    exact ⟨(i :: p) ++ (j :: k), .returned (.body hf hi hp) hk (.argument hk hj hk')⟩

theorem Owns.within {t f : Tree} (h : Owns t f) : Within t f := by
  obtain ⟨q, hq⟩ := h.exists_ownsAt
  exact within_of_at? hq.at?

theorem Holds.within {f x : Tree} (h : Holds f x) : Within f x := by
  cases h with
  | body hb hx => exact (Within.child .root (mem_children_of_child? hb)).trans hx.within
  | returned hb hr _ he hx =>
    have hbr := (Within.child .root (mem_children_of_child? hb)).trans hr.within
    exact hbr.trans ((Within.child .root (firstExpression?_mem_children he)).trans hx.within)

/-- A node that covers some text has one address. -/
theorem SpansFit.at?_unique {text : List Char} {tree t x : Tree} {p q : Address}
    (hs : SpansFit text tree) (ht : Within tree t) (hp : t.at? p = some x) (hq : t.at? q = some x)
    (hx : x.start < x.stop) : p = q := by
  -- A node is not below itself, and no two children are around one text.
  have self : ∀ {t : Tree} {i : Nat} {p : Address}, t.at? (i :: p) ≠ some t := by
    intro t i p h
    obtain ⟨c, hc, hp⟩ := Option.bind_eq_some_iff.mp h
    have hsmaller := Tree.size_lt_of_mem_children (List.mem_of_getElem? hc)
    have hle := (within_of_at? hp).size_le
    omega
  induction p generalizing t q with
  | nil =>
    obtain rfl : t = x := Option.some.inj hp
    cases q with
    | nil => rfl
    | cons j q => exact absurd hq self
  | cons i p ih =>
    cases q with
    | nil =>
      obtain rfl : t = x := Option.some.inj hq
      exact absurd hp self
    | cons j q =>
      obtain ⟨c, hc, hp⟩ := Option.bind_eq_some_iff.mp hp
      obtain ⟨d, hd, hq⟩ := Option.bind_eq_some_iff.mp hq
      have hcw := ht.trans (.child .root (List.mem_of_getElem? hc))
      have hdw := ht.trans (.child .root (List.mem_of_getElem? hd))
      have hcx := hs.within hcw (within_of_at? hp)
      have hdx := hs.within hdw (within_of_at? hq)
      obtain ⟨hi, rfl⟩ := List.getElem?_eq_some_iff.mp hc
      obtain ⟨hj, rfl⟩ := List.getElem?_eq_some_iff.mp hd
      have hordered := List.pairwise_iff_getElem.mp (hs.ordered t (mem_everyNode_iff.mpr ht))
      rcases Nat.lt_trichotomy i j with hlt | rfl | hlt
      · have := hordered i j hi hj hlt
        omega
      · rw [ih hcw hp hq]
      · have := hordered j i hj hi hlt
        omega

/-- **What one function holds, no declaration in it holds.** -/
theorem Holds.not_below {text : List Char} {tree u v f g x : Tree} {a : Address}
    (hs : SpansFit text tree) (ha : RootsPlain tree) (h : Holds f x) (h' : Holds g x)
    (hf : Owns u f) (hg : Owns v g) (hu : Within tree u) (hv : u.at? a = some v)
    (hx : x.start < x.stop) : a = [] := by
  obtain ⟨p, hp⟩ := exists_at?_of_within hu
  obtain ⟨q, hq⟩ := hf.exists_ownsAt
  obtain ⟨q', hq'⟩ := hg.exists_ownsAt
  obtain ⟨k, hk⟩ := h.exists_holdsAt hq.isFunctionLike
  obtain ⟨k', hk'⟩ := h'.exists_holdsAt hq'.isFunctionLike
  have hpv := (at?_append_of_eq_some hp a).trans hv
  have hpf := (at?_append_of_eq_some hp q).trans hq.at?
  have hpg := (at?_append_of_eq_some hpv q').trans hq'.at?
  have hone : p ++ q ++ k = p ++ a ++ q' ++ k' := by
    apply hs.at?_unique .root _ _ hx
    · exact (at?_append_of_eq_some hpf k).trans hk.at?
    · exact (at?_append_of_eq_some hpg k').trans hk'.at?
  have howner := hk.owner_unique ha hk' hq hq' hp hpv hone
  exact List.append_right_eq_self.mp howner.symm

end RoleLint
