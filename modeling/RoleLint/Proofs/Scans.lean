import RoleLint.Proofs.Addresses
import RoleLint.Proofs.Sites

/- What the scans of a function body write down, node by node. Nodes are told apart by
   their addresses, so nothing is assumed of the tree.

   1. `network_calls_exact` - of the network calls in the direct scope of a body each is
      written down once, in document order, and nothing else is.
   2. `FirstMarkupAt`, `firstMarkup?_iff_firstMarkupAt` - the search for markup finds the
      first one, if there is one.
   3. `markup_returns_exact` - the same as 1. for the returns of a body that return markup. -/
namespace RoleLint

/-- **The scan for network calls is exact.** It makes one entry for each call of the network
    that is reached from the body through named nodes without passing a function below the
    body; the entry is the location of what is called, and the entries are in document
    order. -/
theorem network_calls_exact (s : Source) (body : Tree) :
    ∃ entries : List (Address × Tree), Recorded true body (NetworkCall s) entries ∧
      apiCalls s body = entries.map fun e => s.locationOf e.2 := by
  have hsite : ∀ call site, networkSite? s call = some site ↔ NetworkCall s call site :=
    fun _ _ => networkSite?_eq_some_iff
  obtain ⟨entries, hrecorded, hentries⟩ := exists_recorded hsite true body
  refine ⟨entries, hrecorded, ?_⟩
  rw [apiCalls_eq, hentries, List.map_map]
  rfl

/-! ## Returned markup -/

/-- The first markup in the direct scope of a node, in document order. -/
abbrev FirstMarkupAt (root : Tree) (p : Address) (m : Tree) : Prop :=
  FirstAt true root (fun t => t.kind = .markup) p m

/-- Some markup is in the direct scope of a node. -/
def HoldsMarkup (root : Tree) : Prop :=
  ∃ p m, Reached true root p m ∧ m.kind = .markup

theorem firstMarkup?_iff_firstMarkupAt {root m : Tree} :
    firstMarkup? root = some m ↔ ∃ p, FirstMarkupAt root p m := by
  rw [firstMarkup?_eq, find?_preorder_eq_some_iff]
  simp only [beq_iff_eq]

/-- The search for markup finds some where there is some. -/
theorem exists_firstMarkupAt_iff {root : Tree} :
    (∃ p m, FirstMarkupAt root p m) ↔ HoldsMarkup root := by
  constructor
  · intro ⟨p, m, h⟩
    exact ⟨p, m, h.reached, h.holds⟩
  · intro ⟨q, n, hn, hk⟩
    have hne : firstMarkup? root ≠ none := by
      rw [firstMarkup?_eq]
      exact find?_preorder_ne_none hn (by simpa using hk)
    obtain ⟨m, hm⟩ := Option.ne_none_iff_exists'.mp hne
    obtain ⟨p, hp⟩ := firstMarkup?_iff_firstMarkupAt.mp hm
    exact ⟨p, m, hp⟩

/-- A return whose argument has markup in its direct scope, the first being `m`. The argument
    may itself be a function. -/
def ReturnsFirst (r m : Tree) : Prop :=
  r.kind = .returned ∧ ∃ e p, r.firstExpression? = some e ∧ FirstMarkupAt e p m

theorem returnedMarkup?_iff_returnsFirst {r m : Tree} :
    returnedMarkup? r = some m ↔ ReturnsFirst r m := by
  unfold returnedMarkup? ReturnsFirst
  by_cases h : r.kind = .returned
  · simp [h, Option.bind_eq_some_iff, firstMarkup?_iff_firstMarkupAt]
  · simp [h]

theorem exists_returnsFirst_iff {r : Tree} :
    (∃ m, ReturnsFirst r m) ↔
      r.kind = .returned ∧ ∃ e, r.firstExpression? = some e ∧ HoldsMarkup e := by
  constructor
  · intro ⟨m, hk, e, p, he, hm⟩
    exact ⟨hk, e, he, exists_firstMarkupAt_iff.mp ⟨p, m, hm⟩⟩
  · intro ⟨hk, e, he, hm⟩
    obtain ⟨p, m, hm⟩ := exists_firstMarkupAt_iff.mpr hm
    exact ⟨m, hk, e, p, he, hm⟩

/-- The returns that a record of the returned markup is about. -/
theorem Recorded.exists_mem_iff_holdsMarkup {body : Tree} {entries : List (Address × Tree)}
    (h : Recorded true body ReturnsFirst entries) (p : Address) :
    (∃ m, (p, m) ∈ entries) ↔ ∃ r e, Reached true body p r ∧ r.kind = .returned ∧
      r.firstExpression? = some e ∧ HoldsMarkup e := by
  constructor
  · intro ⟨m, hm⟩
    obtain ⟨r, hr, hm⟩ := (h.exact p m).mp hm
    obtain ⟨hk, e, he, hmarkup⟩ := exists_returnsFirst_iff.mp ⟨m, hm⟩
    exact ⟨r, e, hr, hk, he, hmarkup⟩
  · intro ⟨r, e, hr, hk, he, hmarkup⟩
    obtain ⟨m, hm⟩ := exists_returnsFirst_iff.mpr ⟨hk, e, he, hmarkup⟩
    exact ⟨m, (h.exact p m).mpr ⟨r, hr, hm⟩⟩

/-- A body that is no block is itself what is returned. -/
theorem markupReturns_of_not_block {body : Tree} (s : Source) (h : body.kind ≠ .block) :
    (∃ p m, FirstMarkupAt body p m ∧ markupReturns s body = [s.locationOf m]) ∨
      ¬ HoldsMarkup body ∧ markupReturns s body = [] := by
  rw [markupReturns_eq_of_not_block h]
  cases hfirst : firstMarkup? body with
  | some m =>
    obtain ⟨p, hp⟩ := firstMarkup?_iff_firstMarkupAt.mp hfirst
    exact .inl ⟨p, m, hp, rfl⟩
  | none =>
    refine .inr ⟨?_, rfl⟩
    intro hmarkup
    obtain ⟨p, m, hm⟩ := exists_firstMarkupAt_iff.mpr hmarkup
    rw [firstMarkup?_iff_firstMarkupAt.mpr ⟨p, hm⟩] at hfirst
    cases hfirst

/-- **The scan for returned markup is exact.** Of a block it makes one entry for each return
    in the direct scope of the block whose argument has markup in its own direct scope; the
    entry is the location of the first such markup, and the entries are in the document order
    of the returns. A body that is no block is itself what is returned: its only entry is the
    location of the first markup in its direct scope, if there is some. -/
theorem markup_returns_exact (s : Source) (body : Tree) :
    if body.kind = .block then
      ∃ entries : List (Address × Tree), Recorded true body ReturnsFirst entries ∧
        (∀ p, (∃ m, (p, m) ∈ entries) ↔ ∃ r e, Reached true body p r ∧ r.kind = .returned ∧
          r.firstExpression? = some e ∧ HoldsMarkup e) ∧
        markupReturns s body = entries.map fun e => s.locationOf e.2
    else
      (∃ p m, FirstMarkupAt body p m ∧ markupReturns s body = [s.locationOf m]) ∨
        ¬ HoldsMarkup body ∧ markupReturns s body = [] := by
  split
  · next hblock =>
    have hreturn : ∀ r m, returnedMarkup? r = some m ↔ ReturnsFirst r m :=
      fun _ _ => returnedMarkup?_iff_returnsFirst
    obtain ⟨entries, hrecorded, hentries⟩ := exists_recorded hreturn true body
    refine ⟨entries, hrecorded, hrecorded.exists_mem_iff_holdsMarkup, ?_⟩
    rw [markupReturns_eq_of_block hblock, hentries, List.map_map]
    rfl
  · next hblock => exact markupReturns_of_not_block s hblock

end RoleLint
