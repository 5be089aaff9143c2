import RoleLint.Wire
import RoleLint.Proofs.JsonText
import RoleLint.Proofs.RawText

/- The wire forms lose nothing: what is written of a value is read back as that value.

   1. `Carries` - a JSON value that is read as some value; `Carries.decode` takes it to texts.
   2. `carries_list` - forms of lists.
   3. one lemma per type. Numbers are read back if they fit 64 bits, and results are written
      if their path is a text (`Fits`). -/
namespace RoleLint

/-! ## What fits -/

/-- Line and column fit 64 bits. -/
def Location.Fits (l : Location) : Prop :=
  l.line < Wire.numberLimit ∧ l.column < Wire.numberLimit

/-- All locations of a descriptor fit 64 bits. -/
structure Descriptor.Fits (d : Descriptor) : Prop where
  location : d.location.Fits
  apiCalls : ∀ l ∈ d.apiCalls, l.Fits
  markupReturns : ∀ l ∈ d.markupReturns, l.Fits

/-- The path of a result is a text, and all its locations fit 64 bits. -/
structure Result.Fits (r : Result) : Prop where
  path : r.filePath.IsText
  violations : ∀ v ∈ r.violations, v.location.Fits

namespace Wire
open Json (Plain)

/-! ## Forms -/

/-- The value that a text holds in a wire form. -/
def decode {α : Type} (form : Json → Option α) (s : String) : Option α :=
  (Json.parse? s).bind form

/-- A JSON value without parts that cannot be used is read as `a`. -/
structure Carries {α : Type} (form : Json → Option α) (j : Json) (a : α) : Prop where
  plain : Plain j
  read : form j = some a

/-- **What is written of a value is read back**, in both layouts, with or without a line end
    after it. -/
theorem Carries.decode {α : Type} {form : Json → Option α} {j : Json} {a : α}
    (h : Carries form j a) (pretty : Bool) :
    decode form (j.render pretty ++ "\n") = some a ∧ decode form (j.render pretty) = some a := by
  obtain ⟨h1, h2⟩ := Json.parse?_render h.plain pretty
  simp only [Wire.decode, h1, h2, Option.bind_some, h.read, and_self]

theorem carries_list {α : Type} {form : Json → Option α} {encode : α → Json} {xs : List α}
    (h : ∀ x ∈ xs, Carries form (encode x) x) :
    Carries (readList form) (.list (xs.map encode)) xs := by
  refine ⟨.list ?_, ?_⟩
  · intro j hj
    obtain ⟨x, hx, rfl⟩ := List.mem_map.mp hj
    exact (h x hx).plain
  · show (xs.map encode).mapM form = some xs
    induction xs with
    | nil => rfl
    | cons x xs ih =>
      have hx := (h x List.mem_cons_self).read
      have hxs := ih fun y hy => h y (List.mem_cons_of_mem x hy)
      rw [List.map_cons, List.mapM_cons, hx, hxs]
      rfl

/-- An object is plain if all that it holds is. -/
theorem plain_object {ms : List (String × Json)} (h : ∀ j ∈ ms.map Prod.snd, Plain j) :
    Plain (.object ms) :=
  .object fun m hm => h m.2 (List.mem_map.mpr ⟨m, hm, rfl⟩)

/-! ## Types -/

theorem carries_severity (s : Severity) : Carries severity? (ofSeverity s) s :=
  ⟨.text _, by cases s <;> rfl⟩

theorem carries_role (r : Role) : Carries role? (ofRole r) r :=
  ⟨.text _, by cases r <;> rfl⟩

theorem readNumber_natural {n : Nat} (h : n < numberLimit) : readNumber (.natural n) = some n :=
  if_pos h

theorem carries_location {l : Location} (h : l.Fits) : Carries location? (ofLocation l) l := by
  refine ⟨plain_object ?_, ?_⟩
  · simp only [List.map_cons, List.map_nil, List.forall_mem_cons]
    exact ⟨.natural _, .natural _, by simp⟩
  · obtain ⟨hline, hcolumn⟩ := h
    simp [location?, ofLocation, required, member, readNumber_natural hline,
      readNumber_natural hcolumn]

theorem carries_descriptor {d : Descriptor} (h : d.Fits) :
    Carries descriptor? (ofDescriptor d) d := by
  have hlocation := carries_location h.location
  have hcalls := carries_list fun l hl => carries_location (h.apiCalls l hl)
  have hreturns := carries_list fun l hl => carries_location (h.markupReturns l hl)
  refine ⟨plain_object ?_, ?_⟩
  · simp only [List.map_cons, List.map_nil, List.forall_mem_cons]
    exact ⟨.text _, (carries_role _).plain, hlocation.plain, hcalls.plain, hreturns.plain, by simp⟩
  · simp [descriptor?, ofDescriptor, required, member, readText, (carries_role _).read,
      hlocation.read, hcalls.read, hreturns.read]

theorem carries_descriptors {ds : List Descriptor} (h : ∀ d ∈ ds, d.Fits) :
    Carries descriptors? (ofDescriptors ds) ds :=
  carries_list fun d hd => carries_descriptor (h d hd)

theorem carries_functionRef (f : FunctionRef) : Carries functionRef? (ofFunctionRef f) f := by
  refine ⟨plain_object ?_, ?_⟩
  · simp only [List.map_cons, List.map_nil, List.forall_mem_cons]
    exact ⟨.text _, (carries_role _).plain, by simp⟩
  · simp [functionRef?, ofFunctionRef, required, member, readText, (carries_role _).read]

theorem carries_violation {v : Violation} (h : v.location.Fits) :
    Carries violation? (ofViolation v) v := by
  have hlocation := carries_location h
  refine ⟨plain_object ?_, ?_⟩
  · simp only [List.map_cons, List.map_nil, List.forall_mem_cons]
    exact ⟨.text _, .text _, (carries_severity _).plain, (carries_functionRef _).plain,
      hlocation.plain, by simp⟩
  · simp [violation?, ofViolation, required, member, readText, (carries_severity _).read,
      (carries_functionRef _).read, hlocation.read]

/-- **A result has a form if its path is a text**, and only then. -/
theorem ofResult?_isSome_iff {r : Result} : (ofResult? r).isSome ↔ r.filePath.IsText := by
  rw [ofResult?, ofPath?, Option.isSome_map, Option.isSome_map, RawText.isText_iff]

theorem carries_result {r : Result} (h : r.Fits) :
    ∃ j, ofResult? r = some j ∧ Carries result? j r := by
  obtain ⟨version, path, violations⟩ := r
  obtain ⟨s, rfl⟩ := h.path
  have hviolations := carries_list fun v hv => carries_violation (h.violations v hv)
  refine ⟨_, by rw [ofResult?, ofPath?, RawText.text?_ofString]; rfl, plain_object ?_, ?_⟩
  · simp only [List.map_cons, List.map_nil, List.forall_mem_cons]
    exact ⟨.text _, .text _, hviolations.plain, by simp⟩
  · simp [result?, required, member, readText, path?, hviolations.read]

end Wire

end RoleLint
