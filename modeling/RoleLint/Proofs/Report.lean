import RoleLint.Rule
import RoleLint.Proofs.Place

/- The order of reports.

   1. `Violation.le_iff` - by location, then by rule; `le_trans` and `le_total`.
   2. `report_perm`, `report_sorted` - a report has all findings, in this order.
   3. `report_strict` - where no two findings share a location, locations alone say the
      order. -/
namespace RoleLint

theorem Location.before_trichotomy (a b : Location) : a.Before b ∨ a = b ∨ b.Before a := by
  cases a
  cases b
  simp only [Before, mk.injEq]
  omega

namespace Violation

theorem le_iff {a b : Violation} :
    a.le b = true ↔
      a.location.Before b.location ∨ a.location = b.location ∧ a.ruleId ≤ b.ruleId := by
  unfold le
  by_cases h : a.location = b.location
  · have hirrefl : ¬ a.location.Before b.location := by
      rw [h]
      exact Location.Before.irrefl _
    simp [h, h ▸ hirrefl]
  · rw [if_neg (by simpa using h)]
    simp only [h, false_and, or_false]
    refine ⟨fun hle => ?_, Location.le_of_before⟩
    rcases Location.before_trichotomy a.location b.location with hb | hb | hb
    · exact hb
    · exact absurd hb h
    · unfold Location.Before at hb ⊢
      simp only [Location.le, Bool.or_eq_true, decide_eq_true_eq, Bool.and_eq_true,
        beq_iff_eq] at hle
      omega

theorem le_trans {a b c : Violation} (h : a.le b = true) (h' : b.le c = true) :
    a.le c = true := by
  rw [le_iff] at h h' ⊢
  -- The rules are compared only where both locations are equal.
  rcases h with h | ⟨h, hr⟩ <;> rcases h' with h' | ⟨h', hr'⟩
  · exact .inl (h.trans h')
  · exact .inl (h' ▸ h)
  · exact .inl (h ▸ h')
  · exact .inr ⟨h.trans h', String.le_trans hr hr'⟩

theorem le_total (a b : Violation) : (a.le b || b.le a) = true := by
  rw [Bool.or_eq_true, le_iff, le_iff]
  rcases Location.before_trichotomy a.location b.location with h | h | h
  · exact .inl (.inl h)
  · rcases String.le_total a.ruleId b.ruleId with hr | hr
    · exact .inl (.inr ⟨h, hr⟩)
    · exact .inr (.inr ⟨h.symm, hr⟩)
  · exact .inr (.inl h)

end Violation

theorem report_perm (rules : List Rule) (ds : List Descriptor) :
    (report rules ds).Perm (findings rules ds) :=
  List.mergeSort_perm _ _

theorem report_sorted (rules : List Rule) (ds : List Descriptor) :
    (report rules ds).Pairwise fun v w => v.le w = true := by
  apply List.pairwise_mergeSort
  · intro a b c h h'
    exact Violation.le_trans h h'
  · exact Violation.le_total

/-- Where no two findings share a location, a report goes strictly by locations. -/
theorem report_strict {rules : List Rule} {ds : List Descriptor}
    (h : (findings rules ds).Pairwise fun v w => v.location ≠ w.location) :
    (report rules ds).Pairwise fun v w => v.location.Before w.location := by
  have hne : (report rules ds).Pairwise fun v w => v.location ≠ w.location :=
    ((report_perm rules ds).pairwise_iff Ne.symm).mpr h
  apply ((report_sorted rules ds).and hne).imp
  rintro v w ⟨hle, hne⟩
  rcases Violation.le_iff.mp hle with hb | ⟨heq, _⟩
  · exact hb
  · exact absurd heq hne

end RoleLint
