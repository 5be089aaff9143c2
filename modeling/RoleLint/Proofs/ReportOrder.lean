import Mathlib.Data.List.Perm.Basic
import Mathlib.Data.Prod.Lex
import RoleLint.Proofs.ByteOrder
import RoleLint.Proofs.Report

/- A report is the stable sort of what the rules find, so it does not depend on the order in
   which the rules are given.

   1. `Violation.key`, `Violation.le_iff_key_le` - findings go by line, column and the bytes
      of the rule.
   2. `Produced`, `produced_checkAll` - the findings by the function and the rule that they
      come from.
   3. `StableSort`, `StableSort.unique`, `stableSort_report` - the same findings in the order of
      their keys, those with equal keys as they were found; this fixes the list.
   4. `report_stable_sort` - a report is the stable sort of all findings.
   5. `Rule.Signs`, `filter_findings_perm`, `rule_order_irrelevant` - rules that sign with
      identifiers of their own lead to the same report in any order. -/
namespace RoleLint

/-! ## Keys -/

/-- Line, column and the bytes of a rule, compared in this order. -/
abbrev ReportKey : Type := Nat ×ₗ Nat ×ₗ List Nat

namespace Violation

/-- What findings are sorted by. -/
def key (v : Violation) : ReportKey :=
  toLex (v.location.line, toLex (v.location.column, utf8Bytes v.ruleId))

theorem ruleId_eq_of_key_eq {a b : Violation} (h : a.key = b.key) : a.ruleId = b.ruleId := by
  have hbytes : utf8Bytes a.ruleId = utf8Bytes b.ruleId :=
    congrArg (fun k => (ofLex (ofLex k).2).2) h
  exact utf8Bytes_inj.mp hbytes

theorem le_iff_key_le {a b : Violation} : a.le b = true ↔ a.key ≤ b.key := by
  have hloc : a.location = b.location ↔
      a.location.line = b.location.line ∧ a.location.column = b.location.column := by
    cases a.location
    cases b.location
    simp
  rw [le_iff, key, key, Prod.Lex.toLex_le_toLex, Prod.Lex.toLex_le_toLex, utf8Bytes_le_iff,
    Location.Before, hloc]
  tauto

theorem key_of_mem_filter {v : Violation} {vs : List Violation} {k : ReportKey}
    (h : v ∈ vs.filter fun v => v.key = k) : v.key = k := by
  simpa using (List.mem_filter.mp h).2

end Violation

/-! ## Where findings come from -/

/-- The findings of `rules` over `ds`, each with the numbers of the function and of the rule
    that it comes from: one for each pair where the rule finds something, function by function
    and rule by rule. -/
structure Produced (rules : List Rule) (ds : List Descriptor)
    (entries : List ((Nat × Nat) × Violation)) : Prop where
  ordered : entries.Pairwise fun a b => toLex a.1 < toLex b.1
  exact : ∀ i j v, ((i, j), v) ∈ entries ↔
    ∃ d r, ds[i]? = some d ∧ rules[j]? = some r ∧ r.check d = some v

/-- The findings about the function with the number `i`, with the numbers of the rules. -/
def checkEach (rules : List Rule) (d : Descriptor) (i : Nat) : List ((Nat × Nat) × Violation) :=
  rules.zipIdx.filterMap fun r => (r.1.check d).map ((i, r.2), ·)

theorem mem_checkEach_iff {rules : List Rule} {d : Descriptor} {i : Nat}
    {e : (Nat × Nat) × Violation} :
    e ∈ checkEach rules d i ↔
      e.1.1 = i ∧ ∃ r, rules[e.1.2]? = some r ∧ r.check d = some e.2 := by
  obtain ⟨⟨k, j⟩, v⟩ := e
  rw [checkEach, List.mem_filterMap]
  constructor
  · intro ⟨⟨r, n⟩, hr, he⟩
    obtain ⟨w, hw, heq⟩ := Option.map_eq_some_iff.mp he
    cases heq
    exact ⟨rfl, r, List.mem_zipIdx_iff_getElem?.mp hr, hw⟩
  · intro ⟨hk, r, hr, hv⟩
    refine ⟨(r, j), List.mem_zipIdx_iff_getElem?.mpr hr, ?_⟩
    show (r.check d).map _ = _
    rw [hv, ← hk]
    rfl

theorem map_snd_checkEach (rules : List Rule) (d : Descriptor) (i : Nat) :
    (checkEach rules d i).map Prod.snd = rules.filterMap fun r => r.check d := by
  calc (checkEach rules d i).map Prod.snd
      = rules.zipIdx.filterMap fun r => r.1.check d := by
        rw [checkEach, List.map_filterMap]
        congr 1
        funext r
        cases r.1.check d <;> rfl
    _ = (rules.zipIdx.map Prod.fst).filterMap fun r => r.check d := by
        rw [List.filterMap_map]
        rfl
    _ = rules.filterMap fun r => r.check d := by rw [List.zipIdx_map_fst]

theorem pairwise_zipIdx {α : Type} (l : List α) : l.zipIdx.Pairwise fun a b => a.2 < b.2 := by
  apply List.pairwise_map.mp
  rw [List.zipIdx_map_snd]
  exact List.pairwise_lt_range'

theorem checkEach_ordered (rules : List Rule) (d : Descriptor) (i : Nat) :
    (checkEach rules d i).Pairwise fun a b => toLex a.1 < toLex b.1 := by
  rw [checkEach, List.pairwise_filterMap]
  apply (pairwise_zipIdx rules).imp
  intro a b hab x hx y hy
  obtain ⟨_, _, rfl⟩ := Option.map_eq_some_iff.mp hx
  obtain ⟨_, _, rfl⟩ := Option.map_eq_some_iff.mp hy
  exact Prod.Lex.toLex_lt_toLex.mpr (.inr ⟨rfl, hab⟩)

/-- The findings about all functions, with the numbers of functions and rules. -/
def checkAll (rules : List Rule) (ds : List Descriptor) : List ((Nat × Nat) × Violation) :=
  ds.zipIdx.flatMap fun d => checkEach rules d.1 d.2

theorem produced_checkAll (rules : List Rule) (ds : List Descriptor) :
    Produced rules ds (checkAll rules ds) where
  ordered := by
    rw [checkAll, List.pairwise_flatMap]
    refine ⟨fun d _ => checkEach_ordered rules d.1 d.2, (pairwise_zipIdx ds).imp ?_⟩
    intro a b hab x hx y hy
    obtain ⟨hxi, -⟩ := mem_checkEach_iff.mp hx
    obtain ⟨hyi, -⟩ := mem_checkEach_iff.mp hy
    apply Prod.Lex.toLex_lt_toLex.mpr
    rw [hxi, hyi]
    exact .inl hab
  exact := by
    intro i j v
    rw [checkAll, List.mem_flatMap]
    constructor
    · intro ⟨⟨d, n⟩, hd, he⟩
      obtain ⟨rfl, r, hr, hv⟩ := mem_checkEach_iff.mp he
      exact ⟨d, r, List.mem_zipIdx_iff_getElem?.mp hd, hr, hv⟩
    · intro ⟨d, r, hd, hr, hv⟩
      exact ⟨(d, i), List.mem_zipIdx_iff_getElem?.mpr hd, mem_checkEach_iff.mpr ⟨rfl, r, hr, hv⟩⟩

/-- Without the numbers these are the findings that a report is made of. -/
theorem map_snd_checkAll (rules : List Rule) (ds : List Descriptor) :
    (checkAll rules ds).map Prod.snd = findings rules ds := by
  calc (checkAll rules ds).map Prod.snd
      = ds.zipIdx.flatMap fun d => rules.filterMap fun r => r.check d.1 := by
        rw [checkAll, List.map_flatMap]
        simp only [map_snd_checkEach]
    _ = (ds.zipIdx.map Prod.fst).flatMap fun d => rules.filterMap fun r => r.check d := by
        rw [List.flatMap_map]
    _ = findings rules ds := by
        rw [List.zipIdx_map_fst, findings]

/-! ## Stable sorting -/

/-- The findings `out` are `vs` in a stable order: the same findings, sorted by their keys, and
    those with one key in the order in which they stand in `vs`. -/
structure StableSort (vs out : List Violation) : Prop where
  perm : out.Perm vs
  sorted : out.Pairwise fun a b => a.key ≤ b.key
  stable : ∀ k, out.filter (fun v => v.key = k) = vs.filter fun v => v.key = k

theorem filter_report (rules : List Rule) (ds : List Descriptor) (k : ReportKey) :
    (report rules ds).filter (fun v => v.key = k) =
      (findings rules ds).filter fun v => v.key = k := by
  -- Findings with one key are in order already, and sorting keeps what is.
  have hsorted : ((findings rules ds).filter fun v => v.key = k).Pairwise
      fun a b => a.le b = true := by
    apply List.pairwise_of_forall_mem_list
    intro a ha b hb
    have hkey : a.key = b.key :=
      (Violation.key_of_mem_filter ha).trans (Violation.key_of_mem_filter hb).symm
    exact Violation.le_iff_key_le.mpr hkey.le
  have hsub : ((findings rules ds).filter fun v => v.key = k).Sublist (report rules ds) := by
    apply List.sublist_mergeSort
    · intro a b c h h'
      exact Violation.le_trans h h'
    · exact Violation.le_total
    · exact hsorted
    · exact List.filter_sublist
  have hfilter := hsub.filter fun v => v.key = k
  rw [List.filter_filter] at hfilter
  simp only [Bool.and_self] at hfilter
  exact (hfilter.eq_of_length ((report_perm rules ds).filter _).length_eq.symm).symm

theorem stableSort_report (rules : List Rule) (ds : List Descriptor) :
    StableSort (findings rules ds) (report rules ds) where
  perm := report_perm rules ds
  sorted := (report_sorted rules ds).imp fun h => Violation.le_iff_key_le.mp h
  stable := filter_report rules ds

/-- The head of a sorted list has the least key. -/
theorem key_head_le {v w : Violation} {out : List Violation}
    (hsorted : (v :: out).Pairwise fun a b => a.key ≤ b.key) (hw : w ∈ v :: out) :
    v.key ≤ w.key := by
  rcases List.mem_cons.mp hw with rfl | hmem
  · exact le_refl _
  · exact (List.pairwise_cons.mp hsorted).1 w hmem

/-- Sorted lists with the same findings of each key are equal. -/
theorem eq_of_sorted {out out' : List Violation} (hperm : out.Perm out')
    (hsorted : out.Pairwise fun a b => a.key ≤ b.key)
    (hsorted' : out'.Pairwise fun a b => a.key ≤ b.key)
    (hstable : ∀ k, out.filter (fun v => v.key = k) = out'.filter fun v => v.key = k) :
    out = out' := by
  induction out generalizing out' with
  | nil => exact hperm.nil_eq
  | cons v out ih =>
    cases out' with
    | nil => exact absurd hperm.length_eq (by simp)
    | cons v' out' =>
      -- Both heads have the least key, so they are the first findings of that key.
      have hkey : v.key = v'.key := by
        apply le_antisymm
        · exact key_head_le hsorted (hperm.mem_iff.mpr List.mem_cons_self)
        · exact key_head_le hsorted' (hperm.mem_iff.mp List.mem_cons_self)
      have hhead := hstable v.key
      rw [List.filter_cons_of_pos (by simp), List.filter_cons_of_pos (by simp [hkey])] at hhead
      obtain rfl : v = v' := (List.cons.inj hhead).1
      congr 1
      refine ih hperm.cons_inv hsorted.of_cons hsorted'.of_cons ?_
      intro k
      have htail := hstable k
      by_cases hk : v.key = k
      · rw [List.filter_cons_of_pos (by simp [hk]), List.filter_cons_of_pos (by simp [hk])] at htail
        exact (List.cons.inj htail).2
      · rw [List.filter_cons_of_neg (by simp [hk]), List.filter_cons_of_neg (by simp [hk])] at htail
        exact htail

theorem StableSort.unique {vs out out' : List Violation} (h : StableSort vs out)
    (h' : StableSort vs out') : out = out' :=
  eq_of_sorted (h.perm.trans h'.perm.symm) h.sorted h'.sorted fun k =>
    (h.stable k).trans (h'.stable k).symm

/-- **A report is the stable sort of all findings.** Each rule is asked about each function,
    function by function and rule by rule; the report has exactly the findings of these, sorted
    by line, column and the bytes of the rule, and among those with equal keys the one that was
    found first stands first. No other list is like that. -/
theorem report_stable_sort (rules : List Rule) (ds : List Descriptor) :
    ∃ entries, Produced rules ds entries ∧
      ∀ out, StableSort (entries.map Prod.snd) out ↔ out = report rules ds := by
  have hreport : StableSort ((checkAll rules ds).map Prod.snd) (report rules ds) := by
    rw [map_snd_checkAll]
    exact stableSort_report rules ds
  refine ⟨checkAll rules ds, produced_checkAll rules ds, ?_⟩
  intro out
  constructor
  · intro h
    exact h.unique hreport
  · intro h
    rw [h]
    exact hreport

/-! ## The order of rules -/

/-- A rule signs what it finds: its findings carry its identifier. -/
def Rule.Signs (r : Rule) : Prop :=
  ∀ d v, r.check d = some v → v.ruleId = r.id

theorem Rule.ruleId_of_firstSite {id message : String} {severity : Severity} {role : Role}
    {sites : Descriptor → List Location} {d : Descriptor} {v : Violation}
    (h : firstSite id message severity role sites d = some v) : v.ruleId = id := by
  unfold firstSite at h
  split at h
  · obtain ⟨_, _, rfl⟩ := Option.map_eq_some_iff.mp h
    rfl
  · cases h

/-- The rules that are built in sign what they find. -/
theorem Rule.signs_all : ∀ r ∈ all, r.Signs := by
  intro r hr
  simp only [all, List.mem_cons, List.not_mem_nil, or_false] at hr
  rcases hr with rfl | rfl
  · exact fun _ _ h => ruleId_of_firstSite h
  · exact fun _ _ h => ruleId_of_firstSite h

section
variable {rules rules' : List Rule} (hids : (rules.map Rule.id).Nodup)
  (hsigns : ∀ r ∈ rules, r.Signs)
include hids hsigns

/-- About one function, rules with identifiers of their own find no two things with one
    key. -/
theorem filter_check_single (d : Descriptor) (k : ReportKey) :
    ((rules.filterMap fun r => r.check d).filter fun v => v.key = k).Pairwise
      fun _ _ => False := by
  have hapart : (rules.filterMap fun r => r.check d).Pairwise fun v w => v.ruleId ≠ w.ruleId := by
    rw [List.pairwise_filterMap]
    apply (List.pairwise_map.mp hids).imp_of_mem
    intro r r' hr hr' hne v hv w hw
    rw [hsigns r hr d v hv, hsigns r' hr' d w hw]
    exact hne
  apply (hapart.filter fun v => v.key = k).imp_of_mem
  intro v w hv hw hne
  have hkey : v.key = w.key :=
    (Violation.key_of_mem_filter hv).trans (Violation.key_of_mem_filter hw).symm
  exact hne (Violation.ruleId_eq_of_key_eq hkey)

/-- Key by key, rules find the same in any order. -/
theorem filter_findings_perm (hperm : rules'.Perm rules) (ds : List Descriptor)
    (k : ReportKey) :
    (findings rules' ds).filter (fun v => v.key = k) =
      (findings rules ds).filter fun v => v.key = k := by
  rw [findings, findings, List.filter_flatMap, List.filter_flatMap]
  congr 1
  funext d
  have hp := (hperm.filterMap fun r => r.check d).filter fun v => v.key = k
  have hsingle := filter_check_single hids hsigns d k
  have hsingle' := (hp.pairwise_iff fun h => h).mpr hsingle
  exact List.Perm.eq_of_pairwise (fun _ _ _ _ h => h.elim) hsingle' hsingle hp

theorem stableSort_report_perm (hperm : rules'.Perm rules) (ds : List Descriptor) :
    StableSort (findings rules ds) (report rules' ds) where
  perm := by
    have hfindings : (findings rules' ds).Perm (findings rules ds) :=
      List.Perm.flatMap_left ds fun d _ => hperm.filterMap _
    exact (report_perm rules' ds).trans hfindings
  sorted := (stableSort_report rules' ds).sorted
  stable := by
    intro k
    rw [filter_report, filter_findings_perm hids hsigns hperm ds k]

end

/-- **The order of rules does not matter.** Rules with identifiers of their own, which they
    sign their findings with, lead to the same report in whatever order they are given. -/
theorem rule_order_irrelevant {rules rules' : List Rule} (hids : (rules.map Rule.id).Nodup)
    (hsigns : ∀ r ∈ rules, r.Signs) (hperm : rules'.Perm rules) (ds : List Descriptor) :
    report rules' ds = report rules ds :=
  (stableSort_report_perm hids hsigns hperm ds).unique (stableSort_report rules ds)

/-- A rule that every function breaks at its name. -/
def namedRule (id : String) : Rule where
  id := id
  description := ""
  severity := .error
  check d := some ⟨id, "named", .error, d.ref, d.location⟩

theorem signs_namedRule (id : String) : (namedRule id).Signs := by
  intro d v h
  cases h
  rfl

/-- The rules that are built in, behind two that every function breaks. -/
def crowdedRules : List Rule :=
  namedRule "é" :: namedRule "z" :: Rule.all

/-- Two components at one location, with their network calls there as well. -/
def crowdedFunctions : List Descriptor :=
  [⟨"A", .component, ⟨1, 0⟩, [⟨1, 0⟩, ⟨2, 0⟩], []⟩, ⟨"B", .component, ⟨1, 0⟩, [⟨1, 0⟩], []⟩]

theorem rule_order_irrelevant_crowded :
    (crowdedRules.map Rule.id).Nodup ∧ (∀ r ∈ crowdedRules, r.Signs) ∧
      crowdedRules.reverse.Perm crowdedRules ∧
      findings crowdedRules.reverse crowdedFunctions ≠ findings crowdedRules crowdedFunctions ∧
      report crowdedRules.reverse crowdedFunctions = report crowdedRules crowdedFunctions := by
  have hids : (crowdedRules.map Rule.id).Nodup := by decide
  have hsigns : ∀ r ∈ crowdedRules, r.Signs := by
    rw [crowdedRules, List.forall_mem_cons, List.forall_mem_cons]
    exact ⟨signs_namedRule _, signs_namedRule _, Rule.signs_all⟩
  have hperm := crowdedRules.reverse_perm
  exact ⟨hids, hsigns, hperm, by decide,
    rule_order_irrelevant hids hsigns hperm crowdedFunctions⟩

end RoleLint
