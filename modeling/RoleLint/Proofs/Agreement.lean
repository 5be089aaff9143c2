import RoleLint.Proofs.Files
import RoleLint.Proofs.Outcomes

/- The two commands that read a source file agree on it.

   1. `extractFile_fits` - the locations of a file that can be read fit 64 bits.
   2. `extract_check_cases` - the commands fail with the same failure, or get to the same
      functions, the one as they are and the other as what they lead to.
   3. `extract_check_agree` - the same of whole runs, seen through what they print. A path that
      is not UTF-8 keeps `check` from printing what it found. -/
namespace RoleLint

/-! ## Locations of files -/

theorem locate_fits {text : List Char} (h : byteLength text < FileSystem.textLimit) (n : Nat) :
    ((Source.ofText text).locate n).Fits := by
  have hline := Source.locate_line_le text n
  have hcolumn := Source.locate_column_le text n
  have hlimit : FileSystem.textLimit + 1 ≤ Wire.numberLimit := by decide
  exact ⟨by omega, by omega⟩

/-- The functions of a file are those of the tree of its text. -/
theorem extractFile_eq_ok {fs : FileSystem} {path : Path} {dialect : Dialect}
    {ds : List Descriptor} (h : extractFile fs path dialect = .ok ds) :
    ∃ text, byteLength text < FileSystem.textLimit ∧
      ds = descriptors (Source.ofText text) (dialect.parse text) := by
  unfold extractFile at h
  split at h
  · cases h
  · next content hread =>
    refine ⟨content.toList, (FileSystem.readText_eq_ok_iff.mp hread).2, ?_⟩
    simp only [extract, readTree] at h
    split at h
    · cases h
    · cases h
      rfl

theorem extractFile_fits {fs : FileSystem} {path : Path} {dialect : Dialect}
    {ds : List Descriptor} (h : extractFile fs path dialect = .ok ds) : ∀ d ∈ ds, d.Fits := by
  obtain ⟨text, hlimit, rfl⟩ := extractFile_eq_ok h
  intro d hd
  obtain ⟨h1, h2, h3⟩ := descriptors_located hd (locate_fits hlimit)
  exact ⟨h1, h2, h3⟩

/-- A finding stands at a location of its function. -/
theorem report_fits {ds : List Descriptor} (h : ∀ d ∈ ds, d.Fits) :
    ∀ v ∈ report Rule.all ds, v.location.Fits := by
  intro v hv
  refine report_located ?_ hv
  intro d hd
  exact ⟨(h d hd).apiCalls, (h d hd).markupReturns⟩

/-! ## The commands -/

section
variable (fs : FileSystem) (env : Environment) (config : Option Path) (file : Path)
  (dialect : Option Dialect)

/-- The commands fail in the same way, or both get to the functions of the file: the one prints
    them, the other has the result that they lead to. -/
theorem extract_check_cases (pretty : Bool) :
    (∃ f, runExtract fs env config file dialect pretty = .error f ∧
      checkFile fs env config file (some .json) dialect = .error f) ∨
    ∃ c ds, (∀ d ∈ ds, d.Fits) ∧
      runExtract fs env config file dialect pretty =
        .ok (.printed fs 0 ((Wire.ofDescriptors ds).render (pretty || c.output.pretty) ++ "\n")) ∧
      checkFile fs env config file (some .json) dialect = .ok ⟨c, .json, judge file ds⟩ := by
  -- Both load the configuration and then read the file; `check` resolves a format in
  -- between, which cannot fail when the command line names one.
  cases hc : configFor fs env file config with
  | error f =>
    refine .inl ⟨f, ?_, ?_⟩
    · rw [runExtract, hc]
      rfl
    · rw [checkFile, hc]
      rfl
  | ok c =>
    rw [runExtract_eq hc, checkFile_eq hc, analyzeFile]
    cases hds : extractFile fs file (dialect.getD (c.dialectFor file)) with
    | error e => exact .inl ⟨.analysis e, rfl, rfl⟩
    | ok ds => exact .inr ⟨c, ds, extractFile_fits hds, rfl, rfl⟩

end

/-- **`extract` and `check` agree.** For the same file, dialect and configuration, `extract`
    succeeds exactly if `check` gets past the analysis, and otherwise neither prints anything.
    When both succeed, the rules applied to the functions that `extract` prints give the
    findings that `check` prints, and `check` names the file as it was given. Where `extract`
    succeeds, `check` does so too if and only if the path is a text. -/
theorem extract_check_agree (fs : FileSystem) (env : Environment) (words words' : List RawText)
    (config : Option Path) (file : Path) (dialect : Option Dialect)
    (pretty pretty' failOnError verbose verbose' : Bool)
    (hextract : Request.ofWords words = .run (.extract file dialect pretty) config verbose)
    (hcheck : Request.ofWords words' =
      .run (.check file (some .json) dialect pretty' failOnError) config verbose') :
    ((run fs env words).exit = 0 ↔
      ∃ k, checkFile fs env config file (some .json) dialect = .ok k) ∧
    ((run fs env words).exit ≠ 0 →
      (run fs env words).stdout = "" ∧ (run fs env words').stdout = "") ∧
    ((run fs env words).exit = 0 →
      (∃ o, runCheck fs env config file (some .json) dialect pretty' failOnError = .ok o) →
      ∃ ds r, Wire.decode Wire.descriptors? (run fs env words).stdout = some ds ∧
        Wire.decode Wire.result? (run fs env words').stdout = some r ∧
        report Rule.all ds = r.violations ∧ r.filePath = file) ∧
    ((run fs env words).exit = 0 →
      ((∃ o, runCheck fs env config file (some .json) dialect pretty' failOnError = .ok o) ↔
        file.IsText)) := by
  rcases extract_check_cases fs env config file dialect pretty with
    ⟨f, he, hc⟩ | ⟨c, ds, hfits, he, hc⟩
  · have hfails : runCheck fs env config file (some .json) dialect pretty' failOnError =
        .error f := by
      rw [runCheck_eq, hc]
      rfl
    rw [run_of_error hextract he, run_of_error hcheck hfails, hc]
    simp [Outcome.failed]
  · rw [run_of_ok hextract he, hc]
    refine ⟨⟨fun _ => ⟨_, rfl⟩, fun _ => rfl⟩, fun hne => absurd rfl hne, ?_⟩
    -- What is left is whether the result can be printed, which its path decides.
    by_cases htext : file.IsText
    · have hresult : (judge file ds).Fits := ⟨htext, report_fits hfits⟩
      obtain ⟨j, hcarries, hrender⟩ := hresult.render_json
      have hok : runCheck fs env config file (some .json) dialect pretty' failOnError =
          .ok (.printed fs _ (j.render (pretty' || c.output.pretty) ++ "\n")) :=
        runCheck_of_output hc (hrender _)
      refine ⟨fun _ _ => ?_, fun _ => iff_of_true ⟨_, hok⟩ htext⟩
      rw [run_of_ok hcheck hok]
      exact ⟨ds, judge file ds, ((Wire.carries_descriptors hfits).decode _).1,
        (hcarries.decode _).1, rfl, rfl⟩
    · have hnone : ¬ ∃ o, runCheck fs env config file (some .json) dialect pretty' failOnError =
          .ok o := by
        rintro ⟨o, ho⟩
        have herror : (judge file ds).render .json (pretty' || c.output.pretty) =
            .error .pathNotText := render_eq_error_iff.mpr ⟨rfl, htext⟩
        rw [runCheck_of_render_error hc herror] at ho
        cases ho
      exact ⟨fun _ hok => absurd hok hnone, fun _ => iff_of_false hnone htext⟩

/-- A working directory with one source file. -/
def sampleFiles : FileSystem :=
  ⟨Path.names "/w", [(Path.names "/w/card.tsx", .file (some (String.ofList sampleText)))]⟩

theorem extract_check_agree_sample :
    (Request.ofWords ["extract", "card.tsx"] = .run (.extract "card.tsx" none false) none false ∧
      Request.ofWords ["check", "--format=json", "card.tsx"] =
        .run (.check "card.tsx" (some .json) none false false) none false) ∧
    (run sampleFiles ⟨none, none⟩ ["extract", "card.tsx"]).exit = 0 ∧
    ∃ ds r, Wire.decode Wire.descriptors?
        (run sampleFiles ⟨none, none⟩ ["extract", "card.tsx"]).stdout = some ds ∧
      Wire.decode Wire.result?
        (run sampleFiles ⟨none, none⟩ ["check", "--format=json", "card.tsx"]).stdout = some r ∧
      report Rule.all ds = r.violations ∧ r.filePath = "card.tsx" := by
  have hextract : Request.ofWords ["extract", "card.tsx"] =
      .run (.extract "card.tsx" none false) none false := by
    decide +kernel
  have hcheck : Request.ofWords ["check", "--format=json", "card.tsx"] =
      .run (.check "card.tsx" (some .json) none false false) none false := by
    decide +kernel
  have hexit : (run sampleFiles ⟨none, none⟩ ["extract", "card.tsx"]).exit = 0 := by
    decide +kernel
  obtain ⟨-, -, hagree, hprints⟩ := extract_check_agree sampleFiles ⟨none, none⟩ _ _ none
    "card.tsx" none false false false false false hextract hcheck
  exact ⟨⟨hextract, hcheck⟩, hexit, hagree hexit ((hprints hexit).mpr ⟨_, rfl⟩)⟩

end RoleLint
