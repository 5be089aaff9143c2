import RoleLint.Proofs.ConfigChoice
import RoleLint.Proofs.Exactness
import RoleLint.Proofs.WireForms

/- What the commands that analyze a file lead to.

   1. `checkFile_eq`, `runExtract_eq` - the commands, once the configuration is known;
      `runCheck_eq`, `runCheck_of_output` - what `check` makes of an analysis.
   2. `run_of_error`, `run_of_ok`, `view_run` - a run of a command.
   3. `runCommand_alike`, `lookup_isolated` - a run sees nothing but the analyzed file and the
      lookup of its configuration up to the file that counts.
   4. `FormatOf`, `hasErrors_judge`, `Blocked`, `Unprintable` - the parts of the contract of
      `check`.
   5. `files_run`, `check_outcome` - the contract. -/
namespace RoleLint

/-! ## The commands -/

section
variable {fs : FileSystem} {env : Environment} {flag : Option Path} {file : Path} {c : Config}

/-- The analysis of `check`, once the configuration is known: the format is resolved, then the
    file is analyzed. -/
theorem checkFile_eq (h : configFor fs env file flag = .ok c) (format : Option OutputFormat)
    (dialect : Option Dialect) :
    checkFile fs env flag file format dialect =
      (resolveFormat format c).bind fun f =>
        ((analyzeFile fs file (dialect.getD (c.dialectFor file))).mapError .analysis).map fun r =>
          ⟨c, f, r⟩ := by
  rw [checkFile, h]
  rfl

/-- `check` prints what was analyzed, if it can be printed. -/
theorem runCheck_eq (format : Option OutputFormat) (dialect : Option Dialect)
    (pretty failOnError : Bool) :
    runCheck fs env flag file format dialect pretty failOnError =
      (checkFile fs env flag file format dialect).bind fun k =>
        ((k.result.render k.format (pretty || k.config.output.pretty)).mapError .render).map
          fun text => .printed fs
            (if (failOnError || k.config.output.failOnError) && k.result.hasErrors then 1 else 0)
            text :=
  rfl

section
variable {format : Option OutputFormat} {dialect : Option Dialect} {pretty failOnError : Bool}
  {k : Checked} (hk : checkFile fs env flag file format dialect = .ok k)
include hk

theorem runCheck_of_output {output : String}
    (ho : k.result.render k.format (pretty || k.config.output.pretty) = .ok output) :
    runCheck fs env flag file format dialect pretty failOnError =
      .ok (.printed fs
        (if (failOnError || k.config.output.failOnError) && k.result.hasErrors then 1 else 0)
        output) := by
  rw [runCheck_eq, hk, Except.bind, ho]
  rfl

theorem runCheck_of_render_error {e : RenderError}
    (he : k.result.render k.format (pretty || k.config.output.pretty) = .error e) :
    runCheck fs env flag file format dialect pretty failOnError = .error (.render e) := by
  rw [runCheck_eq, hk, Except.bind, he]
  rfl

end

theorem runExtract_eq (h : configFor fs env file flag = .ok c) (dialect : Option Dialect)
    (pretty : Bool) :
    runExtract fs env flag file dialect pretty =
      ((extractFile fs file (dialect.getD (c.dialectFor file))).mapError .analysis).map fun ds =>
        .printed fs 0 ((Wire.ofDescriptors ds).render (pretty || c.output.pretty) ++ "\n") := by
  rw [runExtract, h]
  rfl

end

/-- The file that a command analyzes, if it analyzes one. -/
def Command.file? : Command → Option Path
  | .check file .. | .extract file .. => some file
  | _ => none

/-- A configuration that cannot be loaded ends every command that analyzes a file. -/
theorem runCommand_of_error {fs : FileSystem} {env : Environment} {config : Option Path}
    {command : Command} {file : Path} {f : Failure} (hfile : command.file? = some file)
    (h : configFor fs env file config = .error f) :
    runCommand fs env config command = .error f := by
  cases command <;> cases hfile
  · rw [runCommand, runCheck, checkFile, h]
    rfl
  · rw [runCommand, runExtract, h]
    rfl

/-! ## What a run shows -/

/-- What a run shows: its exit code and what it prints. -/
def Outcome.shown (o : Outcome) : Nat × String :=
  (o.exit, o.stdout)

section
variable {words : List RawText} {command : Command} {config : Option Path} {verbose : Bool}
  (h : Request.ofWords words = .run command config verbose)
include h

theorem run_of_error {fs : FileSystem} {env : Environment} {f : Failure}
    (hf : runCommand fs env config command = .error f) : run fs env words = .failed fs f := by
  simp only [run, h, hf]

theorem run_of_ok {fs : FileSystem} {env : Environment} {o : Outcome}
    (ho : runCommand fs env config command = .ok o) : run fs env words = o := by
  simp only [run, h, ho]

/-- What is seen of a run is what is seen of its command; a view in which all failures look
    alike does not tell them apart. -/
theorem view_run {β : Type} (view : Outcome → β) (lost : β) {fs : FileSystem}
    (hlost : ∀ f, view (.failed fs f) = lost) (env : Environment) :
    view (run fs env words) =
      ((runCommand fs env config command).toOption.map view).getD lost := by
  cases hc : runCommand fs env config command with
  | error f =>
    rw [run_of_error h hc, hlost]
    rfl
  | ok o =>
    rw [run_of_ok h hc]
    rfl

end

/-! ## Two file systems -/

theorem extractFile_congr {fs fs' : FileSystem} {file : Path}
    (h : fs.text? file = fs'.text? file) (dialect : Dialect) :
    (extractFile fs file dialect).toOption = (extractFile fs' file dialect).toOption := by
  rcases toOption_cases h with ⟨text, hread, hread'⟩ | ⟨e, e', hread, hread'⟩
  · rw [extractFile, extractFile, hread, hread']
  · rw [extractFile, extractFile, hread, hread']
    rfl

/-- Configurations that no run can tell apart. -/
structure Config.Alike (c c' : Config) : Prop where
  format : ∀ flag, resolveFormat flag c = resolveFormat flag c'
  dialect : ∀ file, c.dialectFor file = c'.dialectFor file
  pretty : c.output.pretty = c'.output.pretty
  failOnError : c.output.failOnError = c'.output.failOnError

theorem Config.Alike.refl (c : Config) : c.Alike c :=
  ⟨fun _ => rfl, fun _ => rfl, rfl, rfl⟩

/-- A command that analyzes a file shows the same wherever its configuration is alike and the
    text of the file is the same. -/
theorem runCommand_alike {fs fs' : FileSystem} {env env' : Environment} {config : Option Path}
    {command : Command} {file : Path} {c c' : Config} (hfile : command.file? = some file)
    (hc : configFor fs env file config = .ok c) (hc' : configFor fs' env' file config = .ok c')
    (halike : c.Alike c') (hsource : fs.text? file = fs'.text? file) :
    (runCommand fs env config command).toOption.map Outcome.shown =
      (runCommand fs' env' config command).toOption.map Outcome.shown := by
  have hextract := fun dialect => toOption_cases (extractFile_congr hsource dialect)
  cases command with
  | check _ format dialect pretty failOnError =>
    cases hfile
    rw [runCommand, runCommand, runCheck_eq, runCheck_eq, checkFile_eq hc, checkFile_eq hc',
      analyzeFile, analyzeFile, halike.format, halike.dialect]
    cases resolveFormat format c' with
    | error f => rfl
    | ok f =>
      rcases hextract (dialect.getD (c'.dialectFor file)) with ⟨ds, hds, hds'⟩ | ⟨e, e', he, he'⟩
      · rw [hds, hds']
        simp only [Except.bind, Except.map, Except.mapError, halike.pretty, halike.failOnError]
        cases (judge file ds).render f (pretty || c'.output.pretty) <;> rfl
      · rw [he, he']
        rfl
  | extract _ dialect pretty =>
    cases hfile
    rw [runCommand, runCommand, runExtract_eq hc, runExtract_eq hc', halike.dialect,
      halike.pretty]
    rcases hextract (dialect.getD (c'.dialectFor file)) with ⟨ds, hds, hds'⟩ | ⟨e, e', he, he'⟩
    · rw [hds, hds']
      rfl
    · rw [he, he']
      rfl
  | listRules => cases hfile
  | init _ => cases hfile

/-- A command that analyzes a file shows the same over file systems that have the same to see
    along its lookup and the same text of the file. -/
theorem runCommand_congr {fs fs' : FileSystem} {env env' : Environment} {config : Option Path}
    {command : Command} {file : Path} (hfile : command.file? = some file)
    (hsource : fs.text? file = fs'.text? file)
    (hsight : SameSight fs fs' env env' file config) :
    (runCommand fs env config command).toOption.map Outcome.shown =
      (runCommand fs' env' config command).toOption.map Outcome.shown := by
  rcases toOption_cases hsight.configFor_eq with ⟨c, hc, hc'⟩ | ⟨e, e', hc, hc'⟩
  · exact runCommand_alike hfile hc hc' (.refl c) hsource
  · rw [runCommand_of_error hfile hc, runCommand_of_error hfile hc']
    rfl

/-- **A run sees no further than the configuration that counts.** For a command that analyzes a
    file: over any file system and environment with the same text of the file, or none in
    either, and with the same to see along the lookup of its configuration, exit code and
    output are the same; and where the chosen configuration cannot be used, the run prints
    nothing and fails with that configuration. -/
theorem lookup_isolated (fs : FileSystem) (env : Environment) (words : List RawText)
    (command : Command) (config : Option Path) (verbose : Bool) (file : Path)
    (hreq : Request.ofWords words = .run command config verbose)
    (hfile : command.file? = some file) :
    (∀ fs' env', fs.text? file = fs'.text? file →
      SameSight fs fs' env env' file config →
      (run fs env words).exit = (run fs' env' words).exit ∧
        (run fs env words).stdout = (run fs' env' words).stdout) ∧
    ∀ path e, Chosen fs env file config path → Unusable fs path e →
      (run fs env words).exit = 1 ∧ (run fs env words).stdout = "" ∧
        (run fs env words).stderr = (Failure.config path e).text := by
  refine ⟨?_, ?_⟩
  · intro fs' env' hsource hsight
    have hshown : (run fs env words).shown = (run fs' env' words).shown := by
      rw [view_run hreq Outcome.shown (1, "") (fun _ => rfl),
        view_run hreq Outcome.shown (1, "") (fun _ => rfl), runCommand_congr hfile hsource hsight]
    exact Prod.mk.inj hshown
  · intro path e hchosen hbad
    rw [run_of_error hreq (runCommand_of_error hfile (hbad.configFor_eq hchosen))]
    exact ⟨rfl, rfl, rfl⟩

/-- A working directory with a source file, a configuration beside it and other files. -/
def configuredFiles (config : String) (others : List (Names × Entry)) : FileSystem :=
  ⟨Path.names "/w", (Path.names "/w/a.tsx", .file (some "function A()\x7bfetch()\x7d")) ::
    (Path.names "/w/rag.toml", .file (some config)) :: others⟩

theorem lookup_isolated_sample :
    Request.ofWords ["check", "a.tsx"] = .run (.check "a.tsx" none none false false) none false ∧
    (run (configuredFiles "[output]\npretty=true" []) ⟨none, none⟩ ["check", "a.tsx"]).stdout =
      (run (configuredFiles "[output]\npretty=true" [(Path.names "/w/.rag.toml", .directory)])
        ⟨none, some "c"⟩ ["check", "a.tsx"]).stdout ∧
    ∃ e, Unusable (configuredFiles "[output" []) "./rag.toml" e ∧
      (run (configuredFiles "[output" []) ⟨none, none⟩ ["check", "a.tsx"]).stderr =
        (Failure.config "./rag.toml" e).text := by
  have hreq : Request.ofWords ["check", "a.tsx"] =
      .run (.check "a.tsx" none none false false) none false := by
    decide +kernel
  refine ⟨hreq, ?_, ?_⟩
  · have hsight : SameSight (configuredFiles "[output]\npretty=true" [])
        (configuredFiles "[output]\npretty=true" [(Path.names "/w/.rag.toml", .directory)])
        ⟨none, none⟩ ⟨none, some "c"⟩ "a.tsx" none :=
      .searched (.found (by decide +kernel) (by decide +kernel) (by decide +kernel))
    exact ((lookup_isolated _ _ _ _ _ _ "a.tsx" hreq rfl).1 _ _ (by decide +kernel) hsight).2
  · have hchosen : Chosen (configuredFiles "[output" []) ⟨none, none⟩ "a.tsx" none "./rag.toml" :=
      ⟨[], ["./.rag.toml"], by decide +kernel, .inr (by decide +kernel), by simp⟩
    rcases Config.ofFile_cases (configuredFiles "[output" []) "./rag.toml" with
      ⟨text, c, hread, hparse⟩ | ⟨e, hbad⟩
    · have hmalformed : (Config.ofFile (configuredFiles "[output" []) "./rag.toml").toOption =
          none := by
        decide +kernel
      simp [Config.ofFile, hread, hparse, Except.toOption] at hmalformed
    · exact ⟨e, hbad, ((lookup_isolated _ _ _ _ _ _ "a.tsx" hreq rfl).2 _ _ hchosen hbad).2.2⟩

/-! ## Formats -/

/-- A name stands for a format; case does not matter. -/
def OutputFormat.Named (f : OutputFormat) (name : String) : Prop :=
  lowerText f.name.toList = lowerText name.toList

/-- The format in which `check` prints: the one on the command line, else the one that the
    configuration names, else JSON. -/
inductive FormatOf : Option OutputFormat → Config → OutputFormat → Prop where
  | flag {f : OutputFormat} {c : Config} : FormatOf (some f) c f
  | named {f : OutputFormat} {c : Config} {name : String} : c.output.format = some name →
      f.Named name → FormatOf none c f
  | default {c : Config} : c.output.format = none → FormatOf none c .json

theorem OutputFormat.ofNameAnyCase?_eq_none {name : String}
    (h : ∀ f : OutputFormat, ¬ f.Named name) : ofNameAnyCase? name = none := by
  rw [ofNameAnyCase?, List.find?_eq_none]
  intro f _ hf
  exact h f (beq_iff_eq.mp hf)

/-- No two formats have the same name, so a search finds the one that is meant. -/
theorem OutputFormat.Named.ofNameAnyCase?_eq {f : OutputFormat} {name : String}
    (h : f.Named name) : ofNameAnyCase? name = some f := by
  have hapart : ∀ g, g.Named name → g = f := by
    intro g hg
    have heq : lowerText g.name.toList = lowerText f.name.toList := hg.trans h.symm
    revert heq
    cases f <;> cases g <;> decide
  have hmem : f ∈ OutputFormat.all := by cases f <;> decide
  cases hfind : ofNameAnyCase? name with
  | none =>
    rw [ofNameAnyCase?, List.find?_eq_none] at hfind
    exact absurd (beq_iff_eq.mpr h) (hfind f hmem)
  | some g =>
    have hg := List.find?_some hfind
    rw [hapart g (beq_iff_eq.mp hg)]

theorem FormatOf.resolveFormat_eq {flag : Option OutputFormat} {c : Config} {f : OutputFormat}
    (h : FormatOf flag c f) : resolveFormat flag c = .ok f := by
  unfold resolveFormat
  cases h with
  | flag => rfl
  | named hname hf => simp only [hname, hf.ofNameAnyCase?_eq]
  | default hnone => rw [hnone]

/-- The configuration names a format that does not exist. -/
def NoFormat (c : Config) (name : String) : Prop :=
  c.output.format = some name ∧ ∀ f : OutputFormat, ¬ f.Named name

theorem NoFormat.resolveFormat_eq {c : Config} {name : String} (h : NoFormat c name) :
    resolveFormat none c = .error (.format name) := by
  simp only [resolveFormat, h.1, OutputFormat.ofNameAnyCase?_eq_none h.2]

theorem formatOf_cases (flag : Option OutputFormat) (c : Config) :
    (∃ f, FormatOf flag c f) ∨ flag = none ∧ ∃ name, NoFormat c name := by
  cases flag with
  | some f => exact .inl ⟨f, .flag⟩
  | none =>
    cases hname : c.output.format with
    | none => exact .inl ⟨.json, .default hname⟩
    | some name =>
      by_cases h : ∃ f : OutputFormat, f.Named name
      · obtain ⟨f, hf⟩ := h
        exact .inl ⟨f, .named hname hf⟩
      · exact .inr ⟨rfl, name, hname, fun f hf => h ⟨f, hf⟩⟩

/-! ## Results -/

/-- The rules that are built in report errors only. -/
theorem hasErrors_judge (path : Path) (ds : List Descriptor) :
    (judge path ds).hasErrors = !(judge path ds).violations.isEmpty := by
  have herror : ∀ v ∈ (judge path ds).violations, v.severity = .error := by
    intro v hv
    have hv := (report_perm Rule.all ds).mem_iff.mp hv
    rw [findings_all] at hv
    obtain ⟨d, -, hv⟩ := List.mem_filterMap.mp hv
    rcases finding?_eq_some_iff.mp hv with ⟨-, l, -, rfl⟩ | ⟨-, l, -, rfl⟩
    · rfl
    · rfl
  unfold Result.hasErrors
  cases hvs : (judge path ds).violations with
  | nil => rfl
  | cons v vs =>
    have hv := herror v (by rw [hvs]; exact List.mem_cons_self)
    simp [hv]

/-- A file that can be read is analyzed as its text is. -/
theorem analyzeFile_eq {fs : FileSystem} {file : Path} {text : String}
    (h : fs.readText file = .ok text) (dialect : Dialect) :
    analyzeFile fs file dialect = analyze file dialect text.toList := by
  rw [analyzeFile, extractFile, h]
  rfl

theorem analyze_cases (path : Path) (dialect : Dialect) (text : List Char) :
    (∃ t e, (dialect.parse text).firstFault = some t ∧ analyze path dialect text = .error e) ∨
      (dialect.parse text).firstFault = none ∧
        ∃ ds, analyze path dialect text = .ok (judge path ds) := by
  simp only [analyze, analyzeTree, readTree]
  cases (dialect.parse text).firstFault with
  | none => exact .inr ⟨rfl, _, rfl⟩
  | some t => exact .inl ⟨t, _, rfl, rfl⟩

/-! ## The contract of `check` -/

section
variable (fs : FileSystem) (env : Environment) (config : Option Path) (file : Path)
  (format : Option OutputFormat) (dialect : Option Dialect)

/-- Why `check` gets to no result: the chosen configuration cannot be used, or it names a
    format that does not exist and the command line names none, or the file cannot be read,
    or its text does not fit the grammar of its dialect. -/
inductive Blocked : Prop where
  | config {path : Path} {e : ConfigError} : Chosen fs env file config path →
      Unusable fs path e → Blocked
  | format {c : Config} {name : String} : Configured fs env file config c → format = none →
      NoFormat c name → Blocked
  | source {e : ReadError} : fs.readText file = .error e → Blocked
  | fault {c : Config} {text : String} {t : Tree} : Configured fs env file config c →
      fs.readText file = .ok text →
      ((dialect.getD (c.dialectFor file)).parse text.toList).firstFault = some t → Blocked

/-- Why `check` cannot print its result: it is to be JSON, and the path is not UTF-8. -/
def Unprintable : Prop :=
  ∃ c, Configured fs env file config c ∧ FormatOf format c .json ∧ ¬ file.IsText

end

section
variable {fs : FileSystem} {env : Environment} {config : Option Path} {file : Path}
  {format : Option OutputFormat} {dialect : Option Dialect}

theorem checkFile_of_analysis_error {c : Config} {e : AnalysisError}
    (hc : Configured fs env file config c)
    (he : analyzeFile fs file (dialect.getD (c.dialectFor file)) = .error e) :
    ∃ f, checkFile fs env config file format dialect = .error f := by
  rw [checkFile_eq hc.configFor_eq, he]
  cases resolveFormat format c with
  | error f => exact ⟨f, rfl⟩
  | ok f => exact ⟨.analysis e, rfl⟩

theorem Blocked.checkFile_eq_error (h : Blocked fs env config file format dialect) :
    ∃ f, checkFile fs env config file format dialect = .error f := by
  have hunusable : ∀ {path e}, Chosen fs env file config path → Unusable fs path e →
      ∃ f, checkFile fs env config file format dialect = .error f := by
    intro path e hchosen hbad
    rw [checkFile, hbad.configFor_eq hchosen]
    exact ⟨_, rfl⟩
  cases h with
  | config hchosen hbad => exact hunusable hchosen hbad
  | format hc hflag hname =>
    subst hflag
    rw [checkFile_eq hc.configFor_eq, hname.resolveFormat_eq]
    exact ⟨_, rfl⟩
  | source hread =>
    -- The configuration is loaded before the file is read, so it may be what fails.
    rcases configFor_cases fs env file config with ⟨c, hc⟩ | ⟨path, e, hchosen, hbad⟩
    · apply checkFile_of_analysis_error hc
      rw [analyzeFile, extractFile, hread]
      rfl
    · exact hunusable hchosen hbad
  | @fault c text t hc hread hfault =>
    rcases analyze_cases file (dialect.getD (c.dialectFor file)) text.toList with
      ⟨t, e, -, he⟩ | ⟨hnone, -⟩
    · exact checkFile_of_analysis_error hc ((analyzeFile_eq hread _).trans he)
    · rw [hnone] at hfault
      cases hfault

/-- Where nothing stands in its way, `check` gets to the result of the analysis. -/
theorem checkFile_of_not_blocked (h : ¬ Blocked fs env config file format dialect) :
    ∃ c f text ds, Configured fs env file config c ∧ FormatOf format c f ∧
      fs.readText file = .ok text ∧
      analyze file (dialect.getD (c.dialectFor file)) text.toList = .ok (judge file ds) ∧
      checkFile fs env config file format dialect = .ok ⟨c, f, judge file ds⟩ := by
  rcases configFor_cases fs env file config with ⟨c, hc⟩ | ⟨path, e, hchosen, hbad⟩
  · rcases formatOf_cases format c with ⟨f, hf⟩ | ⟨hflag, name, hname⟩
    · cases hread : fs.readText file with
      | error e => exact absurd (.source hread) h
      | ok text =>
        rcases analyze_cases file (dialect.getD (c.dialectFor file)) text.toList with
          ⟨t, e, hfault, -⟩ | ⟨-, ds, hok⟩
        · exact absurd (.fault hc hread hfault) h
        · refine ⟨c, f, text, ds, hc, hf, rfl, hok, ?_⟩
          rw [checkFile_eq hc.configFor_eq, hf.resolveFormat_eq, analyzeFile_eq hread, hok]
          rfl
    · exact absurd (.format hc hflag hname) h
  · exact absurd (.config hchosen hbad) h

/-- **Only JSON fails to be printed**, and only over a path that is not UTF-8. -/
theorem render_eq_error_iff {r : Result} {f : OutputFormat} {pretty : Bool} {e : RenderError} :
    r.render f pretty = .error e ↔ f = .json ∧ ¬ r.filePath.IsText := by
  cases f with
  | text => simp [Result.render]
  | compact => simp [Result.render]
  | json =>
    rw [← Wire.ofResult?_isSome_iff, Result.render, Result.renderJson]
    cases Wire.ofResult? r <;> simp

/-- A result that fits is printed as its form, in both layouts. -/
theorem Result.Fits.render_json {r : Result} (h : r.Fits) :
    ∃ j, Wire.Carries Wire.result? j r ∧
      ∀ pretty, r.render .json pretty = .ok (j.render pretty ++ "\n") := by
  obtain ⟨j, hj, hcarries⟩ := Wire.carries_result h
  refine ⟨j, hcarries, fun pretty => ?_⟩
  rw [Result.render, Result.renderJson, hj]

theorem Unprintable.runCheck_eq_error (h : Unprintable fs env config file format)
    (pretty failOnError : Bool) :
    ∃ f, runCheck fs env config file format dialect pretty failOnError = .error f := by
  obtain ⟨c, hc, hf, hpath⟩ := h
  have hchecked := checkFile_eq hc.configFor_eq format dialect
  rw [hf.resolveFormat_eq, analyzeFile] at hchecked
  cases hds : extractFile fs file (dialect.getD (c.dialectFor file)) with
  | error e =>
    rw [hds] at hchecked
    exact ⟨.analysis e, by rw [runCheck_eq, hchecked]; rfl⟩
  | ok ds =>
    rw [hds] at hchecked
    exact ⟨.render .pathNotText,
      runCheck_of_render_error hchecked (render_eq_error_iff.mpr ⟨rfl, hpath⟩)⟩

end

/-- Whether findings make a run fail has no part in what is printed. -/
theorem runCheck_stdout (fs : FileSystem) (env : Environment) (config : Option Path)
    (file : Path) (format : Option OutputFormat) (dialect : Option Dialect)
    (pretty failOnError failOnError' : Bool) :
    (runCheck fs env config file format dialect pretty failOnError).toOption.map Outcome.stdout =
      (runCheck fs env config file format dialect pretty failOnError').toOption.map
        Outcome.stdout := by
  rw [runCheck_eq, runCheck_eq]
  cases checkFile fs env config file format dialect with
  | error f => rfl
  | ok k =>
    simp only [Except.bind]
    cases k.result.render k.format (pretty || k.config.output.pretty) <;> rfl

theorem exists_of_bind_eq_ok {ε α β : Type} {x : Except ε α} {f : α → Except ε β} {b : β}
    (h : x.bind f = .ok b) : ∃ a, f a = .ok b := by
  cases x with
  | error e => cases h
  | ok a => exact ⟨a, h⟩

theorem exists_of_map_eq_ok {ε α β : Type} {x : Except ε α} {f : α → β} {b : β}
    (h : x.map f = .ok b) : ∃ a, b = f a := by
  cases x with
  | error e => cases h
  | ok a =>
    cases h
    exact ⟨a, rfl⟩

/-- Commands that analyze a file only print. -/
theorem exists_printed_of_runCommand {fs : FileSystem} {env : Environment}
    {config : Option Path} {command : Command} {file : Path} {o : Outcome}
    (hfile : command.file? = some file) (h : runCommand fs env config command = .ok o) :
    ∃ code text, o = .printed fs code text := by
  cases hc : configFor fs env file config with
  | error f =>
    rw [runCommand_of_error hfile hc] at h
    cases h
  | ok c =>
    cases command with
    | check _ format dialect pretty failOnError =>
      cases hfile
      rw [runCommand, runCheck_eq] at h
      obtain ⟨k, h⟩ := exists_of_bind_eq_ok h
      obtain ⟨text, rfl⟩ := exists_of_map_eq_ok h
      exact ⟨_, _, rfl⟩
    | extract _ dialect pretty =>
      cases hfile
      rw [runCommand, runExtract_eq hc] at h
      obtain ⟨ds, rfl⟩ := exists_of_map_eq_ok h
      exact ⟨_, _, rfl⟩
    | listRules => cases hfile
    | init _ => cases hfile

theorem files_run {words : List RawText} {command : Command} {config : Option Path}
    {verbose : Bool} {file : Path} (h : Request.ofWords words = .run command config verbose)
    (hfile : command.file? = some file) (fs : FileSystem) (env : Environment) :
    (run fs env words).files = fs := by
  cases hrun : runCommand fs env config command with
  | error f => rw [run_of_error h hrun, Outcome.failed]
  | ok o =>
    obtain ⟨code, text, rfl⟩ := exists_printed_of_runCommand hfile hrun
    rw [run_of_ok h hrun, Outcome.printed]

/-- **The contract of `check`.** Where the configuration, the format or the file stands in its
    way, or the result is to be JSON and the path is not UTF-8, a run prints nothing and exits
    with one. Otherwise it prints the result of the analysis, in the format and layout that
    command line and configuration ask for, and exits with one exactly if either asks to fail
    and there are findings, else with zero. Asking to fail changes nothing in what is printed,
    and neither `check` nor `extract` changes a file. -/
theorem check_outcome (fs : FileSystem) (env : Environment) (words : List RawText)
    (file : Path) (format : Option OutputFormat) (dialect : Option Dialect)
    (pretty failOnError : Bool) (config : Option Path) (verbose : Bool)
    (hreq : Request.ofWords words =
      .run (.check file format dialect pretty failOnError) config verbose) :
    (Blocked fs env config file format dialect ∨ Unprintable fs env config file format →
      (run fs env words).exit = 1 ∧ (run fs env words).stdout = "") ∧
    (¬ Blocked fs env config file format dialect → ¬ Unprintable fs env config file format →
      ∃ c f text r output, Configured fs env file config c ∧ FormatOf format c f ∧
        fs.readText file = .ok text ∧
        analyze file (dialect.getD (c.dialectFor file)) text.toList = .ok r ∧
        r.render f (pretty || c.output.pretty) = .ok output ∧
        (run fs env words).stdout = output ∧
        (run fs env words).exit =
          if (failOnError = true ∨ c.output.failOnError = true) ∧ r.violations ≠ [] then 1
          else 0) ∧
    (∀ words' failOnError' verbose', Request.ofWords words' =
        .run (.check file format dialect pretty failOnError') config verbose' →
      (run fs env words').stdout = (run fs env words).stdout) ∧
    ∀ words' command config' verbose' file',
      Request.ofWords words' = .run command config' verbose' → command.file? = some file' →
      (run fs env words').files = fs := by
  refine ⟨?_, ?_, ?_, ?_⟩
  · intro hcause
    have herror : ∃ f, runCheck fs env config file format dialect pretty failOnError =
        .error f := by
      rcases hcause with hblocked | hpath
      · obtain ⟨f, hf⟩ := hblocked.checkFile_eq_error
        exact ⟨f, by rw [runCheck_eq, hf]; rfl⟩
      · exact hpath.runCheck_eq_error pretty failOnError
    obtain ⟨f, hf⟩ := herror
    rw [run_of_error hreq hf]
    exact ⟨rfl, rfl⟩
  · intro hfree hpath
    obtain ⟨c, f, text, ds, hc, hf, hread, hok, hchecked⟩ := checkFile_of_not_blocked hfree
    cases houtput : (judge file ds).render f (pretty || c.output.pretty) with
    | error e =>
      obtain ⟨rfl, hnot⟩ := render_eq_error_iff.mp houtput
      exact absurd ⟨c, hc, hf, hnot⟩ hpath
    | ok output =>
      have hrun : run fs env words = .printed fs _ output :=
        run_of_ok hreq (runCheck_of_output hchecked houtput)
      refine ⟨c, f, text, judge file ds, output, hc, hf, hread, hok, houtput, ?_, ?_⟩
      · rw [hrun, Outcome.printed]
      · rw [hrun, Outcome.printed, hasErrors_judge]
        simp
  · intro words' failOnError' verbose' hreq'
    have hstdout := runCheck_stdout fs env config file format dialect pretty failOnError'
      failOnError
    rw [view_run hreq' Outcome.stdout "" (fun _ => rfl),
      view_run hreq Outcome.stdout "" (fun _ => rfl), runCommand, runCommand, hstdout]
  · intro words' command config' verbose' file' hreq' hfile'
    exact files_run hreq' hfile' fs env

theorem check_outcome_sample :
    Request.ofWords ["check", "a.tsx", "--fail-on-error"] =
      .run (.check "a.tsx" none none false true) none false ∧
    (run ⟨[], []⟩ ⟨none, none⟩ ["check", "a.tsx", "--fail-on-error"]).stdout = "" ∧
    ¬ Blocked (configuredFiles "[output]\npretty=true" []) ⟨none, none⟩ none "a.tsx" none none ∧
    ∃ f pretty r output, Result.render r f pretty = .ok output ∧
      (run (configuredFiles "[output]\npretty=true" []) ⟨none, none⟩
        ["check", "a.tsx", "--fail-on-error"]).stdout = output ∧
      (run (configuredFiles "[output]\npretty=true" []) ⟨none, none⟩
        ["check", "a.tsx", "--fail-on-error"]).exit = if r.violations ≠ [] then 1 else 0 := by
  have hreq : Request.ofWords ["check", "a.tsx", "--fail-on-error"] =
      .run (.check "a.tsx" none none false true) none false := by
    decide +kernel
  have hblocked : Blocked ⟨[], []⟩ ⟨none, none⟩ none "a.tsx" none none := .source rfl
  have hprints : (run (configuredFiles "[output]\npretty=true" []) ⟨none, none⟩
      ["check", "a.tsx", "--fail-on-error"]).stdout ≠ "" := by
    decide +kernel
  obtain ⟨hfails, hshows, -⟩ := check_outcome (configuredFiles "[output]\npretty=true" [])
    ⟨none, none⟩ _ "a.tsx" none none false true none false hreq
  -- A blocked run prints nothing, and this one prints.
  have hfree := fun h => hprints (hfails (.inl h)).2
  obtain ⟨c, f, text, r, output, -, -, -, -, houtput, hstdout, hexit⟩ :=
    hshows hfree fun h => hprints (hfails (.inr h)).2
  refine ⟨hreq, ?_, hfree, f, _, r, output, houtput, hstdout, ?_⟩
  · exact ((check_outcome _ _ _ _ _ _ _ _ _ _ hreq).1 (.inl hblocked)).2
  · simpa using hexit

/-- A name for a typed source file, with a first byte that no text has. -/
def rawName : Path := ⟨[0xff, 0x2e, 0x74, 0x73]⟩

/-- A directory with a file of that name, which can be read and has nothing to find in it. -/
def rawFiles : FileSystem :=
  ⟨[], [([rawName.bytes], .file (some "const a = 1;"))]⟩

/-- A clean file that nothing blocks, and no wish to fail on findings: still nothing is printed
    and the exit code is one, as the name is not UTF-8. And an empty name, under which nothing
    can be read, is misuse. -/
theorem check_rawName_fails :
    Request.ofWords ["check", rawName] = .run (.check rawName none none false false) none false ∧
    ¬ Blocked rawFiles ⟨none, none⟩ none rawName none none ∧
    (analyze rawName .typescript "const a = 1;".toList).toOption.map Result.violations =
      some [] ∧
    (run rawFiles ⟨none, none⟩ ["check", rawName]).exit = 1 ∧
    (run rawFiles ⟨none, none⟩ ["check", rawName]).stdout = "" ∧
    rawFiles.readText "" = .error .notFound ∧
    (run rawFiles ⟨none, none⟩ ["check", ""]).exit = 2 := by
  refine ⟨by decide +kernel, ?_, by decide +kernel, by decide +kernel, by decide +kernel, rfl,
    by decide +kernel⟩
  intro hblocked
  obtain ⟨f, hf⟩ := hblocked.checkFile_eq_error
  have hok : (checkFile rawFiles ⟨none, none⟩ none rawName none none).toOption.isSome = true := by
    decide +kernel
  rw [hf] at hok
  cases hok

end RoleLint
