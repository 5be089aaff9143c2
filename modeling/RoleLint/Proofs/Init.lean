import RoleLint.Proofs.Files
import RoleLint.Proofs.Outcomes

/- What `init` does to a directory.

   1. `parse_initTemplate`, `alike_initConfig` - what it writes says what holds without it.
   2. `runInit_of_contains`, `runInit_of_isFile`, `differAt_of_runInit` - it writes one file, and
      not over another one unless it is forced to.
   3. `shown_of_runInit` - commands that analyze a file do not see what it wrote.
   4. `init_harmless` - all of this for runs of the program. -/
namespace RoleLint

/-! ## The template -/

/-- What the template configures. -/
def initConfig : Config := { output := { format := some "json" } }

theorem initTemplate_read :
    (Toml.parse initTemplate.toList >>= ConfigFile.ofEntries).toOption = some initConfig ∧
      byteLength initTemplate.toList < FileSystem.textLimit := by
  -- Line by line: a long text takes the kernel much longer than its lines do.
  delta initTemplate
  simp only [String.toList_append, String.reduceToList]
  decide +kernel

theorem parse_initTemplate : Config.parse initTemplate = .ok initConfig := by
  have hread := initTemplate_read.1
  rw [Config.parse]
  cases hparse : Toml.parse initTemplate.toList >>= ConfigFile.ofEntries with
  | error fault =>
    rw [hparse] at hread
    cases hread
  | ok c =>
    rw [hparse] at hread
    cases hread
    rfl

/-- The template names the format that is used without it, and leaves the rest alone. -/
theorem alike_initConfig : Config.Alike {} initConfig := by
  refine ⟨?_, fun _ => rfl, rfl, rfl⟩
  intro flag
  cases flag with
  | some f => rfl
  | none =>
    have hnamed : FormatOf none initConfig .json := .named rfl rfl
    exact hnamed.resolveFormat_eq.symm

/-! ## The file -/

/-- The names of the file that `init` writes. -/
def initNames (fs : FileSystem) : Names := fs.cwd ++ [initPath.bytes]

theorem initPath_plain :
    initPath.isEmpty = false ∧ FileSystem.meansDirectory initPath = false := by
  decide

theorem names_initPath : Path.names initPath = [initPath.bytes] := by decide

theorem origin_initPath (fs : FileSystem) : fs.origin initPath = fs.cwd := by
  rw [FileSystem.origin, if_neg (by decide)]

theorem not_initNames_prefix_cwd (fs : FileSystem) : ¬ initNames fs <+: fs.cwd := by
  intro hpre
  have hlength := hpre.length_le
  simp [initNames] at hlength

theorem leadsTo_initPath_iff {fs : FileSystem} {names : Names} :
    fs.LeadsTo initPath names ↔ fs.step fs.cwd initPath.bytes = .ok names := by
  rw [FileSystem.LeadsTo, names_initPath, origin_initPath, FileSystem.foldlM_step_cons]
  constructor
  · rintro ⟨next, hstep, hlast⟩
    cases hlast
    exact hstep
  · intro hstep
    exact ⟨names, hstep, rfl⟩

theorem lookup_initPath_iff {fs : FileSystem} {e : Entry} :
    fs.lookup initPath = .ok e ↔ fs.find? (initNames fs) = some e := by
  obtain ⟨hempty, hmeans⟩ := initPath_plain
  have htarget : FileSystem.child fs.cwd initPath.bytes = initNames fs := by
    rw [FileSystem.child, if_neg (by decide), initNames]
  rw [FileSystem.lookup_eq_ok_iff]
  simp only [leadsTo_initPath_iff, FileSystem.step_eq_ok_iff, htarget, fs.find?_cwd_self, hempty,
    hmeans, or_true, and_true, true_and]
  constructor
  · rintro ⟨names, ⟨rfl, -⟩, hfind⟩
    exact hfind
  · intro hfind
    exact ⟨initNames fs, ⟨rfl, by simp [hfind]⟩, hfind⟩

theorem runInit_of_contains {fs : FileSystem} (h : fs.contains initPath = true) :
    runInit fs false = .error (.alreadyThere initPath) := by
  simp [runInit, h]

/-- What `init` leaves where it succeeds. -/
theorem runInit_eq_ok {fs : FileSystem} {force : Bool} {o : Outcome}
    (h : runInit fs force = .ok o) :
    o.exit = 0 ∧ fs.find? (initNames fs) ≠ some .directory ∧
      o.files = fs.set (initNames fs) (.file (some initTemplate)) := by
  unfold runInit at h
  split at h
  · cases h
  · split at h
    · cases h
    · next fs' hwrite =>
      cases h
      obtain ⟨parent, hparent, -, hnot, rfl⟩ := FileSystem.writeText_eq_ok hwrite
      rw [names_initPath, origin_initPath] at hparent
      cases hparent
      refine ⟨rfl, fun hover => hnot (lookup_initPath_iff.mpr hover), ?_⟩
      rw [names_initPath]
      rfl

theorem runInit_of_isFile {fs : FileSystem} (h : fs.isFile initPath = true) :
    ∃ o, runInit fs true = .ok o := by
  obtain ⟨content, hlookup⟩ := FileSystem.isFile_iff.mp h
  obtain ⟨hempty, hmeans⟩ := initPath_plain
  have hparent : (Path.names initPath).dropLast.foldlM fs.step (fs.origin initPath) =
      .ok fs.cwd := by
    rw [names_initPath, origin_initPath]
    rfl
  have hwrite : ∃ fs', fs.writeText initPath initTemplate = .ok fs' := by
    simp [FileSystem.writeText, hempty, hlookup, hparent, hmeans, fs.find?_cwd_self, bind,
      Except.bind, pure, Except.pure]
  obtain ⟨fs', hwrite⟩ := hwrite
  exact ⟨⟨0, initReport, "", fs'⟩, by simp [runInit, hwrite]⟩

/-- Without a path on the command line, the chosen file is one that is there. -/
theorem Chosen.isFile {fs : FileSystem} {env : Environment} {file path : Path}
    (h : Chosen fs env file none path) :
    path ∈ configPaths env file none ∧ fs.isFile path = true := by
  obtain ⟨before, after, hpaths, hnamed | hfile, -⟩ := h
  · cases hnamed
  · exact ⟨by rw [hpaths]; simp, hfile⟩

section
variable {fs : FileSystem} {force : Bool} {o : Outcome} (ho : runInit fs force = .ok o)
include ho

theorem find?_initNames_of_runInit :
    o.files.find? (initNames fs) = some (.file (some initTemplate)) := by
  obtain ⟨-, -, hfiles⟩ := runInit_eq_ok ho
  rw [hfiles, FileSystem.find?_set_self (not_initNames_prefix_cwd fs)]

theorem differAt_of_runInit : FileSystem.DifferAt (initNames fs) fs o.files := by
  obtain ⟨-, hleft, hfiles⟩ := runInit_eq_ok ho
  refine ⟨by rw [hfiles, FileSystem.set], ?_, hleft, ?_⟩
  · intro other hne
    rw [hfiles]
    exact FileSystem.find?_set_of_ne fs.find?_cwd_self _ hne
  · rw [find?_initNames_of_runInit ho]
    simp

/-- Every path that leads to the new file reads the template. -/
theorem readText_of_leadsTo_initNames {path : Path}
    (hlead : o.files.LeadsTo path (initNames fs))
    (hfile : o.files.isFile path = true) : o.files.readText path = .ok initTemplate := by
  obtain ⟨content, hlookup⟩ := FileSystem.isFile_iff.mp hfile
  obtain ⟨-, names, hlead', hfind, -⟩ := FileSystem.lookup_eq_ok_iff.mp hlookup
  cases hlead.symm.trans hlead'
  rw [find?_initNames_of_runInit ho] at hfind
  cases hfind
  exact FileSystem.readText_eq_ok_iff.mpr ⟨hlookup, initTemplate_read.2⟩

theorem readText_initPath_of_runInit : o.files.readText initPath = .ok initTemplate := by
  have hnames : initNames o.files = initNames fs := by
    rw [initNames, (differAt_of_runInit ho).cwd, ← initNames]
  have hlookup := lookup_initPath_iff.mpr (hnames ▸ find?_initNames_of_runInit ho)
  exact FileSystem.readText_eq_ok_iff.mpr ⟨hlookup, initTemplate_read.2⟩

theorem text?_of_runInit {path : Path} (hpath : ¬ o.files.LeadsTo path (initNames fs)) :
    fs.text? path = o.files.text? path := by
  have hdiffer := differAt_of_runInit ho
  have hpath' : ¬ fs.LeadsTo path (initNames fs) := by
    intro hlead
    exact hpath (hdiffer.leadsTo (fun _ => by simp [find?_initNames_of_runInit ho]) hlead)
  unfold FileSystem.text?
  cases hread : fs.readText path with
  | ok text => rw [hdiffer.readText_eq_ok hpath' hread]
  | error e =>
    cases hread' : o.files.readText path with
    | ok text =>
      rw [hdiffer.symm.readText_eq_ok hpath hread'] at hread
      cases hread
    | error e' => rfl

/-- Where no configuration was found before, what is found now says nothing new. -/
theorem configured_of_runInit {env : Environment} {file : Path}
    (hnone : ∀ path ∈ configPaths env file none, fs.isFile path = false) :
    ∃ c, Configured o.files env file none c ∧ Config.Alike {} c := by
  by_cases hchosen : ∃ path, Chosen o.files env file none path
  · obtain ⟨path, hchosen⟩ := hchosen
    obtain ⟨hmem, hfile⟩ := hchosen.isFile
    have hlead : o.files.LeadsTo path (initNames fs) := by
      by_contra hpath
      have hbefore := (differAt_of_runInit ho).symm.isFile_of_isFile hpath hfile
      rw [hnone path hmem] at hbefore
      cases hbefore
    have hread := readText_of_leadsTo_initNames ho hlead hfile
    exact ⟨initConfig, .ofFile hchosen hread parse_initTemplate, alike_initConfig⟩
  · exact ⟨{}, .defaults fun path hpath => hchosen ⟨path, hpath⟩, .refl _⟩

/-- **Commands do not see what `init` wrote**, whichever file they analyze, unless there was a
    configuration for it or it is the new file itself. -/
theorem shown_of_runInit {env : Environment} {command : Command} {file : Path}
    (hfile : command.file? = some file)
    (hnone : ∀ path ∈ configPaths env file none, fs.isFile path = false)
    (hother : ¬ o.files.LeadsTo file (initNames fs)) :
    (runCommand fs env none command).toOption.map Outcome.shown =
      (runCommand o.files env none command).toOption.map Outcome.shown := by
  have hbefore : Configured fs env file none {} := by
    refine .defaults fun path hchosen => ?_
    obtain ⟨hmem, hisfile⟩ := hchosen.isFile
    rw [hnone path hmem] at hisfile
    cases hisfile
  obtain ⟨c, hafter, halike⟩ := configured_of_runInit ho hnone
  exact runCommand_alike hfile hbefore.configFor_eq hafter.configFor_eq halike
    (text?_of_runInit ho hother)

end

/-! ## Runs -/

/-- There is no configuration in the working directory, nor one of the user. -/
structure Unconfigured (fs : FileSystem) (env : Environment) : Prop where
  beside : ∀ name ∈ localNames, fs.isFile name = false
  user : ∀ dir, env.userDir = some dir → fs.isFile (Path.join dir userName) = false

/-- For a file in the working directory, however its path is spelled, the lookup of a
    configuration finds none. -/
theorem Unconfigured.isFile_eq_false {fs : FileSystem} {env : Environment} {file : Path}
    (h : Unconfigured fs env) (hdir : fs.LeadsTo (directoryOf file) fs.cwd) :
    ∀ path ∈ configPaths env file none, fs.isFile path = false := by
  intro path hpath
  rcases List.mem_append.mp hpath with hlocal | huser
  · obtain ⟨name, hname, rfl⟩ := List.mem_map.mp hlocal
    have hrelative : ∀ n ∈ localNames, Path.isAbsolute n = false ∧ n.isEmpty = false := by decide
    obtain ⟨habs, hne⟩ := hrelative name hname
    rw [FileSystem.isFile, FileSystem.lookup_join hdir habs hne, ← FileSystem.isFile]
    exact h.beside name hname
  · obtain ⟨dir, hdir, rfl⟩ := Option.map_eq_some_iff.mp (Option.mem_toList.mp huser)
    exact h.user dir hdir

/-- **`init` is harmless.** In a working directory without a configuration, commands that
    analyze a file of this directory, by whatever path, other than the one that is written, have
    the same exit code and print the same before a successful `init` and after it. Where there
    is something under the path that is written, `init` without force fails and leaves all files
    as they are; with force, where it is a file, its text is replaced and nothing else
    changes. -/
theorem init_harmless (fs : FileSystem) (env : Environment) (words : List RawText)
    (force verbose : Bool) (config : Option Path)
    (hinit : Request.ofWords words = .run (.init force) config verbose) :
    (Unconfigured fs env → (run fs env words).exit = 0 →
      ∀ words' command verbose' file,
        Request.ofWords words' = .run command none verbose' → command.file? = some file →
        fs.LeadsTo (directoryOf file) fs.cwd →
        ¬ (run fs env words).files.LeadsTo file (initNames fs) →
        (run (run fs env words).files env words').exit = (run fs env words').exit ∧
          (run (run fs env words).files env words').stdout = (run fs env words').stdout) ∧
    (fs.contains initPath = true → force = false →
      (run fs env words).exit = 1 ∧ (run fs env words).files = fs) ∧
    (fs.isFile initPath = true → force = true →
      (run fs env words).exit = 0 ∧
        (run fs env words).files.readText initPath = .ok initTemplate ∧
        (run fs env words).files.cwd = fs.cwd ∧
        ∀ names, names ≠ initNames fs →
          (run fs env words).files.find? names = fs.find? names) := by
  refine ⟨?_, ?_, ?_⟩
  · intro hnone hexit words' command verbose' file hreq hfile hdir hother
    cases ho : runInit fs force with
    | error f =>
      rw [run_of_error hinit ho] at hexit
      cases hexit
    | ok o =>
      rw [run_of_ok hinit ho] at hother ⊢
      have hshown : (run o.files env words').shown = (run fs env words').shown := by
        rw [view_run hreq Outcome.shown (1, "") (fun _ => rfl),
          view_run hreq Outcome.shown (1, "") (fun _ => rfl),
          shown_of_runInit ho hfile (hnone.isFile_eq_false hdir) hother]
      exact Prod.mk.inj hshown
  · rintro hthere rfl
    rw [run_of_error hinit (runInit_of_contains hthere)]
    exact ⟨rfl, rfl⟩
  · rintro hisfile rfl
    obtain ⟨o, ho⟩ := runInit_of_isFile hisfile
    have hdiffer := differAt_of_runInit ho
    rw [run_of_ok hinit ho]
    exact ⟨(runInit_eq_ok ho).1, readText_initPath_of_runInit ho, hdiffer.cwd, hdiffer.elsewhere⟩

/-- A working directory with one source file. -/
def bareFiles : FileSystem :=
  ⟨Path.names "/w", [(Path.names "/w/a.tsx", .file (some "function A()\x7bfetch()\x7d"))]⟩

/-- The file of that directory, by its name, from the root and by way of the directory above. -/
def spellings : List Path := ["a.tsx", "/w/a.tsx", "../w/a.tsx"]

theorem init_harmless_sample :
    (Request.ofWords ["init"] = .run (.init false) none false ∧
      Unconfigured bareFiles ⟨none, none⟩ ∧
      (run bareFiles ⟨none, none⟩ ["init"]).exit = 0 ∧
      ∀ path ∈ spellings,
        (run (run bareFiles ⟨none, none⟩ ["init"]).files ⟨none, none⟩ ["check", path]).stdout =
          (run bareFiles ⟨none, none⟩ ["check", path]).stdout) ∧
    (run (configuredFiles "" []) ⟨none, none⟩ ["init"]).exit = 1 ∧
    (run (configuredFiles "" []) ⟨none, none⟩ ["init", "--force"]).exit = 0 := by
  have hinit : Request.ofWords ["init"] = .run (.init false) none false := by decide +kernel
  have hforce : Request.ofWords ["init", "--force"] = .run (.init true) none false := by
    decide +kernel
  have hcheck : ∀ path ∈ spellings, Request.ofWords ["check", path] =
      .run (.check path none none false false) none false := by
    decide +kernel
  have hnone : Unconfigured bareFiles ⟨none, none⟩ := ⟨by decide, by simp [Environment.userDir]⟩
  have hexit : (run bareFiles ⟨none, none⟩ ["init"]).exit = 0 := by decide +kernel
  have hdir : ∀ path ∈ spellings,
      bareFiles.LeadsTo (directoryOf path) bareFiles.cwd := by
    simp only [spellings, List.forall_mem_cons]
    exact ⟨rfl, rfl, rfl, by simp⟩
  have hself : ∀ path ∈ spellings,
      (run bareFiles ⟨none, none⟩ ["init"]).files.LeadsTo path (Path.names "/w/a.tsx") := by
    simp only [spellings, List.forall_mem_cons]
    exact ⟨rfl, rfl, rfl, by simp⟩
  refine ⟨⟨hinit, hnone, hexit, ?_⟩, ?_, ?_⟩
  · intro path hpath
    have hother : ¬ (run bareFiles ⟨none, none⟩ ["init"]).files.LeadsTo path
        (initNames bareFiles) := by
      intro hlead
      cases (hself path hpath).symm.trans hlead
    exact ((init_harmless _ _ _ _ _ _ hinit).1 hnone hexit _ _ _ _ (hcheck path hpath) rfl
      (hdir path hpath) hother).2
  · exact ((init_harmless _ _ _ _ _ _ hinit).2.1 (by decide) rfl).1
  · exact ((init_harmless _ _ _ _ _ _ hforce).2.2 (by decide) rfl).1

end RoleLint
