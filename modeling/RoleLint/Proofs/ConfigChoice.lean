import RoleLint.Command.Snapshot
import RoleLint.Proofs.Sites

/- Which configuration counts, and what its lookup sees.

   1. `Chosen`, `chosen_iff` - the file that a configuration comes from is the first in the
      order of lookup.
   2. `Configured`, `Unusable`, `configFor_cases` - the configuration of a file, or why there
      is none: a chosen file that cannot be used is not passed over.
   3. `SameSight`, `SameSight.configFor_eq` - two file systems with the same to see along the
      lookup give the same configuration. -/
namespace RoleLint

/-! ## The chosen file -/

/-- The file that a configuration comes from: in the order of lookup the first path that the
    command line names or that leads to a file. -/
def Chosen (fs : FileSystem) (env : Environment) (file : Path) (flag : Option Path)
    (path : Path) : Prop :=
  FirstOf (fun p => flag = some p ∨ fs.isFile p = true) (configPaths env file flag) path

/-- Why the file that a configuration comes from cannot be used. -/
inductive Unusable (fs : FileSystem) (path : Path) : ConfigError → Prop where
  | unreadable {e : ReadError} : fs.readText path = .error e →
      Unusable fs path (.unreadable path e)
  | malformed {text : String} {e : ConfigError} : fs.readText path = .ok text →
      Config.parse text = .error e → Unusable fs path e

section
variable (fs : FileSystem) (env : Environment) (file : Path) (flag : Option Path)

/-- The configuration of a file: that of the chosen file or, if there is none, the
    defaults. -/
inductive Configured : Config → Prop where
  | ofFile {path : Path} {text : String} {c : Config} : Chosen fs env file flag path →
      fs.readText path = .ok text → Config.parse text = .ok c → Configured c
  | defaults : (∀ path, ¬ Chosen fs env file flag path) → Configured {}

theorem locateConfig_path? :
    (locateConfig fs (directoryOf file) flag env.userDir).path? =
      (configPaths env file flag).find? fun p => flag == some p || fs.isFile p := by
  unfold locateConfig configPaths
  cases flag with
  | some path => simp [ConfigOrigin.path?]
  | none =>
    have hnone : (fun p => (none : Option Path) == some p || fs.isFile p) = fs.isFile := by
      funext p
      rfl
    -- Two searches, one after the other, are one search through both lists.
    rw [hnone, Option.toList_none, List.nil_append, List.find?_append]
    cases (localNames.map (Path.join (directoryOf file))).find? fs.isFile with
    | some path => rfl
    | none =>
      cases env.userDir with
      | none => rfl
      | some dir => cases h : fs.isFile (Path.join dir userName) <;> simp [h, ConfigOrigin.path?]

theorem chosen_iff {path : Path} :
    Chosen fs env file flag path ↔
      (locateConfig fs (directoryOf file) flag env.userDir).path? = some path := by
  rw [locateConfig_path?, find?_eq_some_iff_firstOf, Chosen]
  simp only [Bool.or_eq_true, beq_iff_eq]

end

section
variable {fs : FileSystem} {env : Environment} {file : Path} {flag : Option Path}

theorem Unusable.ofFile_eq {path : Path} {e : ConfigError} (h : Unusable fs path e) :
    Config.ofFile fs path = .error e := by
  unfold Config.ofFile
  cases h with
  | unreadable hread => rw [hread]
  | malformed hread hparse => rw [hread]; exact hparse

theorem Config.ofFile_cases (fs : FileSystem) (path : Path) :
    (∃ text c, fs.readText path = .ok text ∧ Config.parse text = .ok c) ∨
      ∃ e, Unusable fs path e := by
  cases hread : fs.readText path with
  | error e => exact .inr ⟨_, .unreadable hread⟩
  | ok text =>
    cases hparse : Config.parse text with
    | error e => exact .inr ⟨e, .malformed hread hparse⟩
    | ok c => exact .inl ⟨text, c, rfl, hparse⟩

theorem configFor_of_chosen {path : Path} (h : Chosen fs env file flag path) :
    configFor fs env file flag = (Config.ofFile fs path).mapError (Failure.config path) := by
  simp only [configFor, loadConfig, (chosen_iff fs env file flag).mp h]
  cases Config.ofFile fs path <;> rfl

theorem configFor_of_not_chosen (h : ∀ path, ¬ Chosen fs env file flag path) :
    configFor fs env file flag = .ok {} := by
  have hnone : (locateConfig fs (directoryOf file) flag env.userDir).path? = none := by
    rw [Option.eq_none_iff_forall_ne_some]
    exact fun path hpath => h path ((chosen_iff fs env file flag).mpr hpath)
  simp only [configFor, loadConfig, hnone]
  rfl

theorem Configured.configFor_eq {c : Config} (h : Configured fs env file flag c) :
    configFor fs env file flag = .ok c := by
  cases h with
  | ofFile hchosen hread hparse =>
    rw [configFor_of_chosen hchosen, Config.ofFile, hread]
    simp only [hparse]
    rfl
  | defaults hnone => exact configFor_of_not_chosen hnone

/-- A chosen file that cannot be used is not passed over. -/
theorem Unusable.configFor_eq {path : Path} {e : ConfigError} (h : Unusable fs path e)
    (hchosen : Chosen fs env file flag path) :
    configFor fs env file flag = .error (.config path e) := by
  rw [configFor_of_chosen hchosen, h.ofFile_eq]
  rfl

theorem configFor_cases (fs : FileSystem) (env : Environment) (file : Path)
    (flag : Option Path) :
    (∃ c, Configured fs env file flag c) ∨
      ∃ path e, Chosen fs env file flag path ∧ Unusable fs path e := by
  by_cases hchosen : ∃ path, Chosen fs env file flag path
  · obtain ⟨path, hchosen⟩ := hchosen
    rcases Config.ofFile_cases fs path with ⟨text, c, hread, hparse⟩ | ⟨e, hbad⟩
    · exact .inl ⟨c, .ofFile hchosen hread hparse⟩
    · exact .inr ⟨path, e, hchosen, hbad⟩
  · exact .inl ⟨{}, .defaults fun path hpath => hchosen ⟨path, hpath⟩⟩

end

/-! ## What a lookup sees -/

/-- The text at a path, if it can be read. -/
def FileSystem.text? (fs : FileSystem) (path : Path) : Option String :=
  (fs.readText path).toOption

theorem toOption_cases {ε α : Type} {x y : Except ε α} (h : x.toOption = y.toOption) :
    (∃ a, x = .ok a ∧ y = .ok a) ∨ ∃ e e', x = .error e ∧ y = .error e' := by
  cases x with
  | ok a =>
    cases y with
    | ok b =>
      cases h
      exact .inl ⟨a, rfl, rfl⟩
    | error e' => cases h
  | error e =>
    cases y with
    | ok b => cases h
    | error e' => exact .inr ⟨e, e', rfl, rfl⟩

/-- Two searches see the same: place by place both pass over what they find, until both find
    a file and read the same from it, or both find none. -/
inductive SearchAlike (fs fs' : FileSystem) : List Path → List Path → Prop where
  | none {ps ps' : List Path} : (∀ p ∈ ps, fs.isFile p = false) →
      (∀ p ∈ ps', fs'.isFile p = false) → SearchAlike fs fs' ps ps'
  | found {p p' : Path} {ps ps' : List Path} : fs.isFile p = true → fs'.isFile p' = true →
      fs.text? p = fs'.text? p' → SearchAlike fs fs' (p :: ps) (p' :: ps')
  | passed {p p' : Path} {ps ps' : List Path} : fs.isFile p = false →
      fs'.isFile p' = false → SearchAlike fs fs' ps ps' →
      SearchAlike fs fs' (p :: ps) (p' :: ps')

/-- Two file systems, each with an environment, have the same to see where the configuration
    of a file is looked up. A path that the command line names is read, whatever it leads
    to, and nothing else is looked at. -/
inductive SameSight (fs fs' : FileSystem) (env env' : Environment) (file : Path) :
    Option Path → Prop where
  | named {path : Path} : fs.text? path = fs'.text? path →
      SameSight fs fs' env env' file (some path)
  | searched : SearchAlike fs fs' (configPaths env file none) (configPaths env' file none) →
      SameSight fs fs' env env' file none

section
variable {fs fs' : FileSystem} {env env' : Environment} {file : Path} {flag : Option Path}

theorem SearchAlike.find? {ps ps' : List Path} (h : SearchAlike fs fs' ps ps') :
    Option.Rel (fun p p' => fs.text? p = fs'.text? p') (ps.find? fs.isFile)
      (ps'.find? fs'.isFile) := by
  induction h with
  | @none ps ps' hps hps' =>
    rw [List.find?_eq_none.mpr (by simpa using hps), List.find?_eq_none.mpr (by simpa using hps')]
    exact .none
  | found hp hp' hread =>
    rw [List.find?_cons_of_pos hp, List.find?_cons_of_pos hp']
    exact .some hread
  | passed hp hp' _ ih =>
    rw [List.find?_cons_of_neg (by simp [hp]), List.find?_cons_of_neg (by simp [hp'])]
    exact ih

/-- The chosen files of two lookups, if there are any, have the same text. -/
theorem SameSight.chosen (h : SameSight fs fs' env env' file flag) :
    Option.Rel (fun p p' => fs.text? p = fs'.text? p')
      (locateConfig fs (directoryOf file) flag env.userDir).path?
      (locateConfig fs' (directoryOf file) flag env'.userDir).path? := by
  cases h with
  | named hread => exact .some hread
  | searched halike =>
    rw [locateConfig_path?, locateConfig_path?]
    exact halike.find?

/-- Without the path in its errors, a configuration shows nothing but what is read. -/
theorem SameSight.configFor_eq (h : SameSight fs fs' env env' file flag) :
    (configFor fs env file flag).toOption = (configFor fs' env' file flag).toOption := by
  unfold configFor loadConfig
  have hchosen := h.chosen
  -- The chosen paths may differ from here on, as user directories do; their texts do not.
  generalize (locateConfig fs (directoryOf file) flag env.userDir).path? = o at hchosen ⊢
  generalize (locateConfig fs' (directoryOf file) flag env'.userDir).path? = o' at hchosen ⊢
  cases hchosen with
  | none => rfl
  | @some p p' hread =>
    rcases toOption_cases hread with ⟨text, hp, hp'⟩ | ⟨e, e', hp, hp'⟩
    · simp only [Config.ofFile, hp, hp']
      cases Config.parse text <;> rfl
    · simp only [Config.ofFile, hp, hp']
      rfl

end

end RoleLint
