import RoleLint.Command.Run

/- A run looks at few files, and the words of the command line tell which. This
   module lists them and makes a file system of what is found under them.

   Correspondence: none with one function; `Request.paths` gathers the paths that
   `commands::check`, `commands::extract`, `commands::init` and `config_resolver::locate` of
   `rag_cli` open. -/
namespace RoleLint

/-- The paths that the configuration of a file may be under. -/
def configPaths (env : Environment) (file : Path) (flag : Option Path) : List Path :=
  flag.toList ++ localNames.map (Path.join (directoryOf file)) ++
    (env.userDir.map fun d => Path.join d userName).toList

/-- The paths that a request looks at. -/
def Request.paths (env : Environment) : Request → List Path
  | .run (.check file ..) config _ => file :: configPaths env file config
  | .run (.extract file ..) config _ => file :: configPaths env file config
  | .run (.init _) .. => [initPath]
  | _ => []

/-- The directories that a path leads through, and where it ends. -/
def FileSystem.trail (fs : FileSystem) (path : Path) : List Names × Names :=
  (Path.names path).foldl
    (fun (passed, here) name => (here :: passed, FileSystem.child here name))
    ([], fs.origin path)

/-- A file system with the given working directory, in which each path leads to the
    given entry. -/
def FileSystem.ofPaths (cwd : Names) (found : List (Path × Entry)) : FileSystem :=
  let bare : FileSystem := ⟨cwd, []⟩
  let ends := found.map fun (path, entry) => ((bare.trail path).2, entry)
  let passed := found.flatMap fun (path, _) => (bare.trail path).1
  ⟨cwd, ends ++ passed.map fun names => (names, .directory)⟩

end RoleLint
