import RoleLint.ConfigFile
import RoleLint.FileSystem

/- Which configuration applies to a file. The first of these counts:

   1. the file that the command line names, whether it exists or not;
   2. `rag.toml`, then `.rag.toml`, beside the analyzed file;
   3. `config.toml` in the user's directory;
   4. the defaults.

   Correspondence with `rag_cli::config_resolver`: `ConfigOrigin`, `locate`, `load_for`,
   `user_dir` ↔ `ConfigOrigin`, `locateConfig`, `loadConfig`, `Environment.userDir`; and
   `rag_core::config::Config::from_file` ↔ `Config.ofFile`. -/
namespace RoleLint

/-- What a run sees of its environment. -/
structure Environment where
  /-- The user's home directory. -/
  home : Option Path
  /-- The directory named for configuration. -/
  configDir : Option Path
  deriving DecidableEq, Repr

/-- The directory of the user's configuration. -/
def Environment.userDir (env : Environment) : Option Path :=
  env.configDir.orElse fun _ => env.home.map fun home => Path.join home ".rag"

/-- Where a configuration comes from. -/
inductive ConfigOrigin where
  /-- Named on the command line. -/
  | named (path : Path)
  /-- Beside the analyzed file. -/
  | beside (path : Path)
  /-- In the user's directory. -/
  | user (path : Path)
  | builtin
  deriving DecidableEq, Repr

/-- The file that holds a configuration, if one does. -/
def ConfigOrigin.path? : ConfigOrigin → Option Path
  | named path | beside path | user path => some path
  | builtin => none

/-- Names of configuration files beside analyzed ones. -/
def localNames : List Path := ["rag.toml", ".rag.toml"]

/-- Name of the configuration file in the user's directory. -/
def userName : Path := "config.toml"

/-- The directory that a file is in. -/
def directoryOf (file : Path) : Path :=
  match Path.parent? file with
  | some dir => if dir.isEmpty then "." else dir
  | none => "."

/-- Where the configuration for files in `dir` comes from. -/
def locateConfig (fs : FileSystem) (dir : Path) (flag userDir : Option Path) : ConfigOrigin :=
  match flag with
  | some path => .named path
  | none =>
    match (localNames.map (Path.join dir)).find? fs.isFile with
    | some path => .beside path
    | none =>
      match userDir.map fun d => Path.join d userName with
      | some path => if fs.isFile path then .user path else .builtin
      | none => .builtin

/-- The configuration in the file that a path leads to. -/
def Config.ofFile (fs : FileSystem) (path : Path) : Except ConfigError Config :=
  match fs.readText path with
  | .error e => .error (.unreadable path e)
  | .ok text => Config.parse text

/-- The configuration for a file, and with an error the path that was chosen. -/
def loadConfig (fs : FileSystem) (env : Environment) (file : Path) (flag : Option Path) :
    Except (Path × ConfigError) Config :=
  match (locateConfig fs (directoryOf file) flag env.userDir).path? with
  | none => .ok {}
  | some path => (Config.ofFile fs path).mapError fun e => (path, e)

end RoleLint
