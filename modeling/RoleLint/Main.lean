import RoleLint.Command.Snapshot

/- The program: reads the files that a run looks at, runs it, and writes and prints
   what it leaves behind.

   Correspondence: `main` of `rag_cli` ↔ `main`, the part of it that reads the arguments and
   the environment, and prints. -/
open RoleLint

/-- What stands under a path, if something does. -/
def entryAt (path : Path) : IO (Option Entry) := do
  try
    let bytes ← IO.FS.readBinFile path.shown
    return some (.file (String.fromUTF8? bytes))
  catch e =>
    match e with
    | .noFileOrDirectory .. => return none
    | _ => return some .directory

/-- Run the program on the words of a command line. -/
def main (arguments : List String) : IO UInt32 := do
  let words := arguments.map RawText.ofString
  let home ← IO.getEnv "HOME"
  let configDir ← IO.getEnv "RAG_CONFIG_DIR"
  let env : Environment :=
    { home := home.map RawText.ofString, configDir := configDir.map RawText.ofString }
  let paths := (Request.ofWords words).paths env
  let found ← paths.filterMapM fun path => do
    let entry ← entryAt path
    return entry.map fun e => (path, e)
  let cwd ← IO.currentDir
  let files := FileSystem.ofPaths (Path.names cwd.toString) found
  let outcome := run files env words
  for (path, content) in files.changes outcome.files do
    IO.FS.writeFile path.shown content
  IO.print outcome.stdout
  IO.eprint outcome.stderr
  return outcome.exit.toUInt32
