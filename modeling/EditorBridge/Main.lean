import EditorBridge.CommandLine.Run
import EditorBridge.Rehearsal.Script

/-!
# The program

The outer layer. It gathers the files and the variables that a run looks at, takes the lines of
the standard input as the answers of the server, and prints what the run says.
-/

namespace EditorBridge.CommandLine

/-- What the file system has at a place. -/
def lookAt (place : List String) : IO (Option FileTree) := do
  let path := "/" ++ String.intercalate "/" place
  try
    if ← (← IO.FS.realPath path).isDir then return some (.directory [])
    let content ← IO.FS.readBinFile path
    return some (.file content.toList)
  catch _ => return none

/-- Adds to a tree what the file system has on the way of a path. -/
def explore (cwd : List String) (tree : FileTree) (path : Path) : IO FileTree := do
  let mut tree := tree
  let mut place := if path.absolute then [] else cwd
  for part in path.parts do
    if part = ".." then place := place.dropLast
    else if part ≠ "" ∧ part ≠ "." then
      place := place ++ [part]
      if (tree.at? place).isNone then
        if let some found ← lookAt place then tree := tree.put place found
  return tree

/-- The values of some variables. -/
def readVariables (names : List String) : IO Config.Environment := do
  let values ← names.mapM fun name => return (name, ← IO.getEnv name)
  return fun name => (values.lookup name).join

/-- The surroundings of a run: the configuration file, the source file, the project files above
it, and the variables that are referred to. -/
def gather (i : Invocation) : IO Surroundings := do
  let cwd := (Path.ofString (← IO.currentDir).toString).parts
  let names := ["HOME", "XDG_CONFIG_HOME", Journal.Filter.variableName]
  let empty : Surroundings :=
    ⟨(FileTree.directory []).put cwd (.directory []), cwd, ← readVariables names⟩
  let settings := (i.config.map Path.ofString).orElse fun _ => empty.configPath?
  let files ← (settings.toList ++ [Path.ofString i.file]).foldlM (explore cwd) empty.files
  let s := { empty with files := files }
  let directories := ((sourceDirectory? s i.file).map Path.ancestors).getD []
  let files ← (directories.map (·.join Project.fileName)).foldlM (explore cwd) files
  let flags := match configure s i with
    | .ok config => config.flags
    | .error _ => []
  let env ← readVariables (names ++ flags.flatMap Config.references)
  return { s with files := files, env := env }

/-- Runs a command line. One that is not understood needs nothing from outside. -/
def perform (words : List String) : IO Report := do
  match Invocation.parse words with
  | .error e => return ⟨[], .usage e⟩
  | .ok i =>
    let s ← gather i
    let lines ← (← IO.getStdin).lines
    return (run s words (Rehearsal.Script.ofLines lines.toList)).1

end EditorBridge.CommandLine

/-- Runs a command line, prints what it says and answers its exit code. -/
def main (words : List String) : IO UInt32 := do
  let report ← EditorBridge.CommandLine.perform words
  IO.print report.verdict.output
  IO.eprint report.standardError
  return report.verdict.exitCode.toUInt32
