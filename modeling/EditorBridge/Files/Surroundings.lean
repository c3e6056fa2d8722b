import EditorBridge.Config.Environment
import EditorBridge.Files.Tree
import EditorBridge.Text.Lines

/-!
# Surroundings

What the bridge sees of the system it runs on: files, a working directory and variables. The
user's home is `HOME`. The directory of the user's settings is `XDG_CONFIG_HOME`, or else
`.config` below the user's home.
-/

namespace EditorBridge

open Config (Environment)

/-- What the bridge sees of the system it runs on. -/
structure Surroundings where
  files : FileTree
  /-- The working directory, as the names on the way from the root. -/
  cwd : List String
  env : Environment

namespace Surroundings

def readText? (s : Surroundings) (path : Path) : Option String :=
  (s.files.read? s.cwd path).bind Text.decodeUtf8?

def exists? (s : Surroundings) (path : Path) : Bool := (s.files.find? s.cwd path).isSome

/-- The user's home. An empty `HOME` counts as none. -/
def home? (s : Surroundings) : Option Path :=
  match s.env "HOME" with
  | some home => if home = "" then none else some (Path.ofString home)
  | none => none

def configDir? (s : Surroundings) : Option Path :=
  match (s.env "XDG_CONFIG_HOME").map Path.ofString with
  | some dir => if dir.absolute then some dir else ofHome?
  | none => ofHome?
where
  /-- The directory below the user's home. -/
  ofHome? : Option Path := s.home?.map (·.join ⟨false, [".config"]⟩)

def configPath? (s : Surroundings) : Option Path :=
  s.configDir?.map (·.join ⟨false, ["merlin-bridge", "config.toml"]⟩)

end Surroundings

end EditorBridge
