import EditorBridge.Files.Surroundings

/-!
# Where an executable may be

The name of an executable that has more than one part is a path, which starts at the working
directory if it is not absolute; its empty parts and parts `.` are left out then. A name of one
part is looked for in the directories that the variable `PATH` lists with colons between them. A
directory in that list whose first part is `~` lies below the user's home, if there is one.
-/

namespace EditorBridge

namespace Path

def properParts (p : Path) : List String := p.parts.filter fun part => part != "" && part != "."

/-- Whether a path has more than one part, where the root is a part and so is a `.` at the very
beginning. -/
def isCompound (p : Path) : Bool :=
  let leading := if p.absolute || p.parts.head? == some "." then 1 else 0
  1 < leading + p.properParts.length

end Path

namespace Surroundings

/-- The directory with a `~` at its beginning replaced. -/
def expandHome (s : Surroundings) (dir : Path) : Path :=
  match s.home?, dir.absolute, dir.parts with
  | some home, false, "~" :: _ =>
    (dir.properParts.drop 1).foldl (fun path part => path.join ⟨false, [part]⟩) home
  | _, _, _ => dir

/-- The directories in which executables are looked for. -/
def searchPath (s : Surroundings) : List Path :=
  match s.env "PATH" with
  | none => []
  | some text =>
    (text.toList.splitOn ':').map fun dir => s.expandHome (Path.ofString (String.ofList dir))

/-- The paths at which an executable may be, the preferred one first. -/
def executablePaths (s : Surroundings) (name : String) : List Path :=
  let path := Path.ofString name
  if path.absolute && path.isCompound then [path]
  else if path.isCompound then [⟨true, s.cwd ++ path.properParts⟩]
  else s.searchPath.map (·.join path)

end Surroundings

end EditorBridge
