import EditorBridge.Files.Tree
import EditorBridge.Text.Numeral

/-!
# Project files

The project file of a directory is the file `.merlin` in the directory itself or in the nearest
of its parents that has one, up to a depth. The depth is a 64-bit word, and so is the number of
directories looked into, which is one more: a search of the largest depth overflows.
-/

namespace EditorBridge.Project

def fileName : Path := ⟨false, [".merlin"]⟩

/-- How many directories a search of a depth looks into. -/
def reach (depth : Nat) : Except Overflow Nat := Text.successor Text.maxWord64 depth

/-- The places of project files in the first so many of a directory and its parents, the nearest
first. -/
def candidates (dir : Path) (reach : Nat) : List Path :=
  (dir.ancestors.take reach).map (·.join fileName)

/-- The nearest project file at or above a directory, where `isFile` says which paths are files. -/
def search (isFile : Path → Bool) (dir : Path) (depth : Nat) : Except Overflow (Option Path) := do
  let reach ← reach depth
  pure ((candidates dir reach).find? isFile)

/-- The project file of a source file. A bare file name has none. -/
def searchForFile (isFile : Path → Bool) (file : Path) (depth : Nat) :
    Except Overflow (Option Path) :=
  match file.parent? with
  | none => .ok none
  | some dir => if dir.isEmpty then .ok none else search isFile dir depth

end EditorBridge.Project
