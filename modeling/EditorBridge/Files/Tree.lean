import EditorBridge.Files.Path

/-!
# File trees

A file tree holds files, each a sequence of bytes, and directories. A path is resolved from a
working directory, part by part: `.` stays, `..` goes up, an empty part does nothing, and every
part, also an empty one at the end, asks for a directory to start from. A path that is too long
to be handed to the system leads nowhere.
-/

namespace EditorBridge

/-- A file or a directory with named entries. -/
inductive FileTree where
  | file (content : List UInt8)
  | directory (entries : List (String × FileTree))

namespace FileTree

def child? (name : String) : FileTree → Option FileTree
  | .directory entries => entries.lookup name
  | .file _ => none

def isDirectory : FileTree → Bool
  | .directory _ => true
  | .file _ => false

def content? : FileTree → Option (List UInt8)
  | .file content => some content
  | .directory _ => none

def at? (root : FileTree) (names : List String) : Option FileTree :=
  names.foldlM (fun tree name => tree.child? name) root

/-- One step on the way of a path, from a place whose names stand backwards. -/
def enter? (root : FileTree) (place : List String) (part : String) : Option (List String) :=
  match root.at? place.reverse with
  | some (.directory entries) =>
    if part = "" ∨ part = "." then some place
    else if part = ".." then some place.tail
    else if (entries.lookup part).isSome then some (part :: place)
    else none
  | _ => none

/-- The longest path in bytes. -/
def maxPathBytes : Nat := 4095

/-- The place that a path leads to, as the names on the way from the root. -/
def resolve? (root : FileTree) (cwd : List String) (path : Path) : Option (List String) :=
  if maxPathBytes < path.render.utf8ByteSize then none
  else
    let start := if path.absolute then [] else cwd.reverse
    (path.parts.foldlM (enter? root) start).map List.reverse

def find? (root : FileTree) (cwd : List String) (path : Path) : Option FileTree :=
  if path.isEmpty then none else (root.resolve? cwd path).bind root.at?

def read? (root : FileTree) (cwd : List String) (path : Path) : Option (List UInt8) :=
  (root.find? cwd path).bind content?

def isFile (root : FileTree) (cwd : List String) (path : Path) : Bool :=
  (root.read? cwd path).isSome

/-- The place of a path as an absolute path without detours. -/
def canonical? (root : FileTree) (cwd : List String) (path : Path) : Option Path :=
  if path.isEmpty then none else (root.resolve? cwd path).map (⟨true, ·⟩)

/-- The entries of a directory with one entry replaced or added at the end. -/
def putEntry (name : String) (tree : FileTree) :
    List (String × FileTree) → List (String × FileTree)
  | [] => [(name, tree)]
  | (other, old) :: entries =>
    if other = name then (name, tree) :: entries else (other, old) :: putEntry name tree entries

/-- The tree with something put at a place. Directories on the way are made, and replace files. -/
def put (tree : FileTree) (names : List String) (new : FileTree) : FileTree :=
  match names with
  | [] => new
  | name :: names =>
    let entries := match tree with
      | .directory entries => entries
      | .file _ => []
    let below := (entries.lookup name).getD (.directory [])
    .directory (putEntry name (below.put names new) entries)

/-- The tree without what stands at a place. -/
def erase (tree : FileTree) (names : List String) : FileTree :=
  match tree, names with
  | .directory entries, [name] => .directory (entries.filter (·.1 != name))
  | .directory entries, name :: names =>
    match entries.lookup name with
    | some below => .directory (putEntry name (below.erase names) entries)
    | none => tree
  | tree, _ => tree

end FileTree

end EditorBridge
