/-!
# Paths

A path is written with slashes between its parts and begins with one if it is absolute. The parts
are kept as they are written, with empty parts and parts `.` and `..` among them. The parent of a
path is what remains without its last part, where empty parts and parts `.` do not count; only a
part `.` at the very beginning counts.
-/

namespace EditorBridge

structure Path where
  absolute : Bool
  parts : List String
deriving DecidableEq, Inhabited

namespace Path

def ofString (text : String) : Path :=
  let ofParts (absolute : Bool) (cs : List Char) : Path :=
    ⟨absolute, if cs = [] then [] else (cs.splitOn '/').map String.ofList⟩
  match text.toList with
  | '/' :: rest => ofParts true rest
  | cs => ofParts false cs

def render (p : Path) : String :=
  (if p.absolute then "/" else "") ++ String.intercalate "/" p.parts

def isEmpty (p : Path) : Bool := !p.absolute && p.parts.isEmpty

/-- A path below another one. An absolute path replaces what it is joined to. -/
def join (p q : Path) : Path :=
  if q.absolute then q
  else
    let parts := if p.parts.getLast? = some "" then p.parts.dropLast else p.parts
    if q.parts = [] ∧ p.parts ≠ [] then ⟨p.absolute, parts ++ [""]⟩
    else ⟨p.absolute, parts ++ q.parts⟩

/-- Whether a part counts for nothing, given the parts before it. -/
def isIdle (absolute : Bool) (part : String) (before : List String) : Bool :=
  part == "" || (part == "." && (absolute || !before.isEmpty))

/-- The parts, written backwards, without the idle parts at the end of the path. -/
def trimParts (absolute : Bool) : List String → List String
  | [] => []
  | part :: before =>
    if isIdle absolute part before then trimParts absolute before else part :: before

def parentParts (absolute : Bool) : List String → List (List String)
  | [] => []
  | part :: before =>
    if isIdle absolute part before then parentParts absolute before
    else trimParts absolute before :: parentParts absolute before

def parents (p : Path) : List Path :=
  (parentParts p.absolute p.parts.reverse).map fun parts => ⟨p.absolute, parts.reverse⟩

/-- The path and all its parents. -/
def ancestors (p : Path) : List Path := p :: p.parents

/-- The parent of a path; a root has none. -/
def parent? (p : Path) : Option Path := p.parents.head?

end Path

end EditorBridge
