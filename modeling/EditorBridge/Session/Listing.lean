import EditorBridge.Answer.Completion
import EditorBridge.Answer.Diagnostic
import EditorBridge.Scopes.Navigator
import EditorBridge.Text.Lines

/-!
# Listings

What an editor shows of the server's answers, and the plain text of it: one record per line.
-/

namespace EditorBridge

/-- A completion candidate as a menu shows it. -/
structure MenuItem where
  word : String
  menu : String
  info : String
  kind : String
deriving DecidableEq, Inhabited

/-- The menu item of a candidate: its description on one line, and the first letter of its
kind. -/
def Completion.menuItem (c : Completion) : MenuItem :=
  ⟨c.name, Text.squash c.desc, c.info, String.ofList (c.kind.toList.take 1)⟩

structure Candidate where
  word : String
  abbr : String
deriving DecidableEq, Inhabited

/-- The candidate of a completion: its kind in front of its name. -/
def Completion.candidate (c : Completion) : Candidate := ⟨c.name, c.kind ++ ": " ++ c.name⟩

/-- A place in a list of places. Its line and column are counted from one, its number from
zero. -/
structure Location where
  line : Nat
  col : Nat
  number : Nat
  text : String
  isError : Bool
deriving DecidableEq, Inhabited

/-- The letter of the kind of a location. -/
def Location.code (l : Location) : String := if l.isError then "e" else "w"

/-- The place of a diagnostic, counted from one. Without a place of its own it is the beginning of
the file. -/
def Diagnostic.place (d : Diagnostic) : Except Overflow (Nat × Nat) :=
  match d.start with
  | some p => (p.line, ·) <$> Text.successor Text.maxWord32 p.col
  | none => .ok (1, 1)

/-- The location of a diagnostic. -/
def Diagnostic.location (d : Diagnostic) (number : Nat) : Except Overflow Location := do
  let (line, col) ← d.place
  pure ⟨line, col, number, Text.onOneLine d.message, d.category.isError⟩

/-- The locations of some diagnostics, numbered, and without the warnings if they are ignored. -/
def Diagnostic.locations (ignoreWarnings : Bool) (ds : List Diagnostic) :
    Except Overflow (List Location) :=
  let shown := ds.filter fun d => !(ignoreWarnings && d.category == .warning)
  shown.zipIdx.mapM fun (d, number) => d.location number

namespace Listing

def line (text : String) : String := text ++ "\n"

def ofLines (texts : List String) : String := String.join (texts.map line)

def menu (items : List MenuItem) : String :=
  ofLines (items.map fun i => i.kind ++ "\t" ++ i.word ++ "\t" ++ i.menu)

def candidates (items : List Candidate) : String := ofLines (items.map Candidate.abbr)

def locations (items : List Location) : String :=
  ofLines (items.map fun l =>
    toString l.line ++ ":" ++ toString l.col ++ ": " ++ l.code ++ ": " ++ l.text)

def names (items : List String) : String := ofLines items

/-- The line of a scope: its span, its type and the pattern that highlights it. -/
def scope (v : ScopeView) : Except Overflow String := do
  let regions ← v.highlight
  let pattern ← Region.alternatives regions
  pure (line (v.scope.span.render ++ "\t" ++ v.scope.type ++ "\t" ++ pattern))

end Listing

end EditorBridge
