import EditorBridge.Answer.Scope
import EditorBridge.Scopes.Highlight

/-!
# Walking through enclosing scopes

The scopes around the cursor form a list, the innermost first. A cursor walks over the list, one
step outward or inward at a time. It may stand one place before the list and one place after it,
and no further.
-/

namespace EditorBridge

/-- What is shown of a scope: its place in the list, its span and type, and where to highlight. -/
structure ScopeView where
  index : Nat
  scope : Scope
  /-- The regions to highlight. If they overflow, the step to the scope stops the bridge: the cursor
  has moved, but nothing is shown of the scope. -/
  highlight : Except Overflow (List Region)
deriving DecidableEq

def Scope.view (index : Nat) (s : Scope) : ScopeView := ⟨index, s, s.span.regions⟩

/-- A list of scopes and a cursor on it. -/
structure Navigator where
  scopes : List Scope
  /-- The place of the cursor, from minus one to the length of the list. -/
  current : Int
deriving DecidableEq

namespace Navigator

def ofScopes (scopes : List Scope) : Navigator := ⟨scopes, -1⟩

def empty : Navigator := ofScopes []

instance : Inhabited Navigator := ⟨empty⟩

def length (n : Navigator) : Nat := n.scopes.length

def isEmpty (n : Navigator) : Bool := n.scopes.isEmpty

/-- What is shown of the scope under the cursor. -/
def view? (n : Navigator) : Option ScopeView :=
  if n.current < 0 then none
  else n.scopes[n.current.toNat]?.map (Scope.view n.current.toNat)

/-- One step outward. Without scopes the cursor stays where it is. -/
def forward (n : Navigator) : Navigator :=
  if n.isEmpty then n
  else if n.current < n.length then { n with current := n.current + 1 }
  else n

/-- One step inward. Without scopes the cursor stays where it is. -/
def backward (n : Navigator) : Navigator :=
  if n.isEmpty then n
  else if 0 ≤ n.current then { n with current := n.current - 1 }
  else n

end Navigator

end EditorBridge
