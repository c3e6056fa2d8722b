import EditorBridge.Text.Lines

/-!
# Variables

The variables that a program is started with are a list of entries `NAME=VALUE`. The value of a
name is what follows the name and an equals sign in the first entry that begins with them. So a
name may hold an equals sign itself and then reaches into a value: with the entry `A=B=C` the
value of `A` is `B=C`, and the value of `A=B` is `C`.
-/

namespace EditorBridge.Config

/-- The values of variables. -/
abbrev Environment := String → Option String

namespace Environment

def entry (name value : String) : List Char := name.toList ++ '=' :: value.toList

/-- The value of a name in some entries. -/
def lookIn (entries : List (List Char)) (name : String) : Option String :=
  (entries.findSome? (Text.after? (entry name ""))).map String.ofList

/-- The values that some variables give to names. -/
def ofVariables (bindings : List (String × String)) : Environment :=
  lookIn (bindings.map fun (name, value) => entry name value)

end Environment

end EditorBridge.Config
