import EditorBridge.Config.Expand
import EditorBridge.Config.Toml
import EditorBridge.Files.Surroundings

/-!
# Configuration

The settings of the bridge, each of which has a default, and the file they are read from. A file
with an unknown setting, or with a setting of the wrong kind, is refused.
-/

namespace EditorBridge

/-- The settings of the bridge. -/
structure Config where
  executable : String
  /-- The flags to start it with, in which variables may be referred to. -/
  flags : List String
  /-- Whether warnings are left out of listings. -/
  ignoreWarnings : Bool
  searchDepth : Nat
deriving DecidableEq, Inhabited

namespace Config

inductive Fault where
  /-- The text is not TOML, or holds what no setting is written with. -/
  | notToml
  | unknownSetting (name : String)
  /-- The value of a setting is of the wrong kind. -/
  | wrongKind (name : String)
deriving DecidableEq

def settingNames : List String := ["executable", "flags", "ignore_warnings", "project_search_depth"]

/-- A name as it stands in messages. -/
def ticked (name : String) : String := "`" ++ name ++ "`"

def Fault.message : Fault → String
  | .notToml => "no settings in TOML"
  | .unknownSetting name =>
    "unknown field " ++ ticked name ++ ", expected one of " ++
      String.intercalate ", " (settingNames.map ticked)
  | .wrongKind name => "invalid type of " ++ ticked name

end Config

inductive ConfigError where
  | unreadable (path : Path)
  | malformed (path : Path) (fault : Config.Fault)

namespace ConfigError

def message : ConfigError → String
  | .unreadable path => "failed to read config at " ++ path.render
  | .malformed path _ => "failed to parse config at " ++ path.render

def path : ConfigError → Path
  | .unreadable path | .malformed path _ => path

end ConfigError

namespace Config

/-- The settings of an empty file. -/
def default : Config := ⟨"ocamlmerlin", [], false, 3⟩

def set (c : Config) (name : String) (value : Toml.Value) : Except Fault Config :=
  if name = "executable" then
    match value with
    | .text s => .ok { c with executable := s }
    | _ => .error (.wrongKind name)
  else if name = "flags" then
    match value with
    | .texts list => .ok { c with flags := list }
    | _ => .error (.wrongKind name)
  else if name = "ignore_warnings" then
    match value with
    | .truth b => .ok { c with ignoreWarnings := b }
    | _ => .error (.wrongKind name)
  else if name = "project_search_depth" then
    match value with
    | .integer n =>
      if 0 ≤ n ∧ n ≤ Text.maxWord64 then .ok { c with searchDepth := n.toNat }
      else .error (.wrongKind name)
    | _ => .error (.wrongKind name)
  else .error (.unknownSetting name)

def parse (text : String) : Except Fault Config :=
  match Toml.parse text with
  | none => .error .notToml
  | some pairs =>
    (pairs.mergeSort fun a b => decide (a.1 ≤ b.1)).foldlM (fun c (name, value) => c.set name value)
      default

/-- The flags with their variables replaced. -/
def expandedFlags (c : Config) (env : Environment) : List String := c.flags.map (expand env)

def loadFrom (s : Surroundings) (path : Path) : Except ConfigError Config :=
  match s.readText? path with
  | none => .error (.unreadable path)
  | some text =>
    match parse text with
    | .error fault => .error (.malformed path fault)
    | .ok c => .ok c

/-- Reads the user's configuration file, if there is one. -/
def load (s : Surroundings) : Except ConfigError (Option Config) :=
  match s.configPath? with
  | none => .ok none
  | some path => if s.exists? path then (loadFrom s path).map some else .ok none

end Config

end EditorBridge
