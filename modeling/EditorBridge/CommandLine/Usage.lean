import EditorBridge.Position

/-!
# Values on a command line

What the words and the values of options have to be, and what is wrong with a command line.
-/

namespace EditorBridge.CommandLine

inductive UsageError where
  | unexpected (word : String)
  /-- A word too many that is like the name of a subcommand. -/
  | unrecognized (word : String)
  /-- A value for an option that takes none. -/
  | needlessValue (option value : String)
  | invalidValue (value place reason : String)
  /-- No value, or an empty one, where one is needed. -/
  | missingValue (place : String)
  /-- An option given twice that may be given once. -/
  | repeated (option : String)
  | missingWords (places : List String)
  | missingSubcommand
deriving DecidableEq

def UsageError.message : UsageError → String
  | .unexpected word => "unexpected argument '" ++ word ++ "' found"
  | .unrecognized word => "unrecognized subcommand '" ++ word ++ "'"
  | .needlessValue option value =>
    "unexpected value '" ++ value ++ "' for '" ++ option ++ "' found; no more were expected"
  | .invalidValue value place reason =>
    "invalid value '" ++ value ++ "' for '" ++ place ++ "': " ++ reason
  | .missingValue place => "a value is required for '" ++ place ++ "' but none was supplied"
  | .repeated option => "the argument '" ++ option ++ "' cannot be used multiple times"
  | .missingWords places =>
    "the following required arguments were not provided:" ++
      String.join (places.map ("\n  " ++ ·))
  | .missingSubcommand => "a subcommand is required but one was not provided"

inductive Kind where
  | text
  /-- A text that is not empty. -/
  | path
  | position
  /-- A 64-bit numeral. -/
  | count
deriving DecidableEq

namespace Kind

def count? (text : String) : Option Nat := Text.unsigned? Text.maxWord64 text.toList

/-- Why a text is no number. -/
def countFault (text : String) : String :=
  if text = "" then "cannot parse integer from empty string"
  else if (Text.numeral? text.toList).isSome then "number too large to fit in target type"
  else "invalid digit found in string"

/-- What is wrong with a value at a place, if anything is. -/
def error? (kind : Kind) (place value : String) : Option UsageError :=
  match kind with
  | .text => none
  | .path => if value = "" then some (.missingValue place) else none
  | .position =>
    match Position.parse value with
    | .ok _ => none
    | .error e => some (.invalidValue value place e.message)
  | .count =>
    match count? value with
    | some _ => none
    | none => some (.invalidValue value place (countFault value))

end Kind

end EditorBridge.CommandLine
