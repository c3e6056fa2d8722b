import EditorBridge.Text.Lines

/-!
# Known failures

The server has no error codes, only the texts of its exceptions. Three of them are recognised by
what they contain, in this order: a parse error, a name that was not found, and a package that is
not known. The last one carries two quoted texts, in which a backslash keeps the next character
from ending the quotation.
-/

namespace EditorBridge

open Text

inductive KnownFailure where
  | cannotParse
  | notFound
  | unknownPackage (name reason : String)
deriving DecidableEq

namespace KnownFailure

def message : KnownFailure → String
  | .cannotParse => "error: Cannot parse"
  | .notFound => "error: Not found"
  | .unknownPackage name reason =>
    let base := "error: Unknown package '" ++ name ++ "'"
    if reason = "" then base else base ++ " (" ++ reason ++ ")"

/-- The text up to the quotation mark that ends it, and what follows. A backslash and the
character after it belong to the text; a line feed may not follow a backslash. -/
def quoted? : List Char → Option (List Char × List Char)
  | [] => none
  | '"' :: rest => some ([], rest)
  | '\\' :: c :: rest =>
    if c = '\n' then none else (quoted? rest).map fun (text, rest) => ('\\' :: c :: text, rest)
  | ['\\'] => none
  | c :: rest => (quoted? rest).map fun (text, rest) => (c :: text, rest)

/-- The signature of a parse error. -/
def parseSignature : List Char := "Chunk_parser.Error".toList

/-- The signature of a name that was not found. -/
def notFoundSignature : List Char := "Not_found".toList

/-- What stands before the name of an unknown package. -/
def packageOpening : List Char := "Fl_package_base.No_such_package(\"".toList

/-- What stands between the quotation mark after the name and the reason. -/
def packageSeparator : List Char := ", \"".toList

/-- Reads the signature of an unknown package from the beginning of a text. -/
def packageAt? (text : List Char) : Option KnownFailure := do
  let rest ← after? packageOpening text
  let (name, rest) ← quoted? rest
  let rest ← after? packageSeparator rest
  let (reason, rest) ← quoted? rest
  let _ ← after? [')'] rest
  some (.unknownPackage (String.ofList name) (String.ofList reason))

/-- Reads the first signature of an unknown package in a text. -/
def package? : List Char → Option KnownFailure
  | [] => none
  | c :: cs =>
    match packageAt? (c :: cs) with
    | some failure => some failure
    | none => package? cs

def classify (text : String) : Option KnownFailure :=
  if occursIn parseSignature text.toList then some .cannotParse
  else if occursIn notFoundSignature text.toList then some .notFound
  else package? text.toList

end KnownFailure

end EditorBridge
