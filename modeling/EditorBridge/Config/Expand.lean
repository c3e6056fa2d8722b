import EditorBridge.Config.Environment

/-!
# Variables in texts

A text may refer to variables as `${NAME}`. A reference is replaced by the value of the variable,
or by nothing if the variable is not set. A reference without a name stays as it is, and so does
an opening that is never closed. What is put in is not looked at again: the text is cut into
pieces in one pass from left to right, and then each piece is written by itself.
-/

namespace EditorBridge.Config

/-- A piece of a text with references. -/
inductive Piece where
  | literal (text : List Char)
  | reference (name : List Char)
deriving DecidableEq

/-- What opens a reference. -/
def opening : List Char := ['$', '\x7b']

def Piece.ofName : List Char → Piece
  | [] => .literal (opening ++ ['\x7d'])
  | name => .reference name

/-- Cuts a text into pieces. Inside a reference, `name?` is the name so far, backwards. -/
def scan (name? : Option (List Char)) (text : List Char) : List Piece :=
  match name?, text with
  | none, [] => []
  | none, '$' :: '\x7b' :: rest => scan (some []) rest
  | none, c :: rest => .literal [c] :: scan none rest
  | some name, [] => [.literal (opening ++ name.reverse)]
  | some name, c :: rest =>
    if c = '\x7d' then Piece.ofName name.reverse :: scan none rest
    else scan (some (c :: name)) rest

def pieces (text : List Char) : List Piece := scan none text

def Piece.value (env : Environment) : Piece → List Char
  | .literal text => text
  | .reference name => ((env (String.ofList name)).getD "").toList

def expand (env : Environment) (text : String) : String :=
  String.ofList ((pieces text.toList).flatMap (Piece.value env))

def references (text : String) : List String :=
  (pieces text.toList).filterMap fun
    | .reference name => some (String.ofList name)
    | .literal _ => none

end EditorBridge.Config
