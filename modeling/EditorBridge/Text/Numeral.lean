/-!
# Numerals and words

A numeral is one or more ASCII digits, with any number of leading zeros. An unsigned numeral
may carry a plus sign, never a minus sign, and names a value up to a stated limit. White space is
trimmed from the ends of a numeral, as it is from a received line.

The words that limit most numbers of the bridge have 32 or 64 bits. Where a sum does not fit its
word the bridge stops: it does not go on with another number.
-/

namespace EditorBridge

instance decidableEqExcept {ε α : Type} [DecidableEq ε] [DecidableEq α] :
    DecidableEq (Except ε α)
  | .ok a, .ok b => decidable_of_iff (a = b) ⟨congrArg Except.ok, Except.ok.inj⟩
  | .error d, .error e => decidable_of_iff (d = e) ⟨congrArg Except.error, Except.error.inj⟩
  | .ok _, .error _ => isFalse nofun
  | .error _, .ok _ => isFalse nofun

/-- What stops the bridge: the result of an addition does not fit its word. -/
inductive Overflow where
  | addition
deriving DecidableEq, Inhabited

def Overflow.message : Overflow → String
  | .addition => "attempt to add with overflow"

namespace Text

/-! ## White space -/

/-- Whether a character has the Unicode property `White_Space`. -/
def isBlank (c : Char) : Bool :=
  let n := c.toNat
  (9 ≤ n && n ≤ 13) || n == 0x20 || n == 0x85 || n == 0xa0 || n == 0x1680 ||
    (0x2000 ≤ n && n ≤ 0x200a) || n == 0x2028 || n == 0x2029 || n == 0x202f ||
    n == 0x205f || n == 0x3000

def trimLeft (cs : List Char) : List Char := cs.dropWhile isBlank

def trimRight (cs : List Char) : List Char := (cs.reverse.dropWhile isBlank).reverse

def trim (cs : List Char) : List Char := trimRight (trimLeft cs)

/-! ## Numerals -/

def digitValue (c : Char) : Nat := c.toNat - '0'.toNat

/-- The value of one hexadecimal digit. -/
def hexValue? (c : Char) : Option Nat :=
  if c.isDigit then some (digitValue c)
  else if 'a' ≤ c ∧ c ≤ 'f' then some (c.toNat - 'a'.toNat + 10)
  else if 'A' ≤ c ∧ c ≤ 'F' then some (c.toNat - 'A'.toNat + 10)
  else none

/-- The value of a string of ASCII digits, read from the left. -/
def digitsValue (cs : List Char) : Nat := cs.foldl (fun n c => 10 * n + digitValue c) 0

/-- Reads one or more ASCII digits and nothing else. -/
def numeral? (cs : List Char) : Option Nat :=
  if cs ≠ [] ∧ cs.all Char.isDigit then some (digitsValue cs) else none

/-- Reads a numeral with an optional plus sign whose value is at most `limit`. -/
def unsigned? (limit : Nat) (cs : List Char) : Option Nat :=
  let digits := match cs with
    | '+' :: rest => rest
    | cs => cs
  (numeral? digits).filter (· ≤ limit)

/-! ## Words -/

def maxWord32 : Nat := 4294967295

def maxWord64 : Nat := 18446744073709551615

/-- The number after `n`, in a word that goes up to `limit`. -/
def successor (limit n : Nat) : Except Overflow Nat :=
  if n < limit then .ok (n + 1) else .error .addition

end Text

end EditorBridge
