import EditorBridge.Json.Basic
import EditorBridge.Text.Numeral

/-!
# Reading numbers

A number is an optional minus sign, an integer part without superfluous leading zeros, an
optional fraction and an optional exponent. A literal with neither fraction nor exponent that
fits a 64-bit word, or with a minus sign a signed one, is an integer. Minus zero and every other
literal are floating point numbers.

Of a floating point literal the digits that fit a 64-bit word are taken as a natural number,
which is rounded and then multiplied or divided by a power of ten. Integer digits that no longer
fit count as zeros, fraction digits that no longer fit are dropped. A literal too large for the
range is refused, one too small is zero.
-/

namespace EditorBridge.Json

open Text

structure Literal where
  negative : Bool
  whole : List Char
  fraction : List Char
  /-- The sign and the digits of the exponent, if it has one. -/
  exponent : Option (Bool × List Char)

namespace Literal

/-- The part after the fraction: nothing, or a mark, an optional sign and digits. -/
def exponent? : List Char → Option (Option (Bool × List Char))
  | [] => some none
  | mark :: rest =>
    if mark = 'e' ∨ mark = 'E' then
      let (negative, digits) := match rest with
        | '-' :: digits => (true, digits)
        | '+' :: digits => (false, digits)
        | digits => (false, digits)
      if digits ≠ [] ∧ digits.all Char.isDigit then some (some (negative, digits)) else none
    else none

/-- The part after the integer part: an optional fraction and an optional exponent. -/
def tail? (negative : Bool) (whole : List Char) : List Char → Option Literal
  | '.' :: rest =>
    let fraction := rest.takeWhile Char.isDigit
    if fraction = [] then none
    else (exponent? (rest.dropWhile Char.isDigit)).map (⟨negative, whole, fraction, ·⟩)
  | rest => (exponent? rest).map (⟨negative, whole, [], ·⟩)

/-- Whether the digits may be an integer part. -/
def isWhole : List Char → Bool
  | [] => false
  | ['0'] => true
  | first :: _ => first != '0'

/-- Takes a number literal apart. -/
def ofChars? (cs : List Char) : Option Literal :=
  let (negative, cs) := match cs with
    | '-' :: rest => (true, rest)
    | cs => (false, cs)
  let whole := cs.takeWhile Char.isDigit
  if isWhole whole then tail? negative whole (cs.dropWhile Char.isDigit) else none

/-- Appends digits to a natural number as long as it fits a 64-bit word, and says how many
digits are left over. -/
def absorb (n : Nat) : List Char → Nat × Nat
  | [] => (n, 0)
  | c :: cs =>
    if 10 * n + digitValue c ≤ maxWord64 then absorb (10 * n + digitValue c) cs
    else (n, cs.length + 1)

/-- The largest exponent that is reckoned with. -/
def maxExponent : Nat := 2147483647

/-- The magnitude `significand · 10 ^ (shift + exponent)`, where the exponent may be too large
to reckon with. -/
def scaled (significand : Nat) (shift : Int) : Option (Bool × List Char) → Option Magnitude
  | none => (Magnitude.ofNat significand).bind (·.scale shift)
  | some (negative, digits) =>
    let (exponent, excess) := absorb 0 digits
    if 0 < excess ∨ maxExponent < exponent then
      if significand = 0 ∨ negative then some Magnitude.zero else none
    else
      (Magnitude.ofNat significand).bind
        (·.scale (if negative then shift - exponent else shift + exponent))

/-- The number that a literal names. -/
def value? (l : Literal) : Option Number :=
  let (whole, excess) := absorb 0 l.whole
  if l.fraction = [] ∧ l.exponent = none ∧ excess = 0 ∧
      (!l.negative || (0 < whole && whole ≤ maxWord64 / 2 + 1)) then
    some (.integer (if l.negative then -whole else whole))
  else
    let (significand, dropped) := absorb whole l.fraction
    let shift : Int := excess - (l.fraction.length - dropped : Nat)
    (scaled significand shift l.exponent).map (.double ⟨l.negative, ·⟩)

end Literal

def Number.ofChars? (cs : List Char) : Option Number := (Literal.ofChars? cs).bind Literal.value?

end EditorBridge.Json
