/-!
# Binary floating point

Numbers with 53 significant bits, kept as a significand and a power of two. Their arithmetic is
exact arithmetic on natural numbers followed by one rounding: to the nearest number, and of two
equally near ones to the one with the even significand.

A number is written with the fewest decimal digits that read back as the same number; of several
such decimals the nearest one, and of two equally near ones the even one.
-/

namespace EditorBridge.Json

/-- The magnitude `significand · 2 ^ exponent`. -/
structure Magnitude where
  significand : Nat
  exponent : Int
deriving DecidableEq, Inhabited

/-- A number with 53 significant bits: a magnitude and a sign, which zero has too. -/
structure Binary64 where
  negative : Bool
  magnitude : Magnitude
deriving DecidableEq, Inhabited

namespace Magnitude

def precision : Nat := 53

def leading : Nat := Nat.pow 2 (precision - 1)

def minExponent : Int := -1074

def maxExponent : Int := 971

def zero : Magnitude := ⟨0, minExponent⟩

/-- Two to a power, as a quotient of natural numbers. -/
def powTwo (e : Int) : Nat × Nat := (Nat.pow 2 e.toNat, Nat.pow 2 (-e).toNat)

def ratio (x : Magnitude) : Nat × Nat :=
  let (up, down) := powTwo x.exponent
  (x.significand * up, down)

/-- The largest `e` with `2 ^ e ≤ num / den`, for positive numbers. -/
def floorLog2 (num den : Nat) : Int :=
  let e : Int := (Nat.log2 num : Int) - (Nat.log2 den : Int)
  let (up, down) := powTwo e
  if den * up ≤ num * down then e else e - 1

/-- The quotient rounded to the nearest natural number, a half going to the even one. -/
def roundDiv (num den : Nat) : Nat :=
  let floor := num / den
  let rest := num % den
  if 2 * rest < den then floor
  else if den < 2 * rest then floor + 1
  else floor + floor % 2

/-- The magnitude nearest to a quotient of natural numbers, unless that is too large. -/
def ofRatio (num den : Nat) : Option Magnitude :=
  if num = 0 then some zero
  else
    let e := max (floorLog2 num den - (precision - 1 : Nat)) minExponent
    let (up, down) := powTwo e
    let significand := roundDiv (num * down) (den * up)
    let (significand, e) :=
      if significand = 2 * leading then (leading, e + 1) else (significand, e)
    if e ≤ maxExponent then some ⟨significand, e⟩ else none

def ofNat (n : Nat) : Option Magnitude := ofRatio n 1

def mul (x y : Magnitude) : Option Magnitude :=
  ofRatio (x.ratio.1 * y.ratio.1) (x.ratio.2 * y.ratio.2)

def div (x y : Magnitude) : Option Magnitude :=
  ofRatio (x.ratio.1 * y.ratio.2) (x.ratio.2 * y.ratio.1)

def maxPowTen : Nat := 308

def powTen (e : Nat) : Option Magnitude := ofNat (Nat.pow 10 e)

/-- Multiplies by a power of ten. Zero stays zero whatever the power. -/
def scaleUp (x : Magnitude) (e : Nat) : Option Magnitude :=
  if e ≤ maxPowTen then (powTen e).bind (x.mul ·)
  else if x.significand = 0 then some x
  else none

/-- Divides by a power of ten, a large power in several steps with a rounding after each. -/
def scaleDown (x : Magnitude) (e : Nat) : Option Magnitude :=
  if e ≤ maxPowTen then (powTen e).bind (x.div ·)
  else if x.significand = 0 then some x
  else ((powTen maxPowTen).bind (x.div ·)).bind (scaleDown · (e - maxPowTen))
termination_by e
decreasing_by simp only [maxPowTen] at *; omega

/-- Multiplies by a power of ten of either sign. -/
def scale (x : Magnitude) (e : Int) : Option Magnitude :=
  if 0 ≤ e then x.scaleUp e.toNat else x.scaleDown (-e).toNat

/-! ## Shortest decimals -/

/-- The decimal `digits · 10 ^ power`. -/
structure Decimal where
  digits : Nat
  power : Int
deriving DecidableEq

/-- The numbers that round to a magnitude, in units of a quarter of its last place: the lower
end, the magnitude and the upper end. Below a power of two the places are half as wide. -/
def interval (x : Magnitude) : Nat × Nat × Nat :=
  let middle := 4 * x.significand
  let below := if x.significand = leading ∧ minExponent < x.exponent then 1 else 2
  (middle - below, middle, middle + 2)

/-- The multiple of `10 ^ power` nearest to a magnitude among those that round to it. -/
def onGrid? (x : Magnitude) (power : Int) : Option Decimal :=
  let (low, middle, high) := x.interval
  let (up, down) := powTwo (x.exponent - 2)
  let grid := Nat.pow 10 power.toNat * down
  let unit := Nat.pow 10 (-power).toNat * up
  let inside (d : Nat) : Bool :=
    if x.significand % 2 = 0 then low * unit ≤ d * grid && d * grid ≤ high * unit
    else low * unit < d * grid && d * grid < high * unit
  let floor := middle * unit / grid
  let nearest :=
    let twice := 2 * (middle * unit)
    let half := (2 * floor + 1) * grid
    if twice < half then floor else if half < twice then floor + 1 else floor + floor % 2
  if inside nearest then some ⟨nearest, power⟩
  else if inside floor then some ⟨floor, power⟩
  else if inside (floor + 1) then some ⟨floor + 1, power⟩
  else none

/-- Searches the grids of ever smaller powers of ten. -/
def searchGrids (x : Magnitude) : Nat → Int → Decimal
  | 0, power => ⟨0, power⟩
  | tries + 1, power =>
    match x.onGrid? power with
    | some d => d
    | none => searchGrids x tries (power - 1)

/-- A power of ten above a positive magnitude. -/
def powTenAbove (x : Magnitude) : Int :=
  ((Nat.log2 x.significand : Int) + 1 + x.exponent) * 30103 / 100000 + 1

/-- The shortest decimal of a positive magnitude. -/
def shortest (x : Magnitude) : Decimal := searchGrids x 24 x.powTenAbove

end Magnitude

/-! ## The written form -/

namespace Binary64

/-- The smallest decimal exponent written without an exponent mark. -/
def minPlainExponent : Int := -5

/-- The smallest decimal exponent above one that is written with an exponent mark. -/
def maxPlainExponent : Int := 16

/-- Writes a decimal with a point, and with an exponent mark if it is very large or small. -/
def renderDecimal (d : Magnitude.Decimal) : List Char :=
  let digits := (toString d.digits).toList
  let point : Int := digits.length + d.power
  let exponent := point - 1
  if exponent < minPlainExponent ∨ maxPlainExponent ≤ exponent then
    let fraction := match digits.drop 1 with
      | [] => []
      | rest => '.' :: rest
    let sign := if exponent < 0 then '-' else '+'
    digits.take 1 ++ fraction ++ 'e' :: sign :: (toString exponent.natAbs).toList
  else if point ≤ 0 then
    '0' :: '.' :: (List.replicate (-point).toNat '0' ++ digits)
  else
    let whole := digits.take point.toNat ++ List.replicate (point.toNat - digits.length) '0'
    let fraction := match digits.drop point.toNat with
      | [] => ['0']
      | rest => rest
    whole ++ '.' :: fraction

/-- Writes a number with the fewest digits that read back. -/
def render (x : Binary64) : List Char :=
  let magnitude :=
    if x.magnitude.significand = 0 then ['0', '.', '0'] else renderDecimal x.magnitude.shortest
  if x.negative then '-' :: magnitude else magnitude

end Binary64

end EditorBridge.Json
