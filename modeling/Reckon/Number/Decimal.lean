import Reckon.Number.Magnitude

/-!
# Decimals

The number `coefficient * 10 ^ exponent`, the double nearest to it (`Decimal.toFloat`), and the decimal with the
fewest digits that is nearest to a given double (`Magnitude.shortest`): among the points of the coarsest decimal grid
that still has a point between the neighbours' midpoints, the one closest to the double, and of two equally close ones
the greater.
-/

namespace Reckon

-- powers of natural numbers are the built-in ones, whatever else can be raised to a power
attribute [local instance (high)] instPowNat

/-- The number `coefficient * 10 ^ exponent`. -/
structure Decimal where
  /-- All digits as one natural number. -/
  coefficient : Nat
  /-- The power of ten. -/
  exponent : Int
  deriving DecidableEq, Repr

namespace Decimal

/-- The power of ten of the first digit. -/
def leadingExponent (d : Decimal) : Int :=
  d.exponent + ((Nat.toDigits 10 d.coefficient).length - 1 : Nat)

/-- The same digits `places` powers of ten further up. The power of ten of the first digit is a number of 32 bits, so a
sum out of their range wraps around. -/
def shift (d : Decimal) (places : Int32) : Decimal :=
  let moved := Int32.ofInt d.leadingExponent + places
  { d with exponent := d.exponent + (moved.toInt - d.leadingExponent) }

/-- The double nearest to the decimal. Beyond the bounds the power of ten alone decides: the coefficient lies between
`1` and `2 ^ (log2 + 1)`. -/
def toFloat (negative : Bool) (d : Decimal) : Float :=
  if d.coefficient = 0 ∨ d.exponent < -(400 + d.coefficient.log2 : Nat) then nearestFloat negative 0 1
  else if 400 < d.exponent then nearestFloat negative (2 ^ (1024 : Nat)) 1
  else nearestFloat negative (d.coefficient * 10 ^ d.exponent.toNat) (10 ^ (-d.exponent).toNat)

end Decimal

namespace Magnitude

/-- Four times the significand and the same for the midpoints below and above, all in units of
`2 ^ (exponent - 2)`. The gap below a power of two is half as wide. -/
def midpoints (v : Magnitude) : Nat × Nat :=
  let below := if v.significand = 2 ^ (52 : Nat) ∧ leastExponent < v.exponent then 1 else 2
  (4 * v.significand - below, 4 * v.significand + 2)

/-- Does the decimal `c * 10 ^ g` round to `v`? A midpoint itself does if the significand is even. -/
def admits (v : Magnitude) (c : Nat) (g : Int) : Bool :=
  let unit := v.exponent - 2
  let point := c * 2 ^ (-unit).toNat * 10 ^ g.toNat
  let scale := 2 ^ unit.toNat * 10 ^ (-g).toNat
  let (low, high) := v.midpoints
  if v.significand % 2 = 0 then low * scale ≤ point && point ≤ high * scale
  else low * scale < point && point < high * scale

/-- The point of the grid `10 ^ g` that is closest to `v` among those that round to `v`. -/
def gridPoint? (v : Magnitude) (g : Int) : Option Nat :=
  let n := v.significand * 2 ^ v.exponent.toNat * 10 ^ (-g).toNat
  let d := 2 ^ (-v.exponent).toNat * 10 ^ g.toNat
  let lower := n / d
  match v.admits lower g, v.admits (lower + 1) g with
  | true, true => some (if 2 * (n % d) < d then lower else lower + 1)
  | true, false => some lower
  | false, true => some (lower + 1)
  | false, false => none

/-- The exact decimal value: `2 ^ (-k)` is `5 ^ k * 10 ^ (-k)`. -/
def exactDecimal (v : Magnitude) : Decimal :=
  if 0 ≤ v.exponent then ⟨v.significand * 2 ^ v.exponent.toNat, 0⟩
  else ⟨v.significand * 5 ^ (-v.exponent).toNat, v.exponent⟩

/-- A power of ten above the value and its midpoints: `30103 / 100000` is a little more than `log10 2`. -/
def topGrid (v : Magnitude) : Int :=
  ((v.significand.log2 : Int) + v.exponent + 2) * 30103 / 100000 + 1

/-- The point of the coarsest grid among `10 ^ bottom` to `10 ^ (bottom + n)` that rounds to `v`; below those grids
the exact value. -/
def coarsest (v : Magnitude) (bottom : Int) : Nat → Decimal
  | 0 => v.exactDecimal
  | n + 1 =>
    match v.gridPoint? (bottom + n) with
    | some c => ⟨c, bottom + n⟩
    | none => v.coarsest bottom n

/-- The decimal with the fewest digits that rounds to `v`. -/
def shortest (v : Magnitude) : Decimal :=
  if v.significand = 0 then ⟨0, 0⟩
  else
    let bottom := min v.exponent 0
    v.coarsest bottom (v.topGrid - bottom + 1).toNat

/-- The greatest `k` with `10 ^ k ≤ v`, for a positive `v`. -/
def decimalExponent (v : Magnitude) : Int :=
  let (n, d) := v.ratio
  let reaches (k : Int) : Bool := d * 10 ^ k.toNat ≤ n * 10 ^ (-k).toNat
  let top := v.topGrid
  ([top, top - 1, top - 2].find? reaches).getD (top - 3)

/-- The value rounded to `digits` significant digits, where a half goes to the even digit. -/
def significant (v : Magnitude) (digits : Nat) : Decimal :=
  if v.significand = 0 then ⟨0, 1 - (digits : Int)⟩
  else
    let (n, d) := v.ratio
    let g := v.decimalExponent - digits + 1
    let c := roundEven (n * 10 ^ (-g).toNat) (d * 10 ^ g.toNat)
    if c = 10 ^ digits then ⟨10 ^ (digits - 1), g + 1⟩ else ⟨c, g⟩

end Magnitude

end Reckon
