/-!
# The exact value of a double

A finite double is a sign and a magnitude `significand * 2 ^ exponent`. `Magnitude.ofPattern` reads the magnitude off
the 63 low bits of a double, and `nearestPattern` goes the other way for every positive quotient of natural numbers:
the nearest magnitude, where a tie goes to the even significand. `Reading` classifies a double by its bits.
-/

namespace Reckon

-- powers of natural numbers are the built-in ones, whatever else can be raised to a power
attribute [local instance (high)] instPowNat

/-- The number `significand * 2 ^ exponent`. -/
structure Magnitude where
  /-- The significand, below `2 ^ 53` for a double. -/
  significand : Nat
  /-- The power of two. -/
  exponent : Int
  deriving DecidableEq, Repr

/-- The quotient `n / d` rounded to the nearest natural number; a half goes to the even neighbour. -/
def roundEven (n d : Nat) : Nat :=
  let q := n / d
  let r := n % d
  if 2 * r < d ∨ 2 * r = d ∧ q % 2 = 0 then q else q + 1

namespace Magnitude

/-- The exponent of the smallest positive double. -/
def leastExponent : Int := -1074

/-- The pattern of infinity: the doubles below it are finite. -/
def infinitePattern : Nat := 0x7FF * 2 ^ (52 : Nat)

/-- The magnitude that the 63 low bits of a finite double stand for. -/
def ofPattern (bits : Nat) : Magnitude :=
  let fraction := bits % 2 ^ (52 : Nat)
  match bits / 2 ^ (52 : Nat) with
  | 0 => ⟨fraction, leastExponent⟩
  | k + 1 => ⟨2 ^ (52 : Nat) + fraction, leastExponent + k⟩

/-- Numerator and denominator of the magnitude. -/
def ratio (v : Magnitude) : Nat × Nat :=
  (v.significand * 2 ^ v.exponent.toNat, 2 ^ (-v.exponent).toNat)

/-- The exponent at which `n / d` has a significand of 53 bits, or the least one if that is greater. -/
def exponentFor (n d : Nat) : Int :=
  let e : Int := (n.log2 : Int) - d.log2 - 53
  let e := if n * 2 ^ (-e).toNat / (d * 2 ^ e.toNat) < 2 ^ (53 : Nat) then e else e + 1
  max e leastExponent

/-- The pattern of the double that is nearest to `n / d`, where ties go to the even significand. -/
def nearestPattern (n d : Nat) : Nat :=
  if n = 0 then 0
  else
    let e := exponentFor n d
    let significand := roundEven (n * 2 ^ (-e).toNat) (d * 2 ^ e.toNat)
    min ((e - leastExponent).toNat * 2 ^ (52 : Nat) + significand) infinitePattern

end Magnitude

/-- The number `n / d` with a sign as the nearest double. -/
def nearestFloat (negative : Bool) (n d : Nat) : Float :=
  Float.ofBits (.ofNat (Magnitude.nearestPattern n d + if negative then 2 ^ (63 : Nat) else 0))

/-- What the bits of a double stand for. -/
inductive Reading
  /-- Not a number. -/
  | nan
  /-- An infinity. -/
  | infinite (negative : Bool)
  /-- A number; zeros have a sign too. -/
  | finite (negative : Bool) (value : Magnitude)
  deriving DecidableEq, Repr

/-- Classifies a double by its bits. -/
def Reading.ofFloat (x : Float) : Reading :=
  let bits := x.toBits.toNat
  let negative := decide (2 ^ (63 : Nat) ≤ bits)
  let pattern := bits % 2 ^ (63 : Nat)
  if pattern < Magnitude.infinitePattern then .finite negative (.ofPattern pattern)
  else if pattern = Magnitude.infinitePattern then .infinite negative
  else .nan

/-- Is the sign bit set? For NaN the answer is no. -/
def isNegative (x : Float) : Bool :=
  match Reading.ofFloat x with
  | .nan => false
  | .infinite negative => negative
  | .finite negative _ => negative

end Reckon
