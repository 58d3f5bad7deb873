import Reckon.Number.Decimal

/-!
# Numeric functions

Functions on doubles beyond those of the core library. Remainders and shifts by powers of ten are computed from the
exact values and rounded once.
-/

namespace Reckon.Numeric

-- powers of natural numbers are the built-in ones, whatever else can be raised to a power
attribute [local instance (high)] instPowNat

/-! ## Constants -/

/-- Euler's number. -/
def e : Float := 2.71828182845904523536028747135266250

/-- The ratio of a circle's circumference to its diameter. -/
def pi : Float := 3.14159265358979323846264338327950288

/-- Not a number. -/
def nan : Float := 0 / 0

/-- Positive infinity. -/
def infinity : Float := 1 / 0

/-! ## Rounding -/

/-- The integer next to `x` towards zero. -/
def trunc (x : Float) : Float :=
  if x < 0 then x.ceil else x.floor

/-- A finite number without a fraction. -/
def isInteger (x : Float) : Bool :=
  x.isFinite && x == x.round

/-- The nearest integer; a half goes up. The core function takes a half away from zero, so that negative halves have
to be moved. -/
def round (x : Float) : Float :=
  let r := x.round
  if r - x == -0.5 then r + 1 else r

/-- The number with its decimal point moved by `places`: the shortest digits of `x` are read again with another
exponent, of 32 bits like the places. Infinities have no digits and become NaN. -/
def shiftPoint (x : Float) (places : Int32) : Float :=
  match Reading.ofFloat x with
  | .finite negative v => (v.shortest.shift places).toFloat negative
  | _ => nan

/-- Rounds to a number of decimal places, which may be negative but has to be an integer. Beyond the range of 32 bits the
number of places is the nearest in it. The negative of the least is itself, as sums and negatives of 32 bits wrap
around. -/
def roundTo (x places : Float) : Float :=
  if places == 0 then round x
  else if x.isNaN || !isInteger places then nan
  else
    let n := places.toInt32
    shiftPoint (round (shiftPoint x n)) (-n)

/-! ## Arithmetic -/

/-- The remainder of the division that rounds towards zero, exactly; it has the sign of `x`. -/
def remainder (x y : Float) : Float :=
  match Reading.ofFloat x, Reading.ofFloat y with
  | .finite negative a, .finite _ b =>
    if b.significand = 0 then nan
    else
      let e := min a.exponent b.exponent
      let m := a.significand * 2 ^ (a.exponent - e).toNat
      let n := b.significand * 2 ^ (b.exponent - e).toNat
      nearestFloat negative (m % n * 2 ^ e.toNat) (2 ^ (-e).toNat)
  | .finite _ _, .infinite _ => x
  | _, _ => nan

/-- The logarithm of `1 + x`, exact for small `x` too. -/
def logOnePlus (x : Float) : Float :=
  let u := 1 + x
  if u == 1 || x == infinity then x else u.log * x / (u - 1)

/-- The hypotenuse over a leg of length one. -/
def unitHypot (x : Float) : Float :=
  if 1e150 < x then x else (1 + x * x).sqrt

/-- The number with the sign of another one. -/
def withSign (x sign : Float) : Float :=
  if isNegative sign then -x.abs else x.abs

/-- The inverse of the hyperbolic sine. -/
def asinh (x : Float) : Float :=
  let a := x.abs
  let r := 1 / a
  withSign (logOnePlus (a + a / (unitHypot r + r))) x

/-- The inverse of the hyperbolic cosine. -/
def acosh (x : Float) : Float :=
  if x < 1 then nan else (x + (x - 1).sqrt * (x + 1).sqrt).log

/-- The inverse of the hyperbolic tangent. -/
def atanh (x : Float) : Float :=
  0.5 * logOnePlus (2 * x / (1 - x))

/-- The sum of squares so far, relative to the square of the greatest number so far. -/
structure Norm where
  /-- The relative sum. -/
  sum : Float
  /-- The greatest number. -/
  largest : Float

/-- Adds the square of a number. What is neither greater than the greatest number nor positive is zero or NaN. -/
def Norm.add (s : Norm) (x : Float) : Norm :=
  let a := x.abs
  if s.largest < a then
    let ratio := s.largest / a
    ⟨s.sum * ratio * ratio + 1, a⟩
  else if 0 < a then
    let ratio := a / s.largest
    ⟨s.sum + ratio * ratio, s.largest⟩
  else ⟨s.sum + a, s.largest⟩

/-- The root of the sum of squares. -/
def hypot (xs : List Float) : Float :=
  let s := xs.foldl Norm.add ⟨0, 0⟩
  if s.largest == infinity then infinity else s.largest * s.sum.sqrt

/-- Folds numbers; once there is a NaN it stays. -/
def foldNumbers (pick : Float → Float → Float) (start : Float) (xs : List Float) : Float :=
  xs.foldl (fun acc x => if acc.isNaN || x.isNaN then nan else pick acc x) start

/-- The least of the numbers. -/
def minimum (xs : List Float) : Float :=
  foldNumbers (fun a b => if b < a then b else a) infinity xs

/-- The greatest of the numbers. -/
def maximum (xs : List Float) : Float :=
  foldNumbers (fun a b => if a < b then b else a) (-infinity) xs

/-! ## The gamma function -/

/-- The parameter of the Lanczos approximation. -/
def lanczosG : Float := 4.7421875

/-- The first coefficient of the Lanczos approximation. -/
def lanczosHead : Float := 0.9999999999999971

/-- The other coefficients of the Lanczos approximation. -/
def lanczosTail : List Float :=
  [57.15623566586292, -59.59796035547549, 14.136097974741746, -0.4919138160976202, 0.3399464998481189e-4,
    0.4652362892704858e-4, -0.9837447530487956e-4, 0.1580887032249125e-3, -0.2102644417241049e-3,
    0.2174396181152126e-3, -0.1643181065367639e-3, 0.8441822398385274e-4, -0.2619083840158141e-4,
    0.3689918265953162e-5]

/-- The gamma function at a positive integer: a factorial. Beyond 171 it exceeds all doubles, and the poles at zero
and the negative integers count as infinite too. -/
def gammaInteger (x : Float) : Float :=
  if x ≤ 0 || 171 < x then infinity
  else (List.range' 2 (x.toUInt32.toNat - 2)).foldl (fun acc i => acc * Float.ofNat i) 1

/-- The extended Stirling approximation. -/
def stirling (x : Float) : Float :=
  let x2 := x * x
  let x3 := x2 * x
  let x4 := x3 * x
  let x5 := x4 * x
  let series := 1 + 1 / (12 * x) + 1 / (288 * x2) - 139 / (51840 * x3) - 571 / (2488320 * x4) +
    163879 / (209018880 * x5) + 5246819 / (75246796800 * x5 * x)
  (2 * pi / x).sqrt * (x / e).pow x * series

/-- The Lanczos approximation. -/
def lanczos (x : Float) : Float :=
  let n := x - 1
  let series := (lanczosTail.zipIdx 1).foldl (fun acc p => acc + p.1 / (n + Float.ofNat p.2)) lanczosHead
  let t := n + lanczosG + 0.5
  (2 * pi).sqrt * t.pow (n + 0.5) * (-t).exp * series

/-- The gamma function at an integer or from one half on. -/
def gammaRight (x : Float) : Float :=
  if isInteger x then gammaInteger x
  else if 171.35 ≤ x then infinity
  else if 85 < x then stirling x
  else lanczos x

/-- The gamma function; below one half by reflection. -/
def gamma (x : Float) : Float :=
  if isInteger x then gammaInteger x
  else if x.isNaN || x == -infinity then nan
  else if x < 0.5 then pi / ((pi * x).sin * gammaRight (1 - x))
  else gammaRight x

/-- The factorial, for all numbers. -/
def factorial (x : Float) : Float :=
  gamma (x + 1)

end Reckon.Numeric
