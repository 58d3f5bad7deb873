import Reckon.Number.Decimal

/-!
# Numerals

How numbers are written and read. `Numeral.write` gives the fewest digits that read back, never with an exponent.
`Numeral.parse` accepts what a whole text has to be in order to be a number, `Numeral.length` measures the longest
unsigned decimal numeral at the start of a text.
-/

namespace Reckon.Numeral

-- powers of natural numbers are the built-in ones, whatever else can be raised to a power
attribute [local instance (high)] instPowNat

/-! ## Writing -/

/-- The digits of a natural number. -/
def digits (n : Nat) : List Char :=
  Nat.toDigits 10 n

/-- A decimal without an exponent: zeros fill the places between the digits and the point. -/
def positional (d : Decimal) : List Char :=
  let ds := digits d.coefficient
  let places := (-d.exponent).toNat
  if places = 0 then ds ++ List.replicate d.exponent.toNat '0'
  else
    let padded := List.replicate (places + 1 - ds.length) '0' ++ ds
    padded.take (padded.length - places) ++ '.' :: padded.drop (padded.length - places)

/-- The sign in front of a number. -/
def sign (negative : Bool) : List Char :=
  if negative then ['-'] else []

/-- The fewest digits that read back as `x`, without an exponent. -/
def write (x : Float) : String :=
  match Reading.ofFloat x with
  | .nan => "NaN"
  | .infinite negative => String.ofList (sign negative ++ "inf".toList)
  | .finite negative v => String.ofList (sign negative ++ positional v.shortest)

/-- One digit, the point, `count - 1` digits and the exponent: the value of `x` to `count` significant digits. -/
def scientific (count : Nat) (x : Float) : String :=
  match Reading.ofFloat x with
  | .nan | .infinite _ => write x
  | .finite negative v =>
    let d := v.significant count
    let ds := digits d.coefficient
    let ds := ds ++ List.replicate (count - ds.length) '0'
    let fraction := if count ≤ 1 then [] else '.' :: ds.drop 1
    String.ofList (sign negative ++ ds.take 1 ++ fraction) ++ "e" ++ toString (d.exponent + (count - 1 : Nat))

/-! ## Reading -/

/-- A decimal digit. -/
def isDigit (c : Char) : Bool :=
  '0' ≤ c && c ≤ '9'

/-- The value of the digit `c`, up to base 36. -/
def digitValue (c : Char) : Nat :=
  if isDigit c then c.toNat - '0'.toNat else c.toLower.toNat - 'a'.toNat + 10

/-- The number that digits in a base stand for. -/
def ofDigits (base : Nat) (ds : List Char) : Nat :=
  ds.foldl (fun n c => base * n + digitValue c) 0

/-- How many digits `cs` starts with. -/
def digitCount (cs : List Char) : Nat :=
  (cs.takeWhile isDigit).length

/-- The length of `D+ ('.' D*)?` or `'.' D+` at the start of `cs`, or zero. -/
def mantissaLength (cs : List Char) : Nat :=
  let whole := digitCount cs
  match cs.drop whole with
  | '.' :: rest =>
    let fraction := digitCount rest
    if whole = 0 ∧ fraction = 0 then 0 else whole + 1 + fraction
  | _ => whole

/-- The length of `[eE] [+-]? D+` at the start of `cs`, or zero. -/
def exponentLength : List Char → Nat
  | c :: rest =>
    if c = 'e' ∨ c = 'E' then
      let signLength := match rest with
        | s :: _ => if s = '+' ∨ s = '-' then 1 else 0
        | [] => 0
      let count := digitCount (rest.drop signLength)
      if count = 0 then 0 else 1 + signLength + count
    else 0
  | [] => 0

/-- The length of the longest unsigned decimal numeral at the start of `cs`, or zero. -/
def length (cs : List Char) : Nat :=
  let m := mantissaLength cs
  if m = 0 then 0 else m + exponentLength (cs.drop m)

/-- The power of ten that an exponent part stands for; no exponent part is the power zero. -/
def exponentValue : List Char → Int
  | _ :: '-' :: ds => -(ofDigits 10 ds : Int)
  | _ :: '+' :: ds => ofDigits 10 ds
  | _ :: ds => ofDigits 10 ds
  | [] => 0

/-- The decimal that an unsigned numeral stands for. -/
def decimal (cs : List Char) : Decimal :=
  let m := mantissaLength cs
  let mantissa := cs.take m
  let whole := mantissa.takeWhile isDigit
  let fraction := (mantissa.dropWhile isDigit).drop 1
  ⟨ofDigits 10 (whole ++ fraction), exponentValue (cs.drop m) - fraction.length⟩

/-- An unsigned decimal numeral that is the whole of `cs`. -/
def decimal? (cs : List Char) : Option Decimal :=
  if cs ≠ [] ∧ length cs = cs.length then some (decimal cs) else none

/-- The text without its sign, and whether the sign is a minus. -/
def splitSign : List Char → Bool × List Char
  | '-' :: rest => (true, rest)
  | '+' :: rest => (false, rest)
  | cs => (false, cs)

/-- The number that the whole of `cs` stands for: a numeral, `inf`, `infinity` or `nan` in any case, after an optional
sign. -/
def parse (cs : List Char) : Option Float :=
  let (negative, rest) := splitSign cs
  match decimal? rest with
  | some d => some (d.toFloat negative)
  | none =>
    let word := rest.map Char.toLower
    if word = "inf".toList ∨ word = "infinity".toList then some (nearestFloat negative (2 ^ (1024 : Nat)) 1)
    else if word = "nan".toList then some (0 / 0)
    else none

end Reckon.Numeral
