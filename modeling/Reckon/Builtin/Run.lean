import Reckon.EvalError
import Reckon.Numeric
import Reckon.Value

/-!
# What built-in operations compute

Operations take the number that a value stands for, where they do not take the value itself. None of them fails but for
the number of its arguments, and all but `random` are functions of their arguments.
-/

namespace Reckon

namespace Value

/-- Order of two values: strings by their characters, all else as numbers. NaN has no order. -/
def order (x y : Value) : Option Ordering :=
  match x, y with
  | string a, string b => some (if a < b then .lt else if a = b then .eq else .gt)
  | _, _ =>
    let a := x.toNumber
    let b := y.toNumber
    if a < b then some .lt else if a == b then some .eq else if b < a then some .gt else none

/-- Compares two values; what has no order does not compare. -/
def compares (accept : Ordering → Bool) (x y : Value) : Value :=
  ofBool ((x.order y).any accept)

/-- Does `part` stand somewhere in `whole`? -/
def occursIn (part : List Char) : List Char → Bool
  | [] => part.isEmpty
  | c :: rest => part.isPrefixOf (c :: rest) || occursIn part rest

/-- Is a value one of the fields of a record, or a string part of a string? -/
def isContained (x y : Value) : Bool :=
  match x, y with
  | _, record fields => fields.any fun f => f.2 == x
  | string a, string b => occursIn a.toList b.toList
  | _, _ => false

/-- The texts of two values, one behind the other. -/
def concatenate (x y : Value) : Value :=
  string (x.text ++ y.text)

end Value

/-- What an operator with one operand computes. -/
def UnaryOp.apply (op : UnaryOp) (x : Value) : Value :=
  match op with
  | not => .ofBool !x.isTruthy
  | length => .number (Float.ofNat x.text.length)
  | negate => .number (-x.toNumber)
  | plus => .number x.toNumber
  | factorial => .number (Numeric.factorial x.toNumber)
  | sin => .number x.toNumber.sin
  | cos => .number x.toNumber.cos
  | tan => .number x.toNumber.tan
  | asin => .number x.toNumber.asin
  | acos => .number x.toNumber.acos
  | atan => .number x.toNumber.atan
  | sinh => .number x.toNumber.sinh
  | cosh => .number x.toNumber.cosh
  | tanh => .number x.toNumber.tanh
  | asinh => .number (Numeric.asinh x.toNumber)
  | acosh => .number (Numeric.acosh x.toNumber)
  | atanh => .number (Numeric.atanh x.toNumber)
  | sqrt => .number x.toNumber.sqrt
  | log | ln => .number x.toNumber.log
  | lg | log10 => .number x.toNumber.log10
  | abs => .number x.toNumber.abs
  | ceil => .number x.toNumber.ceil
  | floor => .number x.toNumber.floor
  | round => .number (Numeric.round x.toNumber)
  | trunc => .number (Numeric.trunc x.toNumber)
  | exp => .number x.toNumber.exp

/-- What an operator with two operands computes. -/
def BinaryOp.apply (op : BinaryOp) (x y : Value) : Value :=
  match op with
  | add => .number (x.toNumber + y.toNumber)
  | subtract => .number (x.toNumber - y.toNumber)
  | multiply => .number (x.toNumber * y.toNumber)
  | divide => .number (x.toNumber / y.toNumber)
  | remainder => .number (Numeric.remainder x.toNumber y.toNumber)
  | power => .number (x.toNumber.pow y.toNumber)
  | concatenate => x.concatenate y
  | equal => .ofBool (x == y)
  | unequal => .ofBool !(x == y)
  | greater => x.compares Ordering.isGT y
  | less => x.compares Ordering.isLT y
  | greaterOrEqual => x.compares Ordering.isGE y
  | lessOrEqual => x.compares Ordering.isLE y
  | and => .ofBool (x.isTruthy && y.isTruthy)
  | or => .ofBool (x.isTruthy || y.isTruthy)
  | contained => .ofBool (x.isContained y)

/-- The value that a condition chooses. -/
def Value.choose (condition yes no : Value) : Value :=
  if condition.isTruthy then yes else no

/-- What a standard function computes, given a random number from `[0, 1)`; nothing if it does not take that many
arguments. -/
def StandardFunction.apply (f : StandardFunction) (chance : Float) (args : List Value) : Option Value :=
  match f, args with
  | random, [] => some (.number (chance * 1))
  | random, [x] => some (.number (chance * if x.isTruthy then x.toNumber else 1))
  | fac, [x] => some (.number (Numeric.factorial x.toNumber))
  | min, xs => some (.number (Numeric.minimum (xs.map Value.toNumber)))
  | max, xs => some (.number (Numeric.maximum (xs.map Value.toNumber)))
  | hypot, xs | pyt, xs => some (.number (Numeric.hypot (xs.map Value.toNumber)))
  | pow, [x, y] => some (.number (x.toNumber.pow y.toNumber))
  | atan2, [y, x] => some (.number (Float.atan2 y.toNumber x.toNumber))
  | choose, [c, x, y] => some (c.choose x y)
  | gamma, [x] => some (.number (Numeric.gamma x.toNumber))
  | roundTo, [x] => some (.number (Numeric.roundTo x.toNumber 0))
  | roundTo, [x, n] => some (.number (Numeric.roundTo x.toNumber n.toNumber))
  | _, _ => none

/-- What an operation computes, given a random number from `[0, 1)`; nothing if it does not take that many
arguments. -/
def Builtin.value? (b : Builtin) (chance : Float) (args : List Value) : Option Value :=
  match b, args with
  | unary op, [x] => some (op.apply x)
  | binary op, [x, y] => some (op.apply x y)
  | ternary .choice, [c, x, y] => some (c.choose x y)
  | function f, xs => f.apply chance xs
  | _, _ => none

/-- What an operation computes, or the error of a wrong number of arguments. -/
def Builtin.run (b : Builtin) (chance : Float) (args : List Value) : Except EvalError Value :=
  match b.value? chance args with
  | some v => .ok v
  | none => .error (.argumentCount b.arity args.length)

end Reckon
