import Reckon.Arity

/-!
# Built-in operations

The operators and functions of the standard environment, by name. What they compute is in `Reckon.Builtin.Run`.
-/

namespace Reckon

/-- The standard operators with one operand. -/
inductive UnaryOp
  | negate | plus | factorial | not | sin | cos | tan | asin | acos | atan | sinh | cosh | tanh | asinh | acosh
  | atanh | sqrt | log | ln | lg | log10 | abs | ceil | floor | round | trunc | exp | length
  deriving DecidableEq, Repr

/-- The standard operators with two operands. -/
inductive BinaryOp
  | add | subtract | multiply | divide | remainder | power | concatenate | equal | unequal | greater | less
  | greaterOrEqual | lessOrEqual | and | or | contained
  deriving DecidableEq, Repr

/-- The standard operators with three operands. -/
inductive TernaryOp
  | choice
  deriving DecidableEq, Repr

/-- The standard functions. -/
inductive StandardFunction
  | random | fac | min | max | hypot | pyt | pow | atan2 | choose | gamma | roundTo
  deriving DecidableEq, Repr

namespace UnaryOp

/-- All of them. -/
def all : List UnaryOp :=
  [negate, plus, factorial, not, sin, cos, tan, asin, acos, atan, sinh, cosh, tanh, asinh, acosh, atanh, sqrt, log, ln,
    lg, log10, abs, ceil, floor, round, trunc, exp, length]

theorem mem_all (op : UnaryOp) : op ∈ all := by
  cases op <;> decide

/-- The text of the operator. -/
def name : UnaryOp → String
  | negate => "-"
  | plus => "+"
  | factorial => "!"
  | not => "not"
  | sin => "sin"
  | cos => "cos"
  | tan => "tan"
  | asin => "asin"
  | acos => "acos"
  | atan => "atan"
  | sinh => "sinh"
  | cosh => "cosh"
  | tanh => "tanh"
  | asinh => "asinh"
  | acosh => "acosh"
  | atanh => "atanh"
  | sqrt => "sqrt"
  | log => "log"
  | ln => "ln"
  | lg => "lg"
  | log10 => "log10"
  | abs => "abs"
  | ceil => "ceil"
  | floor => "floor"
  | round => "round"
  | trunc => "trunc"
  | exp => "exp"
  | length => "length"

end UnaryOp

namespace BinaryOp

/-- All of them. -/
def all : List BinaryOp :=
  [add, subtract, multiply, divide, remainder, power, concatenate, equal, unequal, greater, less, greaterOrEqual,
    lessOrEqual, and, or, contained]

theorem mem_all (op : BinaryOp) : op ∈ all := by
  cases op <;> decide

/-- The text of the operator. -/
def name : BinaryOp → String
  | add => "+"
  | subtract => "-"
  | multiply => "*"
  | divide => "/"
  | remainder => "%"
  | power => "^"
  | concatenate => "||"
  | equal => "=="
  | unequal => "!="
  | greater => ">"
  | less => "<"
  | greaterOrEqual => ">="
  | lessOrEqual => "<="
  | and => "and"
  | or => "or"
  | contained => "in"

end BinaryOp

namespace TernaryOp

/-- All of them. -/
def all : List TernaryOp := [choice]

/-- The text of the operator. -/
def name : TernaryOp → String
  | choice => "?"

end TernaryOp

namespace StandardFunction

/-- All of them. -/
def all : List StandardFunction :=
  [random, fac, min, max, hypot, pyt, pow, atan2, choose, gamma, roundTo]

theorem mem_all (f : StandardFunction) : f ∈ all := by
  cases f <;> decide

/-- The name of the function. -/
def name : StandardFunction → String
  | random => "random"
  | fac => "fac"
  | min => "min"
  | max => "max"
  | hypot => "hypot"
  | pyt => "pyt"
  | pow => "pow"
  | atan2 => "atan2"
  | choose => "if"
  | gamma => "gamma"
  | roundTo => "roundTo"

/-- The arguments that the function takes. -/
def arity : StandardFunction → Arity
  | random => .range 0 1
  | fac | gamma => .exact 1
  | min | max | hypot | pyt => .any
  | pow | atan2 => .exact 2
  | choose => .exact 3
  | roundTo => .range 1 2

end StandardFunction

/-- An operation of the standard environment. -/
inductive Builtin
  | unary (op : UnaryOp)
  | binary (op : BinaryOp)
  | ternary (op : TernaryOp)
  | function (f : StandardFunction)
  deriving DecidableEq, Repr

/-- The arguments that an operation takes. -/
def Builtin.arity : Builtin → Arity
  | unary _ => .exact 1
  | binary _ => .exact 2
  | ternary _ => .exact 3
  | function f => f.arity

end Reckon
