import Reckon.Arity

/-!
# Errors of an evaluation

Why a program has no value.
-/

namespace Reckon

/-- How many operands an operator has. -/
inductive OperatorKind
  | unary | binary | ternary
  deriving DecidableEq, Repr

/-- How a message names the kind of an operator. -/
def OperatorKind.describe : OperatorKind → String
  | unary => "unary"
  | binary => "binary"
  | ternary => "ternary"

/-- How a program can be out of balance. -/
inductive Imbalance
  /-- A step finds fewer items than it takes. -/
  | underflow
  /-- The program does not end with exactly one item. -/
  | leftover (count : Nat)
  deriving DecidableEq, Repr

/-- How a message names an imbalance. -/
def Imbalance.describe : Imbalance → String
  | underflow => "stack underflow"
  | leftover count => "evaluation should leave exactly 1 value on stack, but left " ++ toString count

/-- Why a program has no value. -/
inductive EvalError
  /-- A name that stands for nothing. -/
  | undefined (name : String)
  /-- An operator that the environment does not have. -/
  | unknownOperator (kind : OperatorKind) (name : String)
  /-- A call of something that is not a function. -/
  | notCallable
  /-- A call with a number of arguments that the function does not take. -/
  | argumentCount (expected : Arity) (actual : Nat)
  /-- A function of the host failed. -/
  | native (message : String)
  /-- The program is out of balance. -/
  | invalidProgram (imbalance : Imbalance)
  deriving DecidableEq, Repr

/-- The text of an error. -/
def EvalError.message : EvalError → String
  | undefined name => "Variable `" ++ name ++ "` is not defined"
  | unknownOperator kind name => "Unknown " ++ kind.describe ++ " operator `" ++ name ++ "`"
  | notCallable => "Value is not callable"
  | argumentCount expected actual =>
    "Mismatch between the number of arguments in the function definition and its call: definition requires " ++
      expected.describe ++ " arg(s), call has " ++ toString actual
  | native message => "Failed executing native function: " ++ message
  | invalidProgram imbalance => "Invalid instruction stream: " ++ imbalance.describe

end Reckon
