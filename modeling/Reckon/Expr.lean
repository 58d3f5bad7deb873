import Reckon.Program

/-!
# Expressions

The tree of a code, without its parentheses, and the program that a tree becomes (`Expr.program`): operands first, from
left to right, and operands that may never be evaluated as programs of their own.
-/

namespace Reckon

/-- An expression. -/
inductive Expr
  /-- A number. -/
  | number (value : Float)
  /-- A string. -/
  | string (value : String)
  /-- A variable, function or constant. -/
  | name (name : String)
  /-- An operator with one operand. -/
  | unary (op : String) (x : Expr)
  /-- An operator between two operands. -/
  | binary (op : String) (x y : Expr)
  /-- The choice between two branches. -/
  | choice (condition yes no : Expr)
  /-- A call. -/
  | call (f : Expr) (args : List Expr)
  /-- A field. -/
  | member (x : Expr) (field : String)

/-- The operators whose right operand is not always evaluated. -/
def isShortCircuit (op : String) : Bool :=
  op = "and" || op = "or"

namespace Expr

mutual

/-- The program of an expression. -/
def program : Expr → Program
  | .number v => [.number v]
  | .string s => [.string s]
  | .name n => [.load n]
  | .unary op x => x.program ++ [.unary op]
  | .binary op x y =>
    x.program ++ (if isShortCircuit op then [.suspend y.program] else y.program) ++ [.binary op]
  | .choice c x y => c.program ++ [.suspend x.program, .suspend y.program, .ternary "?"]
  | .call f args => f.program ++ programs args ++ [.call args.length]
  | .member x field => x.program ++ [.member field]

/-- The programs of expressions, one after the other. -/
def programs : List Expr → Program
  | [] => []
  | x :: rest => x.program ++ programs rest

end

end Expr

end Reckon
