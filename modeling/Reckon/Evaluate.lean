import Reckon.Environment
import Reckon.Host
import Reckon.Program

/-!
# Evaluation

The stack machine. Its items are values and suspended programs; a suspended program is evaluated when a step asks for
its value, and `and`, `or` and `?` do not ask for what does not matter. One program behind another goes on with the
stack that the first one leaves (`Machine.run_append`). The result of a program is the value of the one item that it
leaves (`Program.evaluate`).
-/

namespace Reckon

variable {σ : Type}

/-- What a program is evaluated with. -/
structure Machine (σ : Type) where
  /-- What runs functions. -/
  host : Host σ
  /-- What operators and names mean. -/
  env : Environment
  /-- The variables. -/
  vars : Variables

/-- An item of the stack. -/
inductive Item (σ : Type)
  /-- A value. -/
  | value (v : Value)
  /-- A suspended program, by what evaluating it does. -/
  | suspended (evaluation : Eval σ Value)

/-- The value of an item. -/
def Item.force : Item σ → Eval σ Value
  | value v => pure v
  | suspended evaluation => evaluation

/-- Items, the topmost one first. -/
abbrev Stack (σ : Type) := List (Item σ)

namespace Stack

/-- The topmost item, and the others. -/
def pop : Stack σ → Eval σ (Item σ × Stack σ)
  | x :: rest => pure (x, rest)
  | [] => throw (.invalidProgram .underflow)

/-- The value of the topmost item, and the other items. -/
def popValue (s : Stack σ) : Eval σ (Value × Stack σ) := do
  let (x, rest) ← pop s
  let v ← x.force
  return (v, rest)

/-- The value of the only item. -/
def result : Stack σ → Eval σ Value
  | [x] => x.force
  | s => throw (.invalidProgram (.leftover s.length))

end Stack

namespace Machine

/-! ## Operators and calls on values -/

/-- Runs the operator of a kind. -/
def applyOperator (host : Host σ) (env : Environment) (kind : OperatorKind) (op : String) (args : List Value) :
    Eval σ Value :=
  match env.operator? kind op with
  | some f => host.invoke .operator f args
  | none => throw (.unknownOperator kind op)

/-- Applies an operator with one operand. -/
def applyUnary (host : Host σ) (env : Environment) (op : String) (x : Value) : Eval σ Value :=
  applyOperator host env .unary op [x]

/-- Applies an operator to two values. -/
def applyBinary (host : Host σ) (env : Environment) (op : String) (x y : Value) : Eval σ Value :=
  if op = "and" then pure (.ofBool (x.isTruthy && y.isTruthy))
  else if op = "or" then pure (.ofBool (x.isTruthy || y.isTruthy))
  else applyOperator host env .binary op [x, y]

/-- Applies an operator to three values. -/
def applyTernary (host : Host σ) (env : Environment) (op : String) (x y z : Value) : Eval σ Value :=
  if op = "?" then pure (x.choose y z) else applyOperator host env .ternary op [x, y, z]

/-- Calls a value. -/
def call (host : Host σ) (callee : Value) (args : List Value) : Eval σ Value :=
  match callee with
  | .function f => host.invoke .call f args
  | _ => throw .notCallable

/-! ## Steps -/

/-- Applies an operator to a value and an item, which is not asked for its value if the first one decides. -/
def binaryOnItem (m : Machine σ) (op : String) (x : Value) (y : Item σ) : Eval σ Value :=
  if op = "and" then
    if x.isTruthy then do return .ofBool (← y.force).isTruthy else pure (.ofBool false)
  else if op = "or" then
    if x.isTruthy then pure (.ofBool true) else do return .ofBool (← y.force).isTruthy
  else do applyBinary m.host m.env op x (← y.force)

/-- Applies an operator to a value and two items, of which a choice asks for one. -/
def ternaryOnItems (m : Machine σ) (op : String) (x : Value) (y z : Item σ) : Eval σ Value :=
  if op = "?" then (if x.isTruthy then y else z).force
  else do
    let v ← y.force
    let w ← z.force
    applyTernary m.host m.env op x v w

/-- The values of items, from left to right. -/
def forceAll : List (Item σ) → Eval σ (List Value)
  | [] => pure []
  | x :: rest => do
    let v ← x.force
    let vs ← forceAll rest
    return v :: vs

mutual

/-- One step. -/
def step (m : Machine σ) (s : Stack σ) : Instruction → Eval σ (Stack σ)
  | .number v => pure (.value (.number v) :: s)
  | .string v => pure (.value (.string v) :: s)
  | .load name =>
    match m.env.resolve? m.vars name with
    | some v => pure (.value v :: s)
    | none => throw (.undefined name)
  | .unary op => do
    let (x, s) ← s.popValue
    let v ← applyUnary m.host m.env op x
    return .value v :: s
  | .binary op => do
    let (y, s) ← s.pop
    let (x, s) ← s.popValue
    let v ← m.binaryOnItem op x y
    return .value v :: s
  | .ternary op => do
    let (z, s) ← s.pop
    let (y, s) ← s.pop
    let (x, s) ← s.popValue
    let v ← m.ternaryOnItems op x y z
    return .value v :: s
  | .call argCount =>
    if s.length ≤ argCount then throw (.invalidProgram .underflow)
    else do
      let args ← forceAll (s.take argCount).reverse
      let (f, s) ← Stack.popValue (s.drop argCount)
      let v ← call m.host f args
      return .value v :: s
  | .member field => do
    let (x, s) ← s.popValue
    return .value (x.field field) :: s
  | .suspend body => pure (.suspended (do (← run m [] body).result) :: s)

/-- The steps of a program. -/
def run (m : Machine σ) (s : Stack σ) : List Instruction → Eval σ (Stack σ)
  | [] => pure s
  | i :: rest => do run m (← step m s i) rest

end

theorem run_append (m : Machine σ) (s : Stack σ) (p q : Program) :
    m.run s (p ++ q) = (do m.run (← m.run s p) q) := by
  induction p generalizing s with
  | nil => simp [run]
  | cons i p ih => simp [run, ih]

end Machine

/-- The value of a program. -/
def Program.evaluate (m : Machine σ) (p : Program) : Eval σ Value := do
  (← m.run [] p).result

end Reckon
