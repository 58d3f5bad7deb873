import Reckon.Evaluate

/-!
# Simplification

A program is run on a stack of operands, each with the steps that compute it and, if what is known determines it, its
value. An operator whose operands have values is applied, and its result takes the place of its steps if it can be
written down (`Operand.known`). A call is never made. An error while an operator is applied leaves the operator to
evaluation.

Calls may name any number of arguments here. Simplification with numbers of 64 bits, where a sum may be out of range, is
in `Reckon.Sizes`.
-/

namespace Reckon

variable {σ : Type}

/-- An operand: the steps that compute it, and its value if that is known. -/
structure Operand where
  /-- The steps. -/
  steps : Program
  /-- The value. -/
  value : Option Value

namespace Operand

/-- An operand of which only the steps are known. -/
def unknown (steps : Program) : Operand := ⟨steps, none⟩

/-- An operand with a known value. A literal that the options let one write down replaces the steps. -/
def known (o : Options) (v : Value) (steps : Program) : Operand :=
  match v.literal?.filter (·.isWritable o) with
  | some l => ⟨[.ofLiteral l], some v⟩
  | none => ⟨steps, some v⟩

/-- The steps of operands, one after the other. -/
def allSteps (xs : List Operand) : Program :=
  xs.flatMap steps

end Operand

/-- What a program is simplified with. -/
structure Simplifier (σ : Type) where
  /-- What runs functions. -/
  host : Host σ
  /-- What operators and names mean. -/
  env : Environment
  /-- The options that the result has to be readable with. -/
  options : Options
  /-- The variables that are known. -/
  known : Variables

namespace Simplifier

/-- Applies an operation to values, if it takes as many. -/
def operation? (m : Simplifier σ) (i : Instruction) (args : List Value) : Option (Eval σ Value) :=
  match i, args with
  | .unary op, [x] => some (Machine.applyUnary m.host m.env op x)
  | .binary op, [x, y] => some (Machine.applyBinary m.host m.env op x y)
  | .ternary op, [x, y, z] => some (Machine.applyTernary m.host m.env op x y z)
  | .member field, [x] => some (pure (x.field field))
  | _, _ => none

/-- Folds an operation with its operands, if their values are known and applying it succeeds. -/
def fold (m : Simplifier σ) (i : Instruction) (operands : List Operand) : StateM σ Operand :=
  let steps := Operand.allSteps operands ++ [i]
  match (operands.mapM Operand.value).bind (m.operation? i) with
  | none => pure (.unknown steps)
  | some result => do
    match ← result.run with
    | .ok v => return .known m.options v steps
    | .error _ => return .unknown steps

/-- How many operands a call takes: its arguments and what is called. Neither number has a limit here:
`Simplifier.stepSized` in `Reckon.Sizes` adds in 64 bits, which fails for the greatest number of arguments. -/
def operandCount (argCount : Nat) : Nat :=
  argCount + 1

/-- Replaces the topmost `n` operands by the result of folding them. -/
def foldTop (m : Simplifier σ) (i : Instruction) (n : Nat) (stack : List Operand) : StateM σ (List Operand) := do
  let x ← m.fold i (stack.take n).reverse
  return x :: stack.drop n

mutual

/-- One step on the stack of operands, the topmost one first. -/
def step (m : Simplifier σ) (stack : List Operand) : Instruction → StateM σ (List Operand)
  | .number v => pure (.known m.options (.number v) [.number v] :: stack)
  | .string s => pure (.known m.options (.string s) [.string s] :: stack)
  | .load name =>
    match m.env.resolve? m.known name with
    | some v => pure (.known m.options v [.load name] :: stack)
    | none => pure (.unknown [.load name] :: stack)
  | .unary op => m.foldTop (.unary op) 1 stack
  | .binary op => m.foldTop (.binary op) 2 stack
  | .ternary op => m.foldTop (.ternary op) 3 stack
  | .member field => m.foldTop (.member field) 1 stack
  | .call argCount =>
    let operands := (stack.take (operandCount argCount)).reverse
    pure (.unknown (Operand.allSteps operands ++ [.call argCount]) :: stack.drop (operandCount argCount))
  | .suspend body => do
    let operands ← run m [] body
    let body := Operand.allSteps operands.reverse
    return ⟨[.suspend body], (Program.literal? body).map .ofLiteral⟩ :: stack

/-- The steps of a program on the stack of operands. -/
def run (m : Simplifier σ) (stack : List Operand) : List Instruction → StateM σ (List Operand)
  | [] => pure stack
  | i :: rest => do run m (← step m stack i) rest

end

theorem run_append (m : Simplifier σ) (stack : List Operand) (p q : Program) :
    m.run stack (p ++ q) = (do m.run (← m.run stack p) q) := by
  induction p generalizing stack with
  | nil => simp [run]
  | cons i p ih => simp [run, ih]

end Simplifier

/-- The program with everything folded that the known variables determine. -/
def Program.simplify (m : Simplifier σ) (p : Program) : StateM σ Program := do
  return Operand.allSteps (← m.run [] p).reverse

end Reckon
