import Reckon.Evaluate
import Reckon.Program.Render
import Reckon.Simplify

/-!
# Sizes

The lengths of stacks are numbers of 64 bits, and so is the number of arguments that a call names, whatever the stack
is like. Here evaluation, rendering and simplification say what they compute with sizes and where they split a stack,
and this can fail (`SizeFault`): `Program.evaluateSized`, `Program.renderSized` and `Program.simplifySized`. All other
steps are those of the machines without sizes. The numbers of arguments and of operands there have no limit
(`Simplifier.operandCount`), and `Program.simplifySized_spec` says where that makes a difference.
-/

namespace Reckon

-- powers of natural numbers are the built-in ones, whatever else can be raised to a power
attribute [local instance (high)] instPowNat

variable {σ : Type}

/-- Why a computation with sizes fails. -/
inductive SizeFault
  /-- A sum has more than 64 bits. -/
  | overflow
  /-- A difference is negative. -/
  | underflow
  /-- A stack is split behind its end. -/
  | outside
  deriving DecidableEq, Repr

namespace Size

/-- What sizes are less than. -/
def bound : Nat := 2 ^ (64 : Nat)

/-- The sum of two sizes. -/
def add (a b : Nat) : Except SizeFault Nat :=
  if a + b < bound then .ok (a + b) else .error .overflow

/-- The difference of two sizes. -/
def sub (a b : Nat) : Except SizeFault Nat :=
  if b ≤ a then .ok (a - b) else .error .underflow

/-- Splits a stack, the topmost item first, so that the lowest `n` items stay: the items above them, and these. -/
def splitOff {α : Type} (n : Nat) (stack : List α) : Except SizeFault (List α × List α) :=
  if n ≤ stack.length then .ok (stack.take (stack.length - n), stack.drop (stack.length - n)) else .error .outside

end Size

/-! ## Evaluation -/

namespace Machine

/-- Goes on with a size, or ends the evaluation with what stands for the fault. -/
def ofSize {α : Type} (failure : SizeFault → EvalError) : Except SizeFault α → Eval σ α
  | .ok x => pure x
  | .error e => throw (failure e)

mutual

/-- One step. A call asks first whether there are enough items. -/
def stepSized (m : Machine σ) (failure : SizeFault → EvalError) (s : Stack σ) : Instruction → Eval σ (Stack σ)
  | .call argCount =>
    if s.length ≤ argCount then throw (.invalidProgram .underflow)
    else do
      let n ← ofSize failure (Size.sub s.length argCount)
      let (args, s) ← ofSize failure (Size.splitOff n s)
      let args ← forceAll args.reverse
      let (f, s) ← Stack.popValue s
      let v ← call m.host f args
      return .value v :: s
  | .suspend body => pure (.suspended (do (← runSized m failure [] body).result) :: s)
  | i => m.step s i

/-- The steps of a program. -/
def runSized (m : Machine σ) (failure : SizeFault → EvalError) (s : Stack σ) : List Instruction → Eval σ (Stack σ)
  | [] => pure s
  | i :: rest => do runSized m failure (← stepSized m failure s i) rest

end

end Machine

namespace Program

/-- The value of a program; `failure` stands for the faults of sizes. -/
def evaluateSized (m : Machine σ) (failure : SizeFault → EvalError) (p : Program) : Eval σ Value := do
  (← m.runSized failure [] p).result

/-! ## Rendering -/

mutual

/-- One step on the stack of texts. Room for the quotes is added to the length of a string, and a call takes no more
arguments than there are texts. -/
def renderStepSized (stack : List Rendered) : Instruction → Except SizeFault (List Rendered)
  | .string s => do
    let _ ← Size.add s.utf8ByteSize 2
    return renderStep stack (.string s)
  | .call argCount => do
    let (args, stack) ← Size.splitOff (stack.length - argCount) stack
    let (f, stack) := Rendered.pop stack
    return f.call args.reverse :: stack
  | .suspend body => do return .ofStack (← renderOnSized [] body) :: stack
  | i => pure (renderStep stack i)

/-- A program on the stack of texts. -/
def renderOnSized (stack : List Rendered) : List Instruction → Except SizeFault (List Rendered)
  | [] => pure stack
  | i :: rest => do renderOnSized (← renderStepSized stack i) rest

end

/-- The formula of a program. -/
def renderSized (p : Program) : Except SizeFault String := do
  return String.ofList (Rendered.ofStack (← renderOnSized [] p)).text

end Program

/-! ## Simplification -/

namespace Simplifier

/-- Replaces the topmost `n` operands, or as many as there are, by the result of folding them. -/
def foldTopSized (m : Simplifier σ) (i : Instruction) (n : Nat) (stack : List Operand) :
    ExceptT SizeFault (StateM σ) (List Operand) := do
  let (operands, stack) ← liftExcept (Size.splitOff (stack.length - n) stack)
  let x ← m.fold i operands.reverse
  return x :: stack

mutual

/-- One step on the stack of operands. A call adds what is called to its arguments. -/
def stepSized (m : Simplifier σ) (stack : List Operand) : Instruction → ExceptT SizeFault (StateM σ) (List Operand)
  | .unary op => m.foldTopSized (.unary op) 1 stack
  | .binary op => m.foldTopSized (.binary op) 2 stack
  | .ternary op => m.foldTopSized (.ternary op) 3 stack
  | .member field => m.foldTopSized (.member field) 1 stack
  | .call argCount => do
    let count ← liftExcept (Size.add argCount 1)
    let (operands, stack) ← liftExcept (Size.splitOff (stack.length - count) stack)
    return .unknown (Operand.allSteps operands.reverse ++ [.call argCount]) :: stack
  | .suspend body => do
    let operands ← runSized m [] body
    let body := Operand.allSteps operands.reverse
    return ⟨[.suspend body], (Program.literal? body).map .ofLiteral⟩ :: stack
  | i => m.step stack i

/-- The steps of a program on the stack of operands. -/
def runSized (m : Simplifier σ) (stack : List Operand) :
    List Instruction → ExceptT SizeFault (StateM σ) (List Operand)
  | [] => pure stack
  | i :: rest => do runSized m (← stepSized m stack i) rest

end

end Simplifier

/-- The program with everything folded that the known variables determine. -/
def Program.simplifySized (m : Simplifier σ) (p : Program) : ExceptT SizeFault (StateM σ) Program := do
  return Operand.allSteps (← m.runSized [] p).reverse

end Reckon
