import Reckon.Literal
import Reckon.Number.Magnitude
import Reckon.Options

/-!
# Programs

A code becomes a program of a stack machine: its operators stand behind their operands. What may never be evaluated,
the branches of `?` and the right operands of `and` and `or`, is kept as a program of its own within one instruction.
`Program.substitute` replaces a variable step by step (`substitute_append`).
-/

namespace Reckon

/-- A step of the stack machine. -/
inductive Instruction
  /-- Pushes a number. -/
  | number (value : Float)
  /-- Pushes a string. -/
  | string (value : String)
  /-- Pushes the value of a variable, a function or a constant. -/
  | load (name : String)
  /-- Applies an operator to the topmost item. -/
  | unary (op : String)
  /-- Applies an operator to the two topmost items. -/
  | binary (op : String)
  /-- Applies an operator to the three topmost items. -/
  | ternary (op : String)
  /-- Calls the item below the topmost `argCount` items with these as arguments. -/
  | call (argCount : Nat)
  /-- Takes a field of the topmost item. -/
  | member (field : String)
  /-- Pushes a program that is evaluated when its value is asked for. -/
  | suspend (body : List Instruction)

instance : Inhabited Instruction := ⟨.number 0⟩

/-- A sequence of steps. -/
abbrev Program := List Instruction

/-- The step that pushes a literal. -/
def Instruction.ofLiteral : Literal → Instruction
  | .number v => number v
  | .string s => string s

/-- The literal that a step pushes. -/
def Instruction.literal? : Instruction → Option Literal
  | number v => some (.number v)
  | string s => some (.string s)
  | _ => none

/-- Can a literal be written down with these options? A negative number takes the operator `-`, and NaN is written as a
quotient. -/
def Literal.isWritable (o : Options) : Literal → Bool
  | .number v => if v.isNaN then o.enables "/" else if isNegative v then o.enables "-" else true
  | .string _ => true

namespace Program

/-- The literal that is all of a program. -/
def literal? : Program → Option Literal
  | [i] => i.literal?
  | _ => none

/-! ## Comparison -/

mutual

/-- Are two steps the same, given when two numbers are? -/
def sameStep (sameNumber : Float → Float → Bool) : Instruction → Instruction → Bool
  | .number a, .number b => sameNumber a b
  | .string a, .string b => a == b
  | .load a, .load b => a == b
  | .unary a, .unary b => a == b
  | .binary a, .binary b => a == b
  | .ternary a, .ternary b => a == b
  | .call a, .call b => a == b
  | .member a, .member b => a == b
  | .suspend a, .suspend b => same sameNumber a b
  | _, _ => false

/-- Are two programs the same, given when two numbers are? -/
def same (sameNumber : Float → Float → Bool) : List Instruction → List Instruction → Bool
  | [], [] => true
  | i :: is, j :: js => sameStep sameNumber i j && same sameNumber is js
  | _, _ => false

end

/-- Programs are equal if they do the same steps, where numbers are compared as numbers: NaN differs from itself. -/
instance : BEq Program := ⟨same (· == ·)⟩

/-- Programs are identical if they do the same steps, where NaN is NaN and zeros have signs. -/
def identical (p q : Program) : Bool :=
  same (fun a b => decide (a = b)) p q

/-! ## Substitution -/

mutual

/-- The steps that take the place of one step. -/
def substituteStep (name : String) (replacement : Program) : Instruction → Program
  | .load n => if n = name then replacement else [.load n]
  | .suspend body => [.suspend (substitute name replacement body)]
  | i => [i]

/-- Replaces every reference to a variable by a program, in suspended programs too. References in the replacement
stay as they are. -/
def substitute (name : String) (replacement : Program) : List Instruction → Program
  | [] => []
  | i :: rest => substituteStep name replacement i ++ substitute name replacement rest

end

theorem substitute_append (name : String) (r p q : Program) :
    substitute name r (p ++ q) = substitute name r p ++ substitute name r q := by
  induction p with
  | nil => simp [substitute]
  | cons i p ih => simp [substitute, ih]

end Program

end Reckon
