import Reckon.Program

/-!
# Steps at every depth

The steps of a program together with the steps of the programs that are suspended in it (`Program.nested`).
-/

namespace Reckon

mutual

/-- A step and the steps of the programs that are suspended in it. -/
def Instruction.nested : Instruction → List Instruction
  | .suspend body => .suspend body :: Program.nested body
  | i => [i]

/-- The steps of a program and of the programs that are suspended in it. -/
def Program.nested : List Instruction → List Instruction
  | [] => []
  | i :: rest => i.nested ++ Program.nested rest

end

theorem Program.nested_append (p q : Program) : Program.nested (p ++ q) = Program.nested p ++ Program.nested q := by
  induction p with
  | nil => rfl
  | cons i p ih => rw [List.cons_append, Program.nested, Program.nested, ih, List.append_assoc]

end Reckon
