import Reckon.Proofs.Evaluation.Chains
import Reckon.Proofs.Evaluation.Readability

/-!
# Substitutions compose

Substitution goes over a program once, into every suspended program, and leaves what it has put in as it is. So a second
substitution finds the names of the program and, in each copy of the replacement, those of the replacement, but nothing
in what it has put in itself: to do it first, in the program and in the replacement, is the same, as long as it does not
put in the first name (`Program.substitute_comm`). The names of the outcome are those of the program, with the names of
the replacement where the name has been (`Program.names_substitute`). Both hold for every program, also for those that
take operands that are not there.
-/

namespace Reckon

namespace Program

variable {x y : String} {r q : Program}

theorem substitute_singleton (i : Instruction) : substitute x r [i] = substituteStep x r i :=
  List.append_nil _

mutual

theorem substitute_substituteStep (hxy : x ≠ y) (hq : x ∉ names q) : (i : Instruction) →
    substitute y q (substituteStep x r i) = substitute x (substitute y q r) (substituteStep y q i)
  | .load n => by
    by_cases hx : n = x
    · subst hx
      rw [substituteStep, if_pos rfl, substituteStep, if_neg hxy, substitute_singleton, substituteStep, if_pos rfl]
    · rw [substituteStep, if_neg hx, substitute_singleton, substituteStep]
      split
      -- what has just been put in does not refer to the other name
      · rw [substitute_of_not_mem q hq]
      · rw [substitute_singleton, substituteStep, if_neg hx]
  | .suspend body => by
    rw [substituteStep, substituteStep, substitute_singleton, substitute_singleton, substituteStep, substituteStep,
      substitute_comm hxy hq body]
  | .number _ | .string _ | .unary _ | .binary _ | .ternary _ | .call _ | .member _ => rfl

/-- Two substitutions may change places if the one that is done first is also done in the replacement of the other one,
and does not put in its name. -/
theorem substitute_comm (hxy : x ≠ y) (hq : x ∉ names q) : (s : List Instruction) →
    substitute y q (substitute x r s) = substitute x (substitute y q r) (substitute y q s)
  | [] => rfl
  | i :: rest => by
    rw [substitute, substitute_append, substitute_substituteStep hxy hq i, substitute_comm hxy hq rest, substitute,
      substitute_append]

end

mutual

theorem names_substituteStep : (i : Instruction) →
    names (substituteStep x r i) = i.names.flatMap fun n => if n = x then names r else [n]
  | .load n => by
    rw [substituteStep, Instruction.names, List.flatMap_singleton]
    split <;> rfl
  | .suspend body => by
    rw [substituteStep, Instruction.names, ← names_substitute body]
    exact List.append_nil _
  | .number _ | .string _ | .unary _ | .binary _ | .ternary _ | .call _ | .member _ => rfl

/-- The names of the replacement take the place of the name. -/
theorem names_substitute : (s : List Instruction) →
    names (substitute x r s) = (names s).flatMap fun n => if n = x then names r else [n]
  | [] => rfl
  | i :: rest => by
    rw [substitute, names_append, names_substituteStep i, names_substitute rest, names, List.flatMap_append]

end

/-- A substitution behind another one may be done before it, in the program and in the replacement, unless it puts in
the name of the other one. And the symbols of the outcome are those of the program with the symbols of the replacement
in place of the name, each of them where it occurs first. -/
theorem substitute_substitute (x : String) (r s : Program) :
    (∀ (y : String) (q : Program), x ≠ y → x ∉ q.symbols false →
      substitute y q (substitute x r s) = substitute x (substitute y q r) (substitute y q s)) ∧
    (substitute x r s).symbols false =
      ((s.symbols false).flatMap fun n => if n = x then r.symbols false else [n]).eraseDups := by
  constructor
  · intro y q hxy hq
    exact substitute_comm hxy (fun h => hq (mem_symbols_iff.2 h)) s
  · have hstep (n : String) : (if n = x then r.symbols false else [n]).eraseDups =
        (if n = x then names r else [n]).eraseDups := by
      split
      · rw [symbols_eq_eraseDups]
        simpa using SymbolScan.eraseDups_map_eraseDups id (names r)
      · rfl
    rw [symbols_eq_eraseDups s, SymbolScan.eraseDups_flatMap hstep, ← names_substitute, symbols_eq_eraseDups]

/-- In `x and (y + x)` the name `x` is replaced by `y * x`, and then `y` by `z`. -/
theorem substitute_substitute_conjunction :
    let s : Program := [.load "x", .suspend [.load "y", .load "x", .binary "+"], .binary "and"]
    let r : Program := [.load "y", .load "x", .binary "*"]
    let q : Program := [.load "z"]
    "x" ≠ "y" ∧ "x" ∉ q.symbols false ∧
      substitute "y" q (substitute "x" r s) = substitute "x" (substitute "y" q r) (substitute "y" q s) ∧
      (substitute "x" r s).symbols false = ["y", "x"] := by
  intro s r q
  have hxy : "x" ≠ "y" := by decide
  have hq : "x" ∉ q.symbols false := by decide
  obtain ⟨hcompose, hsymbols⟩ := substitute_substitute "x" r s
  refine ⟨hxy, hq, hcompose "y" q hxy hq, hsymbols.trans ?_⟩
  decide

end Program

end Reckon
