import Mathlib.Data.List.Basic
import Reckon.Expr

/-!
# Layouts of the stack

Whether a program is in balance can be read off its steps: each takes values or suspended programs from the stack
(`Instruction.operands?`) and leaves one item in their place, and a program is well-formed if it finds all of these and
leaves a single value on the empty stack (`Program.WellFormed`). What is below the items that it takes is left alone
(`Program.layout?_frame`), so a well-formed program pushes a value wherever it stands. The program of an expression is
well-formed (`Expr.wellFormed_program`), and a well-formed program may take the place of a variable
(`Program.layout?_substitute`).
-/

namespace Reckon

/-- What an item of the stack is. -/
inductive Slot
  /-- A value. -/
  | value
  /-- A suspended program. -/
  | suspended
  deriving DecidableEq, Repr

/-- What the items of a stack are, the topmost one first. -/
abbrev Layout := List Slot

/-- What the result of a step is. -/
def Instruction.slot : Instruction → Slot
  | .suspend _ => .suspended
  | _ => .value

mutual

/-- The items that a step takes, if it is one that a well-formed program may have: operands that may never be evaluated
are suspended, and all others are not. -/
def Instruction.operands? : Instruction → Option Layout
  | .number _ | .string _ | .load _ => some []
  | .unary _ | .member _ => some [.value]
  | .binary op => some (if isShortCircuit op then [.suspended, .value] else [.value, .value])
  | .ternary op => if op = "?" then some [.suspended, .suspended, .value] else none
  | .call argCount => some (List.replicate (argCount + 1) .value)
  | .suspend body => if Program.layout? [] body = some [.value] then some [] else none

/-- The layout behind the steps of a program, if each of them finds the items that it takes; its result takes their
place. -/
def Program.layout? (s : Layout) : List Instruction → Option Layout
  | [] => some s
  | i :: rest =>
    match i.operands?.bind (List.isPrefixOf? · s) with
    | some below => Program.layout? (i.slot :: below) rest
    | none => none

end

/-- The program leaves a value on the empty stack, and each of its steps finds the items that it takes. -/
def Program.WellFormed (p : Program) : Prop :=
  Program.layout? [] p = some [.value]

instance (p : Program) : Decidable p.WellFormed :=
  inferInstanceAs (Decidable (Program.layout? [] p = some [.value]))

theorem Instruction.operands?_suspend {body : Program} (h : body.WellFormed) :
    (Instruction.suspend body).operands? = some [] := by
  rw [Instruction.operands?]
  exact if_pos h

/-- A step that finds the items that it takes. -/
theorem Program.layout?_cons {i : Instruction} {xs : Layout} (h : i.operands? = some xs) (s : Layout) (p : Program) :
    Program.layout? (xs ++ s) (i :: p) = Program.layout? (i.slot :: s) p := by
  have hprefix : List.isPrefixOf? xs (xs ++ s) = some s := List.isPrefixOf?_eq_some_iff_append_eq.2 rfl
  rw [Program.layout?, h, Option.bind_some, hprefix]

theorem Program.layout?_suspend {body : Program} (h : body.WellFormed) (s : Layout) (p : Program) :
    Program.layout? s (.suspend body :: p) = Program.layout? (.suspended :: s) p :=
  Program.layout?_cons (Instruction.operands?_suspend h) s p

/-- What the first step of a program takes and leaves. -/
theorem Program.exists_of_layout?_cons {i : Instruction} {p : Program} {s t : Layout}
    (h : Program.layout? s (i :: p) = some t) :
    ∃ xs below, i.operands? = some xs ∧ s = xs ++ below ∧ Program.layout? (i.slot :: below) p = some t := by
  rw [Program.layout?] at h
  split at h
  · next below hbelow =>
    obtain ⟨xs, hxs, hprefix⟩ := Option.bind_eq_some_iff.1 hbelow
    exact ⟨xs, below, hxs, (List.isPrefixOf?_eq_some_iff_append_eq.1 hprefix).symm, h⟩
  · cases h

theorem Program.layout?_append (s : Layout) (p q : Program) :
    Program.layout? s (p ++ q) = (Program.layout? s p).bind (Program.layout? · q) := by
  induction p generalizing s with
  | nil => rfl
  | cons i p ih =>
    rw [List.cons_append, Program.layout?, Program.layout?]
    split
    · exact ih _
    · rfl

/-- What is below the items that a program takes stays as it is. -/
theorem Program.layout?_frame {p : Program} {s t : Layout} (h : Program.layout? s p = some t) (below : Layout) :
    Program.layout? (s ++ below) p = some (t ++ below) := by
  induction p generalizing s with
  | nil =>
    cases h
    rfl
  | cons i p ih =>
    obtain ⟨xs, rest, hxs, rfl, hp⟩ := Program.exists_of_layout?_cons h
    rw [List.append_assoc, Program.layout?_cons hxs]
    exact ih hp

/-- A well-formed program pushes a value on any stack. -/
theorem Program.WellFormed.layout? {p : Program} (h : p.WellFormed) (s : Layout) :
    Program.layout? s p = some (.value :: s) :=
  Program.layout?_frame h s

/-! ## Expressions -/

namespace Expr

mutual

theorem layout?_program : (e : Expr) → ∀ s, Program.layout? s e.program = some (.value :: s)
  | .number _, _ | .string _, _ | .name _, _ => rfl
  | .unary op x, s => by
    rw [program, Program.layout?_append, x.layout?_program, Option.bind_some]
    rfl
  | .binary op x y, s => by
    rw [program, List.append_assoc, Program.layout?_append, x.layout?_program, Option.bind_some]
    have htakes : (Instruction.binary op).operands? =
        some (if isShortCircuit op then [.suspended, .value] else [.value, .value]) := rfl
    split
    · next hop =>
      rw [if_pos hop] at htakes
      rw [List.singleton_append, Program.layout?_suspend (y.layout?_program [])]
      exact Program.layout?_cons htakes s []
    · next hop =>
      rw [if_neg hop] at htakes
      rw [Program.layout?_append, y.layout?_program, Option.bind_some]
      exact Program.layout?_cons htakes s []
  | .choice c x y, s => by
    rw [program, Program.layout?_append, c.layout?_program, Option.bind_some,
      Program.layout?_suspend (x.layout?_program []), Program.layout?_suspend (y.layout?_program [])]
    rfl
  | .call f args, s => by
    have htakes : (Instruction.call args.length).operands? = some (List.replicate (args.length + 1) .value) := rfl
    have hitems : List.replicate args.length Slot.value ++ .value :: s =
        List.replicate (args.length + 1) .value ++ s := by
      rw [List.replicate_succ', List.append_assoc]
      rfl
    rw [program, List.append_assoc, Program.layout?_append, f.layout?_program, Option.bind_some,
      Program.layout?_append, layout?_programs args, Option.bind_some, hitems]
    exact Program.layout?_cons htakes s []
  | .member x field, s => by
    rw [program, Program.layout?_append, x.layout?_program, Option.bind_some]
    rfl

theorem layout?_programs : (es : List Expr) → ∀ s,
    Program.layout? s (programs es) = some (List.replicate es.length .value ++ s)
  | [], _ => rfl
  | x :: rest, s => by
    rw [programs, Program.layout?_append, x.layout?_program, Option.bind_some, layout?_programs rest, List.length_cons,
      List.replicate_succ', List.append_assoc]
    rfl

end

/-- The program of an expression is well-formed. -/
theorem wellFormed_program (e : Expr) : Program.WellFormed e.program :=
  e.layout?_program []

end Expr

/-! ## Substitution -/

section

variable {name : String} {r : Program}

mutual

theorem Program.layout?_substituteStep (hr : r.WellFormed) : (i : Instruction) → ∀ s,
    Program.layout? s (Program.substituteStep name r i) = Program.layout? s [i]
  | .number _, _ | .string _, _ | .unary _, _ | .binary _, _ | .ternary _, _ | .call _, _ | .member _, _ => rfl
  | .load n, s => by
    rw [Program.substituteStep]
    split
    · exact hr.layout? s
    · rfl
  | .suspend body, s => by
    rw [Program.substituteStep, Program.layout?, Program.layout?, Instruction.operands?, Instruction.operands?,
      Program.layout?_substitute hr body]
    rfl

theorem Program.layout?_substitute (hr : r.WellFormed) : (p : List Instruction) → ∀ s,
    Program.layout? s (Program.substitute name r p) = Program.layout? s p
  | [], _ => rfl
  | i :: rest, s => by
    have hrest : (Program.layout? · (Program.substitute name r rest)) = (Program.layout? · rest) :=
      funext (Program.layout?_substitute hr rest)
    rw [Program.substitute, Program.layout?_append, Program.layout?_substituteStep hr i, hrest]
    exact (Program.layout?_append s [i] rest).symm

end

end

end Reckon
