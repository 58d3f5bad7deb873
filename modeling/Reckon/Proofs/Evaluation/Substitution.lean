import Reckon.Proofs.Evaluation.Binding
import Reckon.Proofs.Evaluation.Staging

/-!
# To know a variable is to substitute its value

What takes the place of a variable leaves the operand that the variable leaves where it is known
(`Simplifier.Resolves`). Folding never looks at what is known, so then the steps of the program with the replacement
leave the operands that the steps of the program itself leave (`Simplifier.run_substitute`): in the same order, with
the same steps and the same values, at any depth of suspension, and also if the program takes operands that are not
there. A literal that can be written down is such a replacement for a variable known to be that literal
(`Simplifier.resolves_literal`), so a formula is simplified alike in both cases (`Formula.simplify_substituteLiteral`).
-/

namespace Reckon

variable {σ : Type}

section

variable {m : Simplifier σ} {known : Variables} {x : String} {r : Program}

/-- The simplifier with other variables known. -/
def Simplifier.withKnown (m : Simplifier σ) (known : Variables) : Simplifier σ :=
  { m with known }

/-- What takes the place of a name leaves what the name leaves with the other variables known. -/
def Simplifier.Resolves (m : Simplifier σ) (known : Variables) (x : String) (r : Program) : Prop :=
  ∀ stack n, m.run stack (Program.substituteStep x r (.load n)) = (m.withKnown known).step stack (.load n)

mutual

/-- What takes the place of a step leaves what the step leaves. -/
theorem Simplifier.run_substituteStep (h : m.Resolves known x r) (stack : List Operand) : (i : Instruction) →
    m.run stack (Program.substituteStep x r i) = (m.withKnown known).step stack i
  | .load n => h stack n
  | .number v => m.run_step stack (.number v)
  | .string s => m.run_step stack (.string s)
  | .call argCount => m.run_step stack (.call argCount)
  -- to fold an operation with its operands is the same with other variables known
  | .unary op => m.run_step stack (.unary op)
  | .binary op => m.run_step stack (.binary op)
  | .ternary op => m.run_step stack (.ternary op)
  | .member field => m.run_step stack (.member field)
  | .suspend body => by
    rw [Program.substituteStep, m.run_step, Simplifier.step, Simplifier.step,
      Simplifier.run_substitute h [] body]

/-- The steps of a program in which a name has been replaced leave what those of the program leave. -/
theorem Simplifier.run_substitute (h : m.Resolves known x r) (stack : List Operand) : (p : List Instruction) →
    m.run stack (Program.substitute x r p) = (m.withKnown known).run stack p
  | [] => by rw [Program.substitute, Simplifier.run, Simplifier.run]
  | i :: rest => by
    rw [Program.substitute, Simplifier.run_append, Simplifier.run_substituteStep h stack i, Simplifier.run]
    exact bind_congr fun stack' => Simplifier.run_substitute h stack' rest

end

end

/-! ## Literals -/

/-- A literal that can be written down stands for itself, whatever steps it is the value of. -/
theorem Operand.known_of_isWritable {o : Options} {l : Literal} (h : l.isWritable o = true) (steps : Program) :
    Operand.known o (.ofLiteral l) steps = ⟨[.ofLiteral l], some (.ofLiteral l)⟩ := by
  have hl : (Value.ofLiteral l).literal? = some l := by cases l <;> rfl
  rw [Operand.known, hl, Option.filter_some, if_pos h]

/-- A literal takes the place of a variable that is known to be that literal. -/
theorem Simplifier.resolves_literal {m : Simplifier σ} {x : String} {l : Literal}
    (hfunction : m.env.isFunction x = false) (hunary : m.env.enabledUnary? x = none)
    (hl : l.isWritable m.options = true) : m.Resolves (m.known.bind x (.ofLiteral l)) x [.ofLiteral l] := by
  intro stack n
  rw [Program.substituteStep, Simplifier.step]
  split
  · next hn =>
    subst hn
    have hvalue : m.env.resolve? (m.known.bind n (.ofLiteral l)) n = some (.ofLiteral l) :=
      Environment.resolve?_bind_self hfunction hunary _ _
    have hload : m.run stack [.ofLiteral l] = pure (⟨[.ofLiteral l], some (.ofLiteral l)⟩ :: stack) := by
      rw [m.run_ofLiteral, Operand.known_ofLiteral]
    simp only [Simplifier.withKnown, hvalue, hload, Operand.known_of_isWritable hl]
  · next hn =>
    have hvalue : m.env.resolve? (m.known.bind x (.ofLiteral l)) n = m.env.resolve? m.known n :=
      Environment.resolve?_bind_of_ne hn _ _
    simp only [Simplifier.withKnown, hvalue, m.run_step, Simplifier.step]

/-- A formula in which a literal that can be written down takes the place of a name is simplified as the formula is
where the name is known to be the literal, unless the name is that of a function or of an enabled unary operator. This
is so for every program, also for one that no code is read as, and whatever else is known. Its calls name numbers of
arguments without a limit (`Simplifier.operandCount`); the greatest of 64 bits is treated in `Reckon.Sizes`. -/
theorem Formula.simplify_substituteLiteral (host : Host σ) (f : Formula) (x : String) (l : Literal) (known : Variables)
    (hfunction : f.env.isFunction x = false) (hunary : f.env.enabledUnary? x = none)
    (hl : l.isWritable f.options = true) :
    (f.substituteLiteral x l).simplify host known = f.simplify host (known.bind x (.ofLiteral l)) := by
  have hresolves : Simplifier.Resolves ⟨host, f.env, f.options, known⟩ (known.bind x (.ofLiteral l)) x [.ofLiteral l] :=
    Simplifier.resolves_literal hfunction hunary hl
  have hprogram : (Program.substitute x [.ofLiteral l] f.program).simplify ⟨host, f.env, f.options, known⟩ =
      f.program.simplify ⟨host, f.env, f.options, known.bind x (.ofLiteral l)⟩ := by
    rw [Program.simplify, Simplifier.run_substitute hresolves]
    rfl
  simp only [Formula.simplify, Formula.substituteLiteral, hprogram]

/-- In `y ? x : x.z` the name `x` is replaced by the number -2, although it was known to be a string. -/
theorem Formula.simplify_substituteLiteral_choice :
    let host : Host Unit := .withBuiltins (pure 0) fun _ _ => pure .void
    let known : Variables := fun name => if name = "x" then some (.string "a") else none
    let f : Formula := ⟨[.load "y", .suspend [.load "x"], .suspend [.load "x", .member "z"], .ternary "?"], .standard,
      .standard⟩
    Environment.standard.isFunction "x" = false ∧ Environment.standard.enabledUnary? "x" = none ∧
      (Literal.number (-2)).isWritable .standard = true ∧
      (f.substituteLiteral "x" (.number (-2))).simplify host known =
        f.simplify host (known.bind "x" (.ofLiteral (.number (-2)))) := by
  intro host known f
  have hfunction : Environment.standard.isFunction "x" = false := by decide +kernel
  have hunary : Environment.standard.enabledUnary? "x" = none := by decide +kernel
  have hl : (Literal.number (-2)).isWritable .standard = true := by decide +kernel
  exact ⟨hfunction, hunary, hl,
    Formula.simplify_substituteLiteral host f "x" (.number (-2)) known hfunction hunary hl⟩

end Reckon
