import Reckon.Proofs.Evaluation.Compilation
import Reckon.Proofs.Rendering.Widening

/-!
# Operators that are switched off

The operators of a program that has been read are switched on by the options it was read with
(`Program.isEnabled_of_parse`). A formula is evaluated without looking at any other operator, except that a name may
stand for an operator that the options of the environment switch on (`Environment.AgreesOn`): those that a formula is
read with are not asked for the meaning of names. So operators that both switch off may be replaced or taken away
(`Formula.evaluate_of_agreesOn`).
-/

namespace Reckon

variable {g : Grammar} {o : Options}

/-! ## Steps -/

/-- The operator of a step, if there is one, is switched on. -/
def Instruction.IsEnabled (o : Options) : Instruction → Prop
  | .unary op | .binary op | .ternary op => o.enables op = true
  | _ => True

/-- The steps of a program that has been read apply operators that are switched on. -/
theorem Program.isEnabled_of_parse {code : String} {p : Program} (h : Program.parse g o code = .ok p) :
    ∀ i ∈ Program.nested p, i.IsEnabled o := by
  intro i hi
  have hprintable := Program.printable_of_parse h i hi
  cases i with
  | unary _ | binary _ | ternary _ => exact hprintable.enabled
  | _ => trivial

/-! ## Environments -/

/-- The environments are the same but for operators that the options switch off; names stand for operators that the
options of the environment switch on, so these are the same as well. -/
structure Environment.AgreesOn (env : Environment) (o : Options) (env' : Environment) : Prop where
  functions : env'.functions = env.functions
  constants : env'.constants = env.constants
  options : env'.options = env.options
  operator : ∀ kind op, o.enables op = true → env'.operator? kind op = env.operator? kind op
  value : ∀ op, env.options.enables op = true → env'.operator? .unary op = env.operator? .unary op

/-- Names have the same meaning. -/
theorem Environment.AgreesOn.resolve? {env env' : Environment} (h : env.AgreesOn o env') (vars : Variables)
    (name : String) : env'.resolve? vars name = env.resolve? vars name := by
  have hunary : env'.enabledUnary? name = env.enabledUnary? name := by
    simp only [Environment.enabledUnary?, h.options]
    split
    · next henabled => exact h.value name henabled
    · rfl
  simp only [Environment.resolve?, h.functions, h.constants, hunary]

/-- A formula applies no operator that the options it was read with switch off, and it has the same value, with the same
calls and the same effects on the host, if such operators are replaced or taken away, unless the options of the
environment switch them on. -/
theorem Formula.evaluate_of_agreesOn {env : Environment} {code : String} {f : Formula}
    (h : Formula.parseWith env o code = .ok f) :
    (∀ i ∈ Program.nested f.program, i.IsEnabled o) ∧
      ∀ env', env.AgreesOn o env' → ∀ {σ : Type} (host : Host σ) (vars : Variables),
        f.program.evaluate ⟨host, env', vars⟩ = f.evaluate host vars := by
  obtain ⟨p, hp, rfl⟩ := Formula.exists_of_parseWith h
  have henabled := Program.isEnabled_of_parse hp
  refine ⟨henabled, fun env' henv σ host vars => Program.evaluate_of_looksUp (by rfl) fun i hi => ?_⟩
  have hi := henabled i hi
  cases i with
  | load name => exact henv.resolve? vars name
  | unary op => exact henv.operator .unary op hi
  | binary op => exact henv.operator .binary op hi
  | ternary op => exact henv.operator .ternary op hi
  | _ => trivial

/-- `x - y` without the factorial, which is another function in the second environment. -/
theorem Formula.evaluate_of_agreesOn_difference :
    let o : Options := Options.standard.set "factorial" false
    let env : Environment := Environment.standard.withOptions o
    let env' : Environment := env.insertUnary "!" (.host "f" (.exact 1))
    let f : Formula := ⟨[.load "x", .load "y", .binary "-"], env, o⟩
    Formula.parseWith env o "x - y" = .ok f ∧ env.AgreesOn o env' ∧
      (∀ i ∈ Program.nested f.program, i.IsEnabled o) ∧
      ∀ {σ : Type} (host : Host σ) (vars : Variables),
        f.program.evaluate ⟨host, env', vars⟩ = f.evaluate host vars := by
  intro o env env' f
  have hx : (Expr.name "x").Printable env.grammar o false :=
    Expr.printable_name (by decide) (by decide +kernel) (by decide +kernel)
  have hy : (Expr.name "y").Printable env.grammar o false :=
    Expr.printable_name (by decide) (by decide +kernel) (by decide +kernel)
  have hdifference : (Expr.binary "-" (.name "x") (.name "y")).Printable env.grammar o false :=
    ⟨⟨by decide, .inl (by decide)⟩, .inr ⟨.sum, by decide⟩, hx, hy⟩
  have hf : Formula.parseWith env o "x - y" = .ok f := Formula.parseWith_render hdifference rfl (by decide +kernel)
  have hoff : o.enables "!" = false := by decide
  have hsame : ∀ op, o.enables op = true → env'.operator? .unary op = env.operator? .unary op := by
    intro op hop
    refine (Table.lookup_insert ..).trans (if_neg ?_)
    rintro rfl
    rw [hoff] at hop
    cases hop
  have henv : env.AgreesOn o env' := by
    refine ⟨rfl, rfl, rfl, fun kind op hop => ?_, hsame⟩
    cases kind with
    | unary => exact hsame op hop
    | binary | ternary => rfl
  obtain ⟨henabled, hvalue⟩ := Formula.evaluate_of_agreesOn hf
  exact ⟨hf, henv, henabled, hvalue env' henv⟩

/-- An operator that is a word is called by its name, although the options of the formula switch it off, if those of the
environment do not. -/
theorem Formula.evaluate_disabled_name :
    let o : Options := Options.standard.set "sin" false
    let host : Host Unit := ⟨fun _ _ _ => pure .void⟩
    let f : Formula := ⟨[.load "sin", .number 0, .call 1], .standard, o⟩
    Formula.parseWith .standard o "sin(0)" = .ok f ∧ o.enables "sin" = false ∧
      Environment.standard.operator? .unary "sin" = some (.builtin (.unary .sin)) ∧
      (f.evaluate host.logged fun _ => none).run.run ((), []) =
        (.ok .void, (), [(.builtin (.unary .sin), [.number 0])]) := by
  intro o host f
  have hoff : o.enables "sin" = false := by decide
  have hsin : (Expr.name "sin").Printable (Environment.standard.withOptions .standard).grammar o false :=
    ⟨⟨.inl (by decide), fun _ _ => hoff⟩, fun hconstant => absurd (by decide +kernel) hconstant.2⟩
  have hzero : Unsigned 0 := by decide
  have hcall : (Expr.call (.name "sin") [.number 0]).Printable (Environment.standard.withOptions .standard).grammar o
      false :=
    ⟨hsin, Expr.canSpell_of_unsigned hzero, trivial⟩
  have hf : Formula.parseWith .standard o "sin(0)" = .ok f :=
    Formula.parseWith_render (o := .standard) hcall
      (by simp only [Expr.spelled, Expr.allSpelled, Expr.spellNumber_of_unsigned hzero]) (by decide +kernel)
  exact ⟨hf, hoff, by decide +kernel, rfl⟩

end Reckon
