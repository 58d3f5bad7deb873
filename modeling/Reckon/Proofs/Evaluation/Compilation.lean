import Reckon.Proofs.Evaluation.Folding
import Reckon.Proofs.Evaluation.Variables
import Reckon.Proofs.Rendering.Reparsing

/-!
# Compiled functions

In the standard environment a number that was written with a sign, or as a quotient of zeros, is computed when the code
is read again (`Machine.ComputesSigns`), so the body of a compiled function runs as the simplified formula does
(`Machine.run_spelled`). With the arguments bound it has the value of the formula (`Formula.call_compile`).
-/

namespace Reckon

variable {σ : Type}

/-! ## Signed numbers -/

/-- The operators that signed numbers and NaN are written with compute them. -/
structure Machine.ComputesSigns (k : Machine σ) : Prop where
  negate : ∀ v : Float, Machine.applyUnary k.host k.env "-" (.number v) = pure (.number (-v))
  divide : ∀ v w : Float, Machine.applyBinary k.host k.env "/" (.number v) (.number w) = pure (.number (v / w))

theorem Machine.computesSigns_standard (chance : StateM σ Float) (run : String → List Value → Eval σ Value)
    (o : Options) (vars : Variables) :
    Machine.ComputesSigns ⟨.withBuiltins chance run, Environment.standard.withOptions o, vars⟩ where
  negate v := by
    have hoperator : Environment.standard.operator? .unary "-" = some (.builtin (.unary .negate)) := by decide +kernel
    rw [Machine.applyUnary, Machine.applyOperator, Environment.operator?_withOptions, hoperator]
    rfl
  divide v w := by
    have hoperator : Environment.standard.operator? .binary "/" = some (.builtin (.binary .divide)) := by decide +kernel
    rw [Machine.applyBinary, if_neg (by decide), if_neg (by decide), Machine.applyOperator,
      Environment.operator?_withOptions, hoperator]
    rfl

section

variable {k : Machine σ}

/-- What a number is written as computes the number. -/
theorem Machine.run_spellNumber (hk : k.ComputesSigns) (v : Float) (s : Stack σ) :
    k.run s (Expr.spellNumber v).program = k.run s [.number v] := by
  rw [Expr.spellNumber]
  split
  · next hnan =>
    have hdivide : ¬isShortCircuit "/" = true := by decide
    rw [Float.isNaN_eq_decide_eq_nan, decide_eq_true_eq] at hnan
    subst hnan
    simp [Float.nan, Expr.program, hdivide, Machine.run, Machine.step, Stack.pop, Stack.popValue, Item.force,
      Machine.binaryOnItem, hk.divide]
  · next hnan =>
    split
    · next hsign =>
      simp [Expr.program, Machine.run, Machine.step, Stack.pop, Stack.popValue, Item.force, hk.negate,
        neg_absolute (Bool.eq_false_iff.2 hnan) hsign]
    · rfl

mutual

/-- What an expression is written as runs as the expression does. -/
theorem Machine.run_spelled (hk : k.ComputesSigns) : (e : Expr) → ∀ s : Stack σ,
    k.run s e.spelled.program = k.run s e.program
  | .number v, s => Machine.run_spellNumber hk v s
  | .string _, _ | .name _, _ => rfl
  | .unary op x, s => by
    rw [Expr.spelled, Expr.program, Expr.program, k.run_append, k.run_append, Machine.run_spelled hk x]
  | .binary op x y, s => by
    have hright : ∀ s, k.run s (if isShortCircuit op then [.suspend y.spelled.program] else y.spelled.program) =
        k.run s (if isShortCircuit op then [.suspend y.program] else y.program) := by
      intro s
      split
      · simp only [Machine.run, Machine.step, Machine.run_spelled hk y]
      · exact Machine.run_spelled hk y s
    rw [Expr.spelled, Expr.program, Expr.program]
    simp only [k.run_append, Machine.run_spelled hk x, hright]
  | .choice c x y, s => by
    rw [Expr.spelled, Expr.program, Expr.program, k.run_append, k.run_append, Machine.run_spelled hk c]
    simp only [Machine.run, Machine.step, Machine.run_spelled hk x, Machine.run_spelled hk y]
  | .call f args, s => by
    rw [Expr.spelled, Expr.program, Expr.program, Expr.length_allSpelled]
    simp only [k.run_append, Machine.run_spelled hk f, Machine.run_allSpelled hk args]
  | .member x field, s => by
    rw [Expr.spelled, Expr.program, Expr.program, k.run_append, k.run_append, Machine.run_spelled hk x]

theorem Machine.run_allSpelled (hk : k.ComputesSigns) : (es : List Expr) → ∀ s : Stack σ,
    k.run s (Expr.programs (Expr.allSpelled es)) = k.run s (Expr.programs es)
  | [], _ => rfl
  | e :: rest, s => by
    rw [Expr.allSpelled, Expr.programs, Expr.programs]
    simp only [k.run_append, Machine.run_spelled hk e, Machine.run_allSpelled hk rest]

end

end

/-! ## Calls -/

/-- The standard constants can be read back, whatever the options are. -/
theorem Environment.isReadable_standard (o : Options) : (Environment.standard.withOptions o).grammar.IsReadable :=
  .of_standardConstants fun _ _ h => Table.mem_of_lookup_ofEntries h

/-- Arguments do not change what is known if their parameters are neither bound nor constants. -/
theorem Environment.determines_extend {env : Environment} {bindings : Variables} {params : List String}
    (hparams : ∀ p ∈ params, bindings p = none ∧ Table.has p env.constants = false) {args : List Value}
    (hargs : args.length = params.length) : env.Determines bindings (bindings.extend (params.zip args)) := by
  have hfst : (params.zip args).map Prod.fst = params := List.map_fst_zip (Nat.le_of_eq hargs.symm)
  have hkept : ∀ name, name ∉ params → bindings.extend (params.zip args) name = bindings name := by
    intro name hname
    exact Variables.extend_of_not_mem (by rwa [hfst])
  constructor
  · intro name v hv
    rw [hkept name fun hname => ?_, hv]
    rw [(hparams name hname).1] at hv
    cases hv
  · intro name hconstant hnone
    rw [hkept name fun hname => ?_, hnone]
    rw [(hparams name hname).2] at hconstant
    cases hconstant

theorem Formula.exists_of_parseWith {env : Environment} {o : Options} {code : String} {f : Formula}
    (h : Formula.parseWith env o code = .ok f) : ∃ p, Program.parse env.grammar o code = .ok p ∧ ⟨p, env, o⟩ = f := by
  rw [Formula.parseWith] at h
  cases hp : Program.parse env.grammar o code with
  | error e =>
    rw [hp] at h
    cases h
  | ok p =>
    rw [hp] at h
    exact ⟨p, rfl, Except.ok.inj h⟩

/-- The code that an expression is written as is read as the program of the expression. -/
theorem Formula.parseWith_render {o o' : Options} {e : Expr}
    (he : e.Printable (Environment.standard.withOptions o).grammar o' false) (hs : e.spelled = e) {code : String}
    (hcode : e.program.render = code) :
    Formula.parseWith (Environment.standard.withOptions o) o' code =
      .ok ⟨e.program, Environment.standard.withOptions o, o'⟩ := by
  rw [Formula.parseWith, ← hcode, Program.parse_render_program (Environment.isReadable_standard o) he hs]
  rfl

section

variable {host : Host σ} {f : Formula} {meaning : Function → List Value → Except EvalError Value} {e : Expr}

/-- What an expression that can be written is compiled to. -/
theorem Formula.exists_compile (hhost : host.Computes f.env meaning) (hreadable : f.env.grammar.IsReadable)
    (hminus : f.env.grammar.isUnary "-" = true) (he : e.Printable f.env.grammar f.options false)
    (hf : f.program = e.program) (params : List String) (bindings : Variables) :
    ∃ e' : Expr, Program.simplify ⟨host, f.env, f.options, bindings⟩ f.program = pure e'.program ∧
      f.compile host params bindings = pure (.ok ⟨params, e'.program.render, { f with program := e'.spelled.program },
        Formula.captures { f with program := e'.program } params bindings⟩) := by
  obtain ⟨e', he', hsimplify⟩ := Program.exists_simplify (m := ⟨host, f.env, f.options, bindings⟩) hhost hminus he
  rw [← hf] at hsimplify
  refine ⟨e', hsimplify, ?_⟩
  have hread : Formula.parseWith f.env f.options e'.program.render = .ok { f with program := e'.spelled.program } := by
    rw [Formula.parseWith, Program.parse, Expr.parse_rendered hreadable.dotless he']
    rfl
  simp only [Formula.compile, Formula.simplify, hsimplify, pure_bind, Formula.render, hread]
  rfl

end

/-- Compiling a formula of the standard environment succeeds and leaves the host alone, and a call has the value or
error of the formula, and does to the host what the formula does, with the parameters bound to the arguments. -/
theorem Formula.call_compile (chance : StateM σ Float) (run : String → List Value → Eval σ Value) (o o' : Options)
    {code : String} {f : Formula} (hf : Formula.parseWith (Environment.standard.withOptions o) o' code = .ok f)
    {params : List String} {bindings : Variables}
    (hparams : ∀ p ∈ params, bindings p = none ∧ Table.has p Environment.standard.constants = false) (s : σ) :
    ∃ c : CompiledFunction, (f.compile (.withBuiltins chance run) params bindings).run s = (.ok c, s) ∧
      ∀ args : List Value, args.length = params.length →
        c.call (.withBuiltins chance run) args =
          f.evaluate (.withBuiltins chance run) (bindings.extend (params.zip args)) := by
  let host : Host σ := .withBuiltins chance run
  let env : Environment := Environment.standard.withOptions o
  have hhost : host.Computes env Function.standardMeaning := Host.computes_withBuiltins chance run o
  have hreadable : env.grammar.IsReadable := Environment.isReadable_standard o
  have hminus : env.grammar.isUnary "-" = true := by
    have hunary : Table.has "-" Environment.standard.unary = true := by decide +kernel
    exact hunary
  obtain ⟨p, hp, rfl⟩ := Formula.exists_of_parseWith hf
  obtain ⟨e, rfl, he, -⟩ := Program.exists_printable hreadable hp
  obtain ⟨e', hsimplify, hcompile⟩ :=
    Formula.exists_compile (f := ⟨e.program, env, o'⟩) hhost hreadable hminus he rfl params bindings
  refine ⟨_, congrFun hcompile s, fun args hargs => ?_⟩
  let vars : Variables := bindings.extend (params.zip args)
  have hfree : ∀ p ∈ params, bindings p = none ∧ Table.has p env.constants = false := hparams
  have hnames : env.Determines bindings vars := Environment.determines_extend hfree hargs
  have hforesees : Simplifier.Foresees ⟨host, env, o', bindings⟩ (⟨host, env, vars⟩ : Machine σ)
      Function.standardMeaning :=
    ⟨rfl, hhost, hhost, hnames⟩
  obtain ⟨q, hq, hruns⟩ := Program.simplify_sound hforesees e.program
  obtain rfl : q = e'.program := congrArg Prod.fst (congrFun (hq.symm.trans hsimplify) s)
  rw [CompiledFunction.call, if_pos hargs]
  -- the code that is read again, the simplified formula with the captures, and with the bindings, and the formula
  calc e'.spelled.program.evaluate ⟨host, env, _⟩
      = e'.program.evaluate ⟨host, env, _⟩ :=
        Program.evaluate_congr (Machine.run_spelled (Machine.computesSigns_standard chance run o _) e' [])
    _ = e'.program.evaluate ⟨host, env, vars⟩ :=
        Program.evaluate_congr_vars fun n hn => Formula.resolve?_bind (f := ⟨e'.program, env, o'⟩) hargs hn
    _ = e.program.evaluate ⟨host, env, vars⟩ := Program.evaluate_congr (hruns [])

/-- A negative factor is written into the body. -/
theorem Formula.call_compile_product :
    let host : Host Unit := .withBuiltins (pure 0) fun _ _ => pure .void
    let bindings : Variables := fun name => if name = "n" then some (.number (-2)) else none
    let f : Formula :=
      ⟨[.load "x", .load "n", .binary "*"], Environment.standard.withOptions .standard, .standard⟩
    Formula.parseWith (Environment.standard.withOptions .standard) .standard "x * n" = .ok f ∧
      (∀ p ∈ ["x"], bindings p = none ∧ Table.has p Environment.standard.constants = false) ∧
      ∃ c : CompiledFunction, (f.compile host ["x"] bindings).run () = (.ok c, ()) ∧
        ∀ args : List Value, args.length = 1 →
          c.call host args = f.evaluate host (bindings.extend (["x"].zip args)) := by
  intro host bindings f
  let g : Grammar := (Environment.standard.withOptions .standard).grammar
  have hx : (Expr.name "x").Printable g .standard false :=
    Expr.printable_name (by decide) (by decide +kernel) (by decide +kernel)
  have hn : (Expr.name "n").Printable g .standard false :=
    Expr.printable_name (by decide) (by decide +kernel) (by decide +kernel)
  have hproduct : (Expr.binary "*" (.name "x") (.name "n")).Printable g .standard false :=
    ⟨⟨by decide, .inl (by decide)⟩, .inr ⟨.product, by decide⟩, hx, hn⟩
  have hf : Formula.parseWith (Environment.standard.withOptions .standard) .standard "x * n" = .ok f := by
    have h := Program.parse_render_program (Environment.isReadable_standard .standard) hproduct rfl
    have hrender : (Expr.binary "*" (.name "x") (.name "n")).program.render = "x * n" := by decide +kernel
    rw [hrender] at h
    rw [Formula.parseWith, h]
    rfl
  have hparams : ∀ p ∈ ["x"], bindings p = none ∧ Table.has p Environment.standard.constants = false := by
    intro p hp
    obtain rfl := List.mem_singleton.1 hp
    exact ⟨by decide, by decide⟩
  exact ⟨hf, hparams, Formula.call_compile (pure 0) (fun _ _ => pure .void) .standard .standard hf hparams ()⟩

end Reckon
