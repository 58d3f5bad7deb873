import Reckon.Proofs.Evaluation.Compilation
import Reckon.Proofs.Evaluation.Remainder
import Reckon.Proofs.Evaluation.Trees

/-!
# Parameters that are bound

Simplification leaves only names of which nothing is known that can be written down (`Program.keeps_of_mem_simplify`).
A function is compiled before its arguments are there, so what is bound to a parameter comes before its argument if it
can be written down. The bound values of parameters are not captured (`Formula.captures_without`), and a function that
is compiled without them goes by its arguments only (`Formula.call_compile_bound`).
-/

namespace Reckon

variable {σ : Type}

/-! ## Variables -/

/-- The variables without some names. -/
def Variables.without (vars : Variables) (names : List String) : Variables :=
  fun name => if name ∈ names then none else vars name

/-- The variables, and others where these say nothing. -/
def Variables.over (vars below : Variables) : Variables :=
  fun name => (vars name).or (below name)

section

variable {bindings : Variables} {params : List String} {args : List Value}

theorem Variables.extend_zip_of_not_mem (hargs : args.length = params.length) {name : String} (h : name ∉ params) :
    bindings.extend (params.zip args) name = bindings name := by
  have hfst : (params.zip args).map Prod.fst = params := List.map_fst_zip (Nat.le_of_eq hargs.symm)
  exact Variables.extend_of_not_mem (by rwa [hfst])

/-- Arguments hide what is bound to their parameters. -/
theorem Variables.extend_without (hargs : args.length = params.length) :
    (bindings.without params).extend (params.zip args) = bindings.extend (params.zip args) := by
  have hfst : (params.zip args).map Prod.fst = params := List.map_fst_zip (Nat.le_of_eq hargs.symm)
  funext name
  refine Variables.extend_congr ?_
  rw [hfst, Variables.without]
  by_cases hname : name ∈ params
  · exact .inl hname
  · exact .inr (if_neg hname)

/-- Arguments below the bindings do not change what is known, if no parameter is a constant. -/
theorem Environment.determines_over {env : Environment} (hargs : args.length = params.length)
    (hparams : ∀ p ∈ params, Table.has p env.constants = false) :
    env.Determines bindings (bindings.over (bindings.extend (params.zip args))) where
  agrees name v hv := by rw [Variables.over, hv, Option.some_or]
  constants name hconstant hnone := by
    have hname : name ∉ params := fun hname => by
      rw [hparams name hname] at hconstant
      cases hconstant
    rw [Variables.over, hnone, Option.none_or, Variables.extend_zip_of_not_mem hargs hname, hnone]

/-- A name that simplification leaves stands for the same whether the arguments or the bindings come first, if what is
bound to a parameter can be written down or is its argument. -/
theorem Simplifier.Keeps.resolve?_over {m : Simplifier σ} {name : String} (hname : m.Keeps name)
    (hargs : args.length = params.length)
    (hbound : ∀ p ∈ params, ∀ v, m.known p = some v →
      (∃ l : Literal, l.isWritable m.options = true ∧ v = .ofLiteral l) ∨
        m.known.extend (params.zip args) p = some v) :
    m.env.resolve? (m.known.extend (params.zip args)) name =
      m.env.resolve? (m.known.over (m.known.extend (params.zip args))) name := by
  rcases m.env.resolve?_cases name with ⟨f, hf⟩ | hresolve
  · rw [hf, hf]
  · rw [hresolve, hresolve]
    congr 1
    cases hknown : m.known name with
    | none => rw [Variables.over, hknown, Option.none_or]
    | some v =>
      rw [Variables.over, hknown, Option.some_or]
      by_cases hparam : name ∈ params
      · rcases hbound name hparam v hknown with ⟨l, hl, rfl⟩ | h
        · have hliteral : m.env.resolve? m.known name = some (.ofLiteral l) := by
            rw [hresolve, hknown, Option.some_or]
          rw [hname l hliteral] at hl
          cases hl
        · exact h
      · rw [Variables.extend_zip_of_not_mem hargs hparam, hknown]

end

/-! ## Calls -/

/-- A formula of the standard environment is compiled to a function, which has the value of the formula with all
variables that are as the bindings foresee, and give the names that the bindings leave what the arguments give them. -/
theorem Formula.exists_call_eq (chance : StateM σ Float) (run : String → List Value → Eval σ Value) {o o' : Options}
    {code : String} {f : Formula} (hf : Formula.parseWith (Environment.standard.withOptions o) o' code = .ok f)
    (params : List String) (bindings : Variables) (s : σ) :
    ∃ c : CompiledFunction, f.compile (.withBuiltins chance run) params bindings = pure (.ok c) ∧
      ∀ (args : List Value) (vars : Variables), args.length = params.length →
        f.env.Determines bindings vars →
        (∀ n, Simplifier.Keeps ⟨Host.withBuiltins chance run, f.env, f.options, bindings⟩ n →
          f.env.resolve? (bindings.extend (params.zip args)) n = f.env.resolve? vars n) →
        c.call (.withBuiltins chance run) args = f.evaluate (.withBuiltins chance run) vars := by
  let host : Host σ := .withBuiltins chance run
  let env : Environment := Environment.standard.withOptions o
  have hhost : host.Computes env Function.standardMeaning := Host.computes_withBuiltins chance run o
  have hreadable : env.grammar.IsReadable := Environment.isReadable_standard o
  have hminus : env.grammar.isUnary "-" = true := by
    have hunary : Table.has "-" Environment.standard.unary = true := by decide +kernel
    exact hunary
  obtain ⟨p, hp, rfl⟩ := Formula.exists_of_parseWith hf
  obtain ⟨e, rfl, he, -⟩ := Program.exists_printable hreadable hp
  obtain ⟨e', hsimplify, hcompile⟩ :=
    Formula.exists_compile (f := ⟨e.program, env, o'⟩) hhost hreadable hminus he rfl params bindings
  refine ⟨_, hcompile, fun args vars hargs hvars hnames => ?_⟩
  have hforesees : Simplifier.Foresees ⟨host, env, o', bindings⟩ (⟨host, env, vars⟩ : Machine σ)
      Function.standardMeaning :=
    ⟨rfl, hhost, hhost, hvars⟩
  obtain ⟨q, hq, hruns⟩ := Program.simplify_sound hforesees e.program
  obtain rfl : q = e'.program := congrArg Prod.fst (congrFun (hq.symm.trans hsimplify) s)
  have hkept : ∀ n ∈ Program.names e'.program, Simplifier.Keeps ⟨host, env, o', bindings⟩ n := by
    have h := Program.keeps_of_mem_simplify (m := ⟨host, env, o', bindings⟩) e.program s
    rw [hsimplify] at h
    exact h
  rw [CompiledFunction.call, if_pos hargs]
  -- the code that is read again, the simplified formula with the captures, with the bindings, and with the variables
  calc e'.spelled.program.evaluate ⟨host, env, _⟩
      = e'.program.evaluate ⟨host, env, _⟩ :=
        Program.evaluate_congr (Machine.run_spelled (Machine.computesSigns_standard chance run o _) e' [])
    _ = e'.program.evaluate ⟨host, env, bindings.extend (params.zip args)⟩ :=
        Program.evaluate_congr_vars fun n hn => Formula.resolve?_bind (f := ⟨e'.program, env, o'⟩) hargs hn
    _ = e'.program.evaluate ⟨host, env, vars⟩ := Program.evaluate_congr_vars fun n hn => hnames n (hkept n hn)
    _ = e.program.evaluate ⟨host, env, vars⟩ := Program.evaluate_congr (hruns [])

/-- The bound values of parameters are not captured. -/
theorem Formula.captures_without (f : Formula) (params : List String) (bindings : Variables) :
    f.captures params (bindings.without params) = f.captures params bindings := by
  have hbound : ∀ name ∈ (f.freeVariables false).filter fun name => !params.contains name,
      bindings.without params name = bindings name := by
    intro name hname
    have hfree : name ∉ params := by simpa using (List.mem_filter.1 hname).2
    rw [Variables.without, if_neg hfree]
  rw [Formula.captures, Formula.captures]
  congr 1
  exact List.filterMap_congr fun name hname => by rw [hbound name hname]

/-- The bound values of parameters are of no account but for what simplification makes of them. -/
theorem Formula.compile_without {host : Host σ} {f : Formula} (params : List String) {bindings : Variables} {s : σ}
    (h : (f.simplify host (bindings.without params)).run s = (f.simplify host bindings).run s) :
    (f.compile host params (bindings.without params)).run s = (f.compile host params bindings).run s := by
  simp only [Formula.compile, StateT.run_bind, h, Formula.captures_without]

/-- A formula of the standard environment is compiled with bindings of its parameters, and without them. Both functions
are the same if simplification leaves the same of the formula. Without the bindings the arguments count; with them the
bound values do, where they can be written down, and an argument is ignored. -/
theorem Formula.call_compile_bound (chance : StateM σ Float) (run : String → List Value → Eval σ Value)
    (o o' : Options) {code : String} {f : Formula}
    (hf : Formula.parseWith (Environment.standard.withOptions o) o' code = .ok f) (params : List String)
    (bindings : Variables) (s : σ) :
    let host : Host σ := .withBuiltins chance run
    ∃ c c' : CompiledFunction,
      (f.compile host params bindings).run s = (.ok c, s) ∧
      (f.compile host params (bindings.without params)).run s = (.ok c', s) ∧
      ((f.simplify host (bindings.without params)).run s = (f.simplify host bindings).run s → c' = c) ∧
      ((∀ p ∈ params, Table.has p Environment.standard.constants = false) →
        ∀ args : List Value, args.length = params.length →
          c'.call host args = f.evaluate host (bindings.extend (params.zip args)) ∧
          ((∀ p ∈ params, ∀ v, bindings p = some v →
              (∃ l : Literal, l.isWritable o' = true ∧ v = .ofLiteral l) ∨
                bindings.extend (params.zip args) p = some v) →
            c.call host args = f.evaluate host (bindings.over (bindings.extend (params.zip args))))) := by
  intro host
  obtain ⟨c, hcompile, hcall⟩ := Formula.exists_call_eq chance run hf params bindings s
  obtain ⟨c', hcompile', hcall'⟩ := Formula.exists_call_eq chance run hf params (bindings.without params) s
  refine ⟨c, c', congrFun hcompile s, congrFun hcompile' s, fun h => ?_, fun hparams args hargs => ⟨?_, fun h => ?_⟩⟩
  · have hsame := Formula.compile_without params h
    rw [hcompile, hcompile'] at hsame
    exact Except.ok.inj (congrArg Prod.fst hsame)
  · obtain ⟨p, -, rfl⟩ := Formula.exists_of_parseWith hf
    have hunbound : ∀ p ∈ params, bindings.without params p = none ∧
        Table.has p (Environment.standard.withOptions o).constants = false :=
      fun p hp => ⟨if_pos hp, hparams p hp⟩
    have hvalue := hcall' args _ hargs (Environment.determines_extend hunbound hargs) fun _ _ => rfl
    rwa [Variables.extend_without hargs] at hvalue
  · obtain ⟨p, -, rfl⟩ := Formula.exists_of_parseWith hf
    refine hcall args _ hargs (Environment.determines_over hargs hparams) fun n hn => ?_
    exact hn.resolve?_over hargs h

/-- In `x * y` only the first parameter is bound. -/
theorem Formula.call_compile_bound_product :
    let host : Host Unit := .withBuiltins (pure 0) fun _ _ => pure .void
    let bindings : Variables := fun name => if name = "x" then some (.number 5) else none
    let f : Formula := ⟨[.load "x", .load "y", .binary "*"], Environment.standard.withOptions .standard, .standard⟩
    Formula.parseWith (Environment.standard.withOptions .standard) .standard "x * y" = .ok f ∧
      ∃ c c' : CompiledFunction,
        (f.compile host ["x", "y"] bindings).run () = (.ok c, ()) ∧
        (f.compile host ["x", "y"] (bindings.without ["x", "y"])).run () = (.ok c', ()) ∧
        c'.call host [.number 1, .number 2] =
          f.evaluate host (bindings.extend [("x", .number 1), ("y", .number 2)]) ∧
        c.call host [.number 1, .number 2] =
          f.evaluate host (bindings.over (bindings.extend [("x", .number 1), ("y", .number 2)])) := by
  intro host bindings f
  let g : Grammar := (Environment.standard.withOptions .standard).grammar
  have hx : (Expr.name "x").Printable g .standard false :=
    Expr.printable_name (by decide) (by decide +kernel) (by decide +kernel)
  have hy : (Expr.name "y").Printable g .standard false :=
    Expr.printable_name (by decide) (by decide +kernel) (by decide +kernel)
  have hproduct : (Expr.binary "*" (.name "x") (.name "y")).Printable g .standard false :=
    ⟨⟨by decide, .inl (by decide)⟩, .inr ⟨.product, by decide⟩, hx, hy⟩
  have hf : Formula.parseWith (Environment.standard.withOptions .standard) .standard "x * y" = .ok f :=
    Formula.parseWith_render hproduct rfl (by decide +kernel)
  have hconstant : ∀ p ∈ ["x", "y"], Table.has p Environment.standard.constants = false := by decide
  have hbound : ∀ p ∈ ["x", "y"], ∀ v, bindings p = some v →
      (∃ l : Literal, l.isWritable .standard = true ∧ v = .ofLiteral l) ∨
        bindings.extend (["x", "y"].zip [.number 1, .number 2]) p = some v := by
    intro p _ v hv
    obtain ⟨-, hv⟩ := Option.ite_none_right_eq_some.1 hv
    cases hv
    exact .inl ⟨.number 5, by decide, rfl⟩
  obtain ⟨c, c', hc, hc', -, hcall⟩ :=
    Formula.call_compile_bound (pure 0) (fun _ _ => pure .void) .standard .standard hf ["x", "y"] bindings ()
  obtain ⟨hargument, hbinding⟩ := hcall hconstant [.number 1, .number 2] rfl
  exact ⟨hf, c, c', hc, hc', hargument, hbinding hbound⟩

/-- The parameter of `x` is bound to `5`, and called with `1`. -/
theorem Formula.call_compile_bound_parameter :
    let host : Host Unit := .withBuiltins (pure 0) fun _ _ => pure .void
    let bindings : Variables := fun name => if name = "x" then some (.number 5) else none
    let f : Formula := ⟨[.load "x"], .standard, .standard⟩
    Formula.parse .standard "x" = .ok f ∧
      ∃ c c' : CompiledFunction,
        (f.compile host ["x"] bindings).run () = (.ok c, ()) ∧
        (f.compile host ["x"] (bindings.without ["x"])).run () = (.ok c', ()) ∧
        c.call host [.number 1] = pure (.number 5) ∧ c'.call host [.number 1] = pure (.number 1) ∧
        c.call host [.number 1] ≠ c'.call host [.number 1] := by
  intro host bindings f
  have hx : (Expr.name "x").Printable (Environment.standard.withOptions .standard).grammar .standard false :=
    Expr.printable_name (by decide) (by decide +kernel) (by decide +kernel)
  have hf : Formula.parseWith (Environment.standard.withOptions .standard) .standard "x" = .ok f :=
    Formula.parseWith_render hx rfl (by decide +kernel)
  have hvalue : ∀ (vars : Variables) (v : Value), vars "x" = some v → f.evaluate host vars = pure v := by
    intro vars v hv
    have hresolve : Environment.standard.resolve? vars "x" = some v := by
      have hfunction : Table.lookup "x" Environment.standard.functions = none := by decide +kernel
      have hunary : Environment.standard.enabledUnary? "x" = none := by decide +kernel
      rw [Environment.resolve?, hfunction, hunary, hv]
    exact (Program.evaluate_expr _ (.name "x")).trans (by rw [Expr.evaluate, hresolve])
  have hconstant : ∀ p ∈ ["x"], Table.has p (Environment.standard.withOptions .standard).constants = false := by decide
  have hbound : ∀ p ∈ ["x"], ∀ v, bindings p = some v →
      (∃ l : Literal, l.isWritable .standard = true ∧ v = .ofLiteral l) ∨
        bindings.extend (["x"].zip [.number 1]) p = some v := by
    intro p hp v hv
    obtain rfl := List.mem_singleton.1 hp
    cases hv
    exact .inl ⟨.number 5, by decide, rfl⟩
  have hunbound : ∀ p ∈ ["x"], bindings.without ["x"] p = none ∧
      Table.has p (Environment.standard.withOptions .standard).constants = false :=
    fun p hp => ⟨if_pos hp, hconstant p hp⟩
  obtain ⟨c, hc, hcall⟩ := Formula.exists_call_eq (pure 0) (fun _ _ => pure .void) hf ["x"] bindings ()
  obtain ⟨c', hc', hcall'⟩ :=
    Formula.exists_call_eq (pure 0) (fun _ _ => pure .void) hf ["x"] (bindings.without ["x"]) ()
  have hfive : c.call host [.number 1] = pure (.number 5) :=
    (hcall [.number 1] _ rfl (Environment.determines_over rfl hconstant) fun n hn => hn.resolve?_over rfl hbound).trans
      (hvalue _ _ rfl)
  have hone : c'.call host [.number 1] = pure (.number 1) :=
    (hcall' [.number 1] _ rfl (Environment.determines_extend hunbound rfl) fun _ _ => rfl).trans (hvalue _ _ rfl)
  refine ⟨hf, c, c', congrFun hc (), congrFun hc' (), hfive, hone, fun h => ?_⟩
  have hresult : (Except.ok (.number 5) : Except EvalError Value) = .ok (.number 1) :=
    congrArg Prod.fst (congrFun (hfive.symm.trans (h.trans hone)) ())
  have hnumber : (5 : Float) = 1 := Value.number.inj (Except.ok.inj hresult)
  exact absurd hnumber (by decide)

end Reckon
