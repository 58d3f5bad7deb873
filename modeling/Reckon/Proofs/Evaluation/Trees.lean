import Reckon.Evaluate
import Reckon.Expr
import Reckon.Proofs.Evaluation.Outcomes

/-!
# Evaluation of trees

The value of an expression by its structure (`Expr.evaluate`): operands from left to right, of a choice the branch that
the condition selects, and of `and` and `or` the right operand only where the left one does not decide. The program of
an expression pushes that value on any stack (`Machine.run_program`). A host that keeps a trace of the functions it runs
(`Host.traced`) does what it does without one (`Expr.traces_evaluate`), so the program of an expression has the value of
the expression, and runs the same functions on the same arguments in the same order (`Expr.evaluate_program`).
-/

namespace Reckon

variable {σ : Type}

namespace Expr

mutual

/-- The value of an expression. -/
def evaluate (m : Machine σ) : Expr → Eval σ Value
  | .number v => pure (.number v)
  | .string s => pure (.string s)
  | .name n =>
    match m.env.resolve? m.vars n with
    | some v => pure v
    | none => throw (.undefined n)
  | .unary op x => do
    let v ← x.evaluate m
    Machine.applyOperator m.host m.env .unary op [v]
  | .binary op x y => do
    let v ← x.evaluate m
    if op = "and" then
      if v.isTruthy then do return .ofBool (← y.evaluate m).isTruthy else return .ofBool false
    else if op = "or" then
      if v.isTruthy then return .ofBool true else do return .ofBool (← y.evaluate m).isTruthy
    else do
      let w ← y.evaluate m
      Machine.applyOperator m.host m.env .binary op [v, w]
  | .choice c x y => do
    let v ← c.evaluate m
    if v.isTruthy then x.evaluate m else y.evaluate m
  | .call f args => do
    let callee ← f.evaluate m
    let vs ← evaluateAll m args
    Machine.call m.host callee vs
  | .member x field => do
    let v ← x.evaluate m
    return v.field field

/-- The values of expressions, from left to right. -/
def evaluateAll (m : Machine σ) : List Expr → Eval σ (List Value)
  | [] => pure []
  | x :: rest => do
    let v ← x.evaluate m
    let vs ← evaluateAll m rest
    return v :: vs

end

end Expr

/-! ## Programs -/

@[simp] theorem Item.force_value (v : Value) : (Item.value v : Item σ).force = pure v := rfl

@[simp] theorem Item.force_suspended (evaluation : Eval σ Value) : (Item.suspended evaluation).force = evaluation := rfl

namespace Machine

variable {m : Machine σ}

theorem forceAll_value (vs : List Value) : forceAll (vs.map Item.value) = (pure vs : Eval σ (List Value)) := by
  induction vs with
  | nil => rfl
  | cons v vs ih => simp [forceAll, ih]

/-- A call finds its arguments and what is called on the stack. -/
theorem step_call (callee : Value) (vs : List Value) (s : Stack σ) :
    m.step ((vs.map Item.value).reverse ++ .value callee :: s) (.call vs.length) =
      (do return .value (← call m.host callee vs) :: s) := by
  have hlength : vs.length = (vs.map (Item.value (σ := σ))).reverse.length := by simp
  have henough : ¬((vs.map Item.value).reverse ++ Item.value (σ := σ) callee :: s).length ≤ vs.length := by
    simp
  rw [step, if_neg henough, hlength, List.take_left, List.drop_left, List.reverse_reverse, forceAll_value]
  simp [Stack.popValue, Stack.pop]

/-- To suspend a program that pushes a value is to suspend the evaluation of that value. -/
theorem run_suspend {p : Program} {evaluation : Eval σ Value}
    (h : ∀ s, m.run s p = (do return .value (← evaluation) :: s)) (rest : Program) (s : Stack σ) :
    m.run s (.suspend p :: rest) = m.run (.suspended evaluation :: s) rest := by
  simp [run, step, h, Stack.result]

mutual

/-- The program of an expression pushes the value of the expression. -/
theorem run_program : (e : Expr) → ∀ s : Stack σ,
    m.run s e.program = (do return .value (← e.evaluate m) :: s)
  | .number v, s | .string v, s => by simp [Expr.program, Expr.evaluate, run, step]
  | .name n, s => by
    rw [Expr.program, Expr.evaluate, run, step]
    cases m.env.resolve? m.vars n <;> simp [run]
  | .unary op x, s => by
    rw [Expr.program, Expr.evaluate, run_append, run_program x]
    simp [run, step, Stack.popValue, Stack.pop, applyUnary]
  | .binary op x y, s => by
    rw [Expr.program, Expr.evaluate, List.append_assoc, run_append, run_program x, bind_assoc, bind_assoc]
    refine bind_congr fun v => ?_
    by_cases hop : op = "and" ∨ op = "or"
    · -- the right operand is suspended, and it is evaluated only if the left one does not decide
      have hlazy : isShortCircuit op = true := by simpa [isShortCircuit] using hop
      rw [if_pos hlazy, List.singleton_append, pure_bind, run_suspend (run_program y)]
      rcases hop with rfl | rfl <;> cases hv : v.isTruthy <;>
        simp [run, step, Stack.popValue, Stack.pop, binaryOnItem, hv]
    · have hstrict : isShortCircuit op = false := by simpa [isShortCircuit] using hop
      obtain ⟨hand, hor⟩ := not_or.1 hop
      simp [hstrict, run_append, run_program y, run, step, Stack.popValue, Stack.pop, binaryOnItem,
        applyBinary, hand, hor]
  | .choice c x y, s => by
    rw [Expr.program, Expr.evaluate, run_append, run_program c, bind_assoc, bind_assoc]
    refine bind_congr fun v => ?_
    rw [pure_bind, run_suspend (run_program x), run_suspend (run_program y)]
    cases hv : v.isTruthy <;> simp [run, step, Stack.popValue, Stack.pop, ternaryOnItems, hv]
  | .call f args, s => by
    rw [Expr.program, Expr.evaluate, List.append_assoc, run_append, run_program f, bind_assoc, bind_assoc]
    refine bind_congr fun callee => ?_
    have hcall := run_arguments callee args [] s
    simpa using hcall
  | .member x field, s => by
    rw [Expr.program, Expr.evaluate, run_append, run_program x]
    simp [run, step, Stack.popValue, Stack.pop]

/-- The programs of arguments and a call behind those that are there call with all of them. -/
theorem run_arguments (callee : Value) : (es : List Expr) → ∀ (vs : List Value) (s : Stack σ),
    m.run ((vs.map Item.value).reverse ++ .value callee :: s) (Expr.programs es ++ [.call (vs.length + es.length)]) = do
      let ws ← Expr.evaluateAll m es
      return .value (← call m.host callee (vs ++ ws)) :: s
  | [], vs, s => by
    simp [Expr.programs, Expr.evaluateAll, run, step_call]
  | e :: rest, vs, s => by
    have hnext : ∀ v, m.run (.value v :: ((vs.map Item.value).reverse ++ .value callee :: s))
        (Expr.programs rest ++ [.call (vs.length + (rest.length + 1))]) = do
          let ws ← Expr.evaluateAll m rest
          return .value (← call m.host callee (vs ++ v :: ws)) :: s := by
      intro v
      have h := run_arguments callee rest (vs ++ [v]) s
      simpa [Nat.add_assoc, Nat.add_comm 1] using h
    rw [Expr.programs, Expr.evaluateAll, List.append_assoc, run_append, run_program e]
    simp [hnext]

end

end Machine

/-- The program of an expression has the value of the expression. -/
theorem Program.evaluate_expr (m : Machine σ) (e : Expr) : e.program.evaluate m = e.evaluate m := by
  simp [Program.evaluate, m.run_program e, Stack.result]

/-! ## Traces -/

/-- A function that has been run: what asked for it, and its arguments. -/
structure Invocation where
  /-- What asked for it. -/
  site : Site
  /-- The function. -/
  function : Function
  /-- The arguments. -/
  args : List Value

/-- The host that also keeps a list of all functions that have been run, by operators and by calls. -/
def Host.traced (host : Host σ) : Host (σ × List Invocation) where
  run site f args := ExceptT.mk fun (s, trace) =>
    let (result, s') := (host.run site f args).run.run s
    (result, s', trace ++ [⟨site, f, args⟩])

/-- A computation does what another one does, and puts some invocations behind the trace that is there. -/
def Eval.Traces {α : Type} (traced : Eval (σ × List Invocation) α) (plain : Eval σ α) : Prop :=
  ∀ s, ∃ added, ∀ trace,
    traced.run.run (s, trace) = ((plain.run.run s).1, (plain.run.run s).2, trace ++ added)

section

variable {α β : Type}

theorem Eval.traces_pure (a : α) : Eval.Traces (σ := σ) (pure a) (pure a) :=
  fun _ => ⟨[], fun trace => by rw [List.append_nil]; rfl⟩

theorem Eval.traces_throw (e : EvalError) : Eval.Traces (σ := σ) (α := α) (throw e) (throw e) :=
  fun _ => ⟨[], fun trace => by rw [List.append_nil]; rfl⟩

theorem Eval.Traces.bind {c' : Eval (σ × List Invocation) α} {c : Eval σ α}
    {f' : α → Eval (σ × List Invocation) β} {f : α → Eval σ β} (hc : Eval.Traces c' c)
    (hf : ∀ a, Eval.Traces (f' a) (f a)) : Eval.Traces (c' >>= f') (c >>= f) := by
  intro s
  obtain ⟨added, hadded⟩ := hc s
  rcases hrun : c.run.run s with ⟨e | a, s'⟩
  · refine ⟨added, fun trace => ?_⟩
    have htrace := hadded trace
    rw [hrun] at htrace
    rw [Eval.run_bind_error htrace, Eval.run_bind_error hrun]
  · obtain ⟨more, hmore⟩ := hf a s'
    refine ⟨added ++ more, fun trace => ?_⟩
    have htrace := hadded trace
    rw [hrun] at htrace
    rw [Eval.run_bind_ok htrace, Eval.run_bind_ok hrun, hmore, List.append_assoc]

theorem Eval.Traces.ite {p : Prop} [Decidable p] {c' d' : Eval (σ × List Invocation) α} {c d : Eval σ α}
    (hc : Eval.Traces c' c) (hd : Eval.Traces d' d) : Eval.Traces (if p then c' else d') (if p then c else d) := by
  split
  · exact hc
  · exact hd

theorem Eval.Traces.map {c' : Eval (σ × List Invocation) α} {c : Eval σ α} (hc : Eval.Traces c' c) (f : α → β) :
    Eval.Traces (do return f (← c')) (do return f (← c)) :=
  hc.bind fun a => Eval.traces_pure (f a)

end

section

variable {host : Host σ}

theorem Host.traces_run (site : Site) (f : Function) (args : List Value) :
    Eval.Traces (host.traced.run site f args) (host.run site f args) :=
  fun _ => ⟨[⟨site, f, args⟩], fun _ => rfl⟩

theorem Host.traces_invoke (site : Site) (f : Function) (args : List Value) :
    Eval.Traces (host.traced.invoke site f args) (host.invoke site f args) := by
  rw [Host.invoke, Host.invoke]
  split
  · exact Host.traces_run site f args
  · exact Eval.traces_throw _

theorem Machine.traces_applyOperator (env : Environment) (kind : OperatorKind) (op : String) (args : List Value) :
    Eval.Traces (Machine.applyOperator host.traced env kind op args) (Machine.applyOperator host env kind op args) := by
  rw [Machine.applyOperator, Machine.applyOperator]
  cases env.operator? kind op with
  | none => exact Eval.traces_throw _
  | some f => exact Host.traces_invoke .operator f args

theorem Machine.traces_call (callee : Value) (args : List Value) :
    Eval.Traces (Machine.call host.traced callee args) (Machine.call host callee args) := by
  cases callee with
  | function f => exact Host.traces_invoke .call f args
  | _ => exact Eval.traces_throw _

variable {env : Environment} {vars : Variables}

mutual

/-- A trace does not change the value of an expression, nor what its evaluation does to the host. -/
theorem Expr.traces_evaluate : (e : Expr) →
    Eval.Traces (e.evaluate ⟨host.traced, env, vars⟩) (e.evaluate ⟨host, env, vars⟩)
  | .number _ | .string _ => Eval.traces_pure _
  | .name n => by
    rw [Expr.evaluate, Expr.evaluate]
    cases env.resolve? vars n with
    | none => exact Eval.traces_throw _
    | some v => exact Eval.traces_pure v
  | .unary op x => by
    rw [Expr.evaluate, Expr.evaluate]
    exact (Expr.traces_evaluate x).bind fun v => Machine.traces_applyOperator env .unary op [v]
  | .binary op x y => by
    rw [Expr.evaluate, Expr.evaluate]
    have hright := Expr.traces_evaluate y
    refine (Expr.traces_evaluate x).bind fun v => ?_
    refine .ite (.ite (hright.map _) (Eval.traces_pure _)) (.ite (.ite (Eval.traces_pure _) (hright.map _)) ?_)
    exact hright.bind fun w => Machine.traces_applyOperator env .binary op [v, w]
  | .choice c x y => by
    rw [Expr.evaluate, Expr.evaluate]
    exact (Expr.traces_evaluate c).bind fun v => .ite (Expr.traces_evaluate x) (Expr.traces_evaluate y)
  | .call f args => by
    rw [Expr.evaluate, Expr.evaluate]
    refine (Expr.traces_evaluate f).bind fun callee => ?_
    exact (Expr.traces_evaluateAll args).bind fun vs => Machine.traces_call callee vs
  | .member x field => by
    rw [Expr.evaluate, Expr.evaluate]
    exact (Expr.traces_evaluate x).map _

theorem Expr.traces_evaluateAll : (es : List Expr) →
    Eval.Traces (Expr.evaluateAll ⟨host.traced, env, vars⟩ es) (Expr.evaluateAll ⟨host, env, vars⟩ es)
  | [] => Eval.traces_pure _
  | e :: rest => by
    rw [Expr.evaluateAll, Expr.evaluateAll]
    exact (Expr.traces_evaluate e).bind fun v => (Expr.traces_evaluateAll rest).map (v :: ·)

end

end

/-- The program of an expression, run from the empty stack, has the value or error of the expression, does to the host
what the evaluation of the expression does, and runs the same functions on the same arguments in the same order. -/
theorem Expr.evaluate_program (host : Host σ) (env : Environment) (vars : Variables) (e : Expr) (s : σ) :
    ∃ (result : Except EvalError Value) (s' : σ) (trace : List Invocation),
      (e.evaluate ⟨host, env, vars⟩).run.run s = (result, s') ∧
      (e.program.evaluate ⟨host, env, vars⟩).run.run s = (result, s') ∧
      (e.evaluate ⟨host.traced, env, vars⟩).run.run (s, []) = (result, s', trace) ∧
      (e.program.evaluate ⟨host.traced, env, vars⟩).run.run (s, []) = (result, s', trace) := by
  have htraces : Eval.Traces (e.evaluate ⟨host.traced, env, vars⟩) (e.evaluate ⟨host, env, vars⟩) :=
    Expr.traces_evaluate e
  obtain ⟨trace, htrace⟩ := htraces s
  rw [Program.evaluate_expr, Program.evaluate_expr]
  exact ⟨_, _, trace, rfl, rfl, htrace [], htrace []⟩

end Reckon
