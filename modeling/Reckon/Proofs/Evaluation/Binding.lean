import Reckon.Proofs.Evaluation.Hosts
import Reckon.Proofs.Evaluation.Imitation
import Reckon.Proofs.Evaluation.Variables

/-!
# Substitution is binding

A step takes some items off the stack and does not touch those below (`Machine.step_append`), so a program that leaves
one item on the empty stack puts it on any other stack (`Machine.run_push`). In a host whose functions neither read nor
change the state, that item has the same value whenever it is asked for it. So a program that stands in place of a
variable does what the variable does that is bound to its value (`Machine.answers_substitute`), however often it is
evaluated, and to substitute it is to bind the variable (`Program.evaluate_substitute`).
-/

namespace Reckon

variable {σ : Type}

/-! ## Items that stay where they are -/

/-- How many items a step takes. -/
def Instruction.demand : Instruction → Nat
  | .unary _ | .member _ => 1
  | .binary _ => 2
  | .ternary _ => 3
  | .call argCount => argCount + 1
  | _ => 0

namespace Machine

variable {m : Machine σ} {i : Instruction} {p : Program} {s t u : Stack σ}

/-- A step that does not find the items that it takes fails. -/
theorem step_of_lt_demand (h : t.length < i.demand) : m.step t i = throw (.invalidProgram .underflow) := by
  cases i with
  | number _ | string _ | load _ | suspend _ => exact absurd h (Nat.not_lt_zero _)
  | unary _ | member _ =>
    obtain rfl : t = [] := List.length_eq_zero_iff.1 (Nat.lt_one_iff.1 h)
    rfl
  | binary _ =>
    rcases t with _ | ⟨y, _ | ⟨x, t⟩⟩
    · rfl
    · rfl
    · exact absurd h (Nat.not_lt.2 (Nat.le_add_left 2 t.length))
  | ternary _ =>
    rcases t with _ | ⟨z, _ | ⟨y, _ | ⟨x, t⟩⟩⟩
    · rfl
    · rfl
    · rfl
    · exact absurd h (Nat.not_lt.2 (Nat.le_add_left 3 t.length))
  | call argCount =>
    rw [step, if_pos (Nat.le_of_lt_succ h)]

/-- The items below those that a step takes stay where they are. -/
theorem step_append (h : i.demand ≤ t.length) (s : Stack σ) : m.step (t ++ s) i = (do return (← m.step t i) ++ s) := by
  cases i with
  | number _ | string _ | suspend _ => simp [step]
  | load n =>
    rw [step, step]
    cases m.env.resolve? m.vars n <;> simp
  | unary _ | member _ =>
    obtain ⟨x, t, rfl⟩ := List.exists_cons_of_length_pos h
    simp [step, Stack.popValue, Stack.pop]
  | binary _ =>
    obtain ⟨y, t, rfl⟩ := List.exists_cons_of_length_pos (Nat.lt_of_succ_lt h)
    obtain ⟨x, t, rfl⟩ := List.exists_cons_of_length_pos (Nat.lt_of_succ_lt_succ h)
    simp [step, Stack.popValue, Stack.pop]
  | ternary _ =>
    obtain ⟨z, t, rfl⟩ := List.exists_cons_of_length_pos (Nat.lt_of_succ_lt (Nat.lt_of_succ_lt h))
    have hbelow : 1 < t.length := Nat.lt_of_succ_lt_succ h
    obtain ⟨y, t, rfl⟩ := List.exists_cons_of_length_pos (Nat.lt_of_succ_lt hbelow)
    obtain ⟨x, t, rfl⟩ := List.exists_cons_of_length_pos (Nat.lt_of_succ_lt_succ hbelow)
    simp [step, Stack.popValue, Stack.pop]
  | call argCount =>
    have htake : (t ++ s).take argCount = t.take argCount := List.take_append_of_le_length (Nat.le_of_succ_le h)
    have hdrop : (t ++ s).drop argCount = t.drop argCount ++ s := List.drop_append_of_le_length (Nat.le_of_succ_le h)
    have hshort : ¬t.length ≤ argCount := Nat.not_le.2 h
    have hshort' : ¬(t ++ s).length ≤ argCount := fun hle => hshort (Nat.le_trans (by simp) hle)
    have hcallee : t.drop argCount ≠ [] := by simpa using hshort
    obtain ⟨x, rest, hx⟩ := List.exists_cons_of_ne_nil hcallee
    rw [step, step, if_neg hshort, if_neg hshort', htake, hdrop, hx]
    simp [Stack.popValue, Stack.pop]

/-- What a step does on some items it does on top of others too. -/
theorem run_step_append {a a' : σ} (h : (m.step t i).run.run a = (.ok u, a')) (s : Stack σ) :
    (m.step (t ++ s) i).run.run a = (.ok (u ++ s), a') := by
  by_cases hdemand : i.demand ≤ t.length
  · rw [step_append hdemand, Eval.run_bind_ok h]
    rfl
  · rw [step_of_lt_demand (Nat.lt_of_not_le hdemand)] at h
    cases h

/-- What a program does on some items it does on top of others too. -/
theorem run_run_append {a a' : σ} (h : (m.run t p).run.run a = (.ok u, a')) (s : Stack σ) :
    (m.run (t ++ s) p).run.run a = (.ok (u ++ s), a') := by
  induction p generalizing t a with
  | nil =>
    rw [run] at h ⊢
    cases h
    rfl
  | cons i p ih =>
    rw [run] at h ⊢
    rcases hstep : (m.step t i).run.run a with ⟨e | t', a''⟩
    · rw [Eval.run_bind_error hstep] at h
      cases h
    · rw [Eval.run_bind_ok hstep] at h
      rw [Eval.run_bind_ok (run_step_append hstep s)]
      exact ih h

/-- A program with a value leaves one item, and asked for its value the item has that of the program. -/
theorem exists_item_of_evaluate {a a' : σ} {v : Value} (h : (Program.evaluate m p).run.run a = (.ok v, a')) :
    ∃ (x : Item σ) (a'' : σ), (m.run [] p).run.run a = (.ok [x], a'') ∧ x.force.run.run a'' = (.ok v, a') := by
  rcases hrun : (m.run [] p).run.run a with ⟨e | t, a''⟩
  · rw [Program.evaluate, Eval.run_bind_error hrun] at h
    cases h
  · rw [Program.evaluate, Eval.run_bind_ok hrun] at h
    rcases t with _ | ⟨x, _ | ⟨y, t⟩⟩
    · cases h
    · exact ⟨x, a'', rfl, h⟩
    · cases h

end Machine

/-! ## Hosts without effects -/

/-- The functions of a host neither read nor change its state, whether operators or calls run them. -/
def Host.IsPure (host : Host σ) : Prop :=
  ∃ meaning : Site → Function → List Value → Except EvalError Value,
    ∀ site f args, host.run site f args = Eval.ofResult (meaning site f args)

/-- A host without effects never leaves the state that it is in. -/
theorem Host.IsPure.admits {host : Host σ} (h : host.IsPure) (a : σ) : host.Admits (· = a) (fun _ => True) := by
  obtain ⟨meaning, hmeaning⟩ := h
  refine ⟨fun site f args => ?_, fun _ _ => trivial⟩
  rw [hmeaning]
  cases meaning site f args with
  | ok v => exact .pure rfl
  | error e => exact .throw trivial

/-- What functions compute if a number is given for each random one, and `meaning` for functions of the host. -/
def Function.meaningWith (r : Float) (meaning : String → List Value → Except EvalError Value) :
    Function → List Value → Except EvalError Value
  | .builtin b, args => b.run (if b = .function .random then r else 0) args
  | .host name _, args => meaning name args

/-- Built-in operations have no effects if what they take for a random number is always the same. -/
theorem Host.isPure_withBuiltins (r : Float) {run : String → List Value → Eval σ Value}
    (meaning : String → List Value → Except EvalError Value)
    (hrun : ∀ name args, run name args = Eval.ofResult (meaning name args)) :
    (Host.withBuiltins (pure r) run).IsPure := by
  have hresult (c : Except EvalError Value) : Host.runBuiltin.liftExcept c = (Eval.ofResult c : Eval σ Value) := by
    cases c <;> rfl
  refine ⟨fun _ => Function.meaningWith r meaning, fun site f args => ?_⟩
  cases f with
  | host name arity => exact hrun name args
  | builtin b =>
    have hmeaning : Function.meaningWith r meaning (.builtin b) args =
        b.run (if b = .function .random then r else 0) args := rfl
    refine (?_ : Host.runBuiltin (pure r) b args = Eval.ofResult (Function.meaningWith r meaning (.builtin b) args))
    rw [hmeaning]
    unfold Host.runBuiltin
    split
    · exact hresult _
    · next hb => rw [if_neg hb, hresult]

/-! ## Names that are bound -/

section

variable {env : Environment} {x : String}

/-- A name that is neither a function nor a unary operator stands for the value that it is bound to. -/
theorem Environment.resolve?_bind_self (hfunction : env.isFunction x = false) (hunary : env.enabledUnary? x = none)
    (vars : Variables) (v : Value) : env.resolve? (vars.bind x v) x = some v := by
  have hlookup : Table.lookup x env.functions = none := by
    rwa [Environment.isFunction, Table.has, Option.isSome_eq_false_iff, Option.isNone_iff_eq_none] at hfunction
  rw [Environment.resolve?_eq_or hlookup hunary, Variables.bind, if_pos rfl, Option.some_or]

theorem Environment.resolve?_bind_of_ne {n : String} (hn : n ≠ x) (vars : Variables) (v : Value) :
    env.resolve? (vars.bind x v) n = env.resolve? vars n := by
  rw [Environment.resolve?, Environment.resolve?, Variables.bind, if_neg hn]

end

/-! ## Substitution -/

section

variable {x : String} {r : Program}

mutual

theorem Program.imitates_substituteStep : (i : Instruction) → ∀ {p q : Program},
    Imitates (fun r' n => r' = substituteStep x r (.load n)) q p →
      Imitates (fun r' n => r' = substituteStep x r (.load n)) (substituteStep x r i ++ q) (i :: p)
  | .load _, _, _, h => .load rfl h
  | .suspend body, _, _, h => .suspend (Program.imitates_substitute body) h
  | .number _, _, _, h | .string _, _, _, h | .unary _, _, _, h | .binary _, _, _, h | .ternary _, _, _, h
  | .call _, _, _, h | .member _, _, _, h => .closed trivial h

/-- Where a variable has been replaced, the program goes step by step as before. -/
theorem Program.imitates_substitute : (p : List Instruction) →
    Imitates (fun r' n => r' = substituteStep x r (.load n)) (substitute x r p) p
  | [] => .nil
  | i :: rest => Program.imitates_substituteStep i (Program.imitates_substitute rest)

end

variable {host : Host σ} {env : Environment} {vars : Variables} {v : Value} {a a' : σ}

/-- A program with a value does on any stack what the name does that is bound to the value. -/
theorem Machine.run_alike_bind (hhost : host.IsPure) (hfunction : env.isFunction x = false)
    (hunary : env.enabledUnary? x = none) (hr : (r.evaluate ⟨host, env, vars⟩).run.run a = (.ok v, a'))
    {s t : Stack σ} (hst : Stack.Alike (· = a) (fun _ => True) s t) :
    Eval.Alike (· = a) (fun _ => True) (Stack.Alike (· = a) (fun _ => True)) (Machine.run ⟨host, env, vars⟩ s r)
      (Machine.step ⟨host, env, vars.bind x v⟩ t (.load x)) := by
  obtain ⟨item, a'', hitem, hforce⟩ := Machine.exists_item_of_evaluate hr
  have hadmits := hhost.admits a
  -- neither the program nor its item leaves the state
  have hrun : Eval.Alike (· = a) (fun _ => True) (Stack.Alike (· = a) (fun _ => True))
      (Machine.run ⟨host, env, vars⟩ [] r) (Machine.run ⟨host, env, vars⟩ [] r) :=
    Machine.run_alike hadmits fun _ _ _ => trivial
  have hevaluate : Eval.Alike (· = a) (fun _ => True) Eq (r.evaluate ⟨host, env, vars⟩)
      (r.evaluate ⟨host, env, vars⟩) := Program.evaluate_alike hadmits fun _ _ _ => trivial
  obtain rfl : a'' = a := by
    have hstate := hrun.state rfl
    rwa [hitem] at hstate
  obtain rfl : a' = a'' := by
    have hstate := hevaluate.state rfl
    rwa [hr] at hstate
  have hvalue : Item.Alike (· = a') (fun _ => True) item (.value v) := by
    rintro _ rfl
    exact ⟨_, rfl, .inl ⟨v, v, rfl, hforce, rfl⟩⟩
  have hload : Machine.step ⟨host, env, vars.bind x v⟩ t (.load x) = pure (.value v :: t) := by
    rw [Machine.step, Environment.resolve?_bind_self hfunction hunary]
  rintro _ rfl
  exact ⟨_, rfl, .inl ⟨item :: s, .value v :: t, .cons hvalue hst, Machine.run_run_append hitem s, by rw [hload]; rfl⟩⟩

/-- In place of references to a name there is what does the same if the name is bound. -/
theorem Machine.answers_substitute (hhost : host.IsPure) (hfunction : env.isFunction x = false)
    (hunary : env.enabledUnary? x = none) (hr : (r.evaluate ⟨host, env, vars⟩).run.run a = (.ok v, a')) :
    Machine.Answers (· = a) (fun _ => True) host env vars (vars.bind x v)
      fun r' n => r' = Program.substituteStep x r (.load n) := by
  rintro _ n rfl s t hst
  rw [Program.substituteStep]
  split
  · next hn =>
    subst hn
    exact Machine.run_alike_bind hhost hfunction hunary hr hst
  · next hn => exact Machine.load_alike (Environment.resolve?_bind_of_ne hn vars v).symm (fun _ => trivial) hst

end

/-- In a host without effects, to substitute a program that has a value for a name that is neither a function nor an
enabled unary operator is to bind the name to that value: the result, or the error, is the same, whatever the programs
are. References to the name in the program that is substituted keep the meaning that they have without the binding. -/
theorem Program.evaluate_substitute {host : Host σ} (hhost : host.IsPure) {env : Environment} {x : String}
    (hfunction : env.isFunction x = false) (hunary : env.enabledUnary? x = none) {vars : Variables} {r : Program}
    {v : Value} {a : σ} (hr : ((r.evaluate ⟨host, env, vars⟩).run.run a).1 = .ok v) (p : Program) :
    ((Program.substitute x r p).evaluate ⟨host, env, vars⟩).run.run a =
      (p.evaluate ⟨host, env, vars.bind x v⟩).run.run a :=
  ((Program.imitates_substitute p).evaluate (hhost.admits a)
    (Machine.answers_substitute hhost hfunction hunary (Prod.ext hr rfl))).run_eq rfl

/-- In `x || x`, the name is replaced by `x or y`, which is suspended and refers to that name again. -/
theorem Program.evaluate_substitute_disjunction :
    let host : Host Unit := .withBuiltins (pure 0) fun _ _ => pure .void
    let vars : Variables := fun name => if name = "x" then some (.string "a") else none
    let r : Program := [.suspend [.load "x", .suspend [.load "y"], .binary "or"]]
    let p : Program := [.load "x", .load "x", .binary "||"]
    host.IsPure ∧ Environment.standard.isFunction "x" = false ∧ Environment.standard.enabledUnary? "x" = none ∧
      ((r.evaluate ⟨host, .standard, vars⟩).run.run ()).1 = .ok (.ofBool true) ∧
      ((Program.substitute "x" r p).evaluate ⟨host, .standard, vars⟩).run.run () =
        (p.evaluate ⟨host, .standard, vars.bind "x" (.ofBool true)⟩).run.run () := by
  intro host vars r p
  have hhost : host.IsPure := Host.isPure_withBuiltins 0 (fun _ _ => .ok .void) fun _ _ => rfl
  have hfunction : Environment.standard.isFunction "x" = false := by decide +kernel
  have hunary : Environment.standard.enabledUnary? "x" = none := by decide +kernel
  have hx : Environment.standard.resolve? vars "x" = some (.string "a") := by
    have hlookup : Table.lookup "x" Environment.standard.functions = none := by decide +kernel
    rw [Environment.resolve?_eq_or hlookup hunary]
    rfl
  have hvalue : r.evaluate ⟨host, .standard, vars⟩ = pure (.ofBool true) := by
    have htruthy : (Value.string "a").isTruthy = true := by decide
    simp [r, Program.evaluate, Machine.run, Machine.step, hx, Stack.result, Stack.pop, Stack.popValue, Item.force,
      Machine.binaryOnItem, htruthy]
  have hr : ((r.evaluate ⟨host, .standard, vars⟩).run.run ()).1 = .ok (.ofBool true) := by
    rw [hvalue]
    rfl
  exact ⟨hhost, hfunction, hunary, hr, Program.evaluate_substitute hhost hfunction hunary hr p⟩

end Reckon
