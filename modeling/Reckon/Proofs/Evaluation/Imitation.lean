import Mathlib.Data.List.Forall2
import Reckon.Proofs.Evaluation.Outcomes
import Reckon.Proofs.Evaluation.Variables

/-!
# Programs that imitate each other

Two computations in one host are alike if from the same state they return what is alike, or fail with the same error,
and leave the same state (`Eval.Alike`). Items are alike if asking for their values is. A program that goes step by step
as another one does, with other steps only in place of references to names, imitates it (`Program.Imitates`): if what
stands for the references does what these do, then the two programs are alike in all they do
(`Program.Imitates.evaluate`). All this is said of the states that matter and of the errors that may come up.
-/

namespace Reckon

variable {σ α β α' β' : Type}

/-! ## Computations -/

/-- From a state of the kind `S` two computations return results that `R` relates, or they fail with the same error,
which is of the kind `E`; and they leave the same state, again of the kind `S`. -/
def Eval.Alike (S : σ → Prop) (E : EvalError → Prop) (R : α → β → Prop) (c : Eval σ α) (d : Eval σ β) : Prop :=
  ∀ s, S s → ∃ s', S s' ∧
    ((∃ a b, R a b ∧ c.run.run s = (.ok a, s') ∧ d.run.run s = (.ok b, s')) ∨
      ∃ e, E e ∧ c.run.run s = (.error e, s') ∧ d.run.run s = (.error e, s'))

section

variable {S : σ → Prop} {E : EvalError → Prop} {R : α → β → Prop} {R' : α' → β' → Prop}

namespace Eval.Alike

theorem pure {a : α} {b : β} (h : R a b) : Alike S E R (Pure.pure a) (Pure.pure b) :=
  fun s hs => ⟨s, hs, .inl ⟨a, b, h, rfl, rfl⟩⟩

theorem throw {e : EvalError} (h : E e) : Alike S E R (throw e) (throw e) :=
  fun s hs => ⟨s, hs, .inr ⟨e, h, rfl, rfl⟩⟩

theorem bind {c : Eval σ α} {d : Eval σ β} {f : α → Eval σ α'} {g : β → Eval σ β'} (h : Alike S E R c d)
    (hfg : ∀ a b, R a b → Alike S E R' (f a) (g b)) : Alike S E R' (c >>= f) (d >>= g) := by
  intro s hs
  obtain ⟨s', hs', ⟨a, b, hab, hc, hd⟩ | ⟨e, he, hc, hd⟩⟩ := h s hs
  · rw [run_bind_ok hc, run_bind_ok hd]
    exact hfg a b hab s' hs'
  · rw [run_bind_error hc, run_bind_error hd]
    exact ⟨s', hs', .inr ⟨e, he, rfl, rfl⟩⟩

/-- What is made of results that are alike is alike. -/
theorem map {c : Eval σ α} {d : Eval σ β} (h : Alike S E R c d) {f : α → α'} {g : β → β'}
    (hfg : ∀ a b, R a b → R' (f a) (g b)) : Alike S E R' (do return f (← c)) (do return g (← d)) :=
  h.bind fun a b hab => pure (hfg a b hab)

theorem ite {p : Prop} [Decidable p] {c c' : Eval σ α} {d d' : Eval σ β} (h : Alike S E R c d)
    (h' : Alike S E R c' d') : Alike S E R (if p then c else c') (if p then d else d') := by
  split
  · exact h
  · exact h'

/-- Computations with results that are equal leave the same result and the same state. -/
theorem run_eq {c d : Eval σ α} (h : Alike S E Eq c d) {s : σ} (hs : S s) : c.run.run s = d.run.run s := by
  obtain ⟨s', -, ⟨a, _, rfl, hc, hd⟩ | ⟨e, -, hc, hd⟩⟩ := h s hs
  · rw [hc, hd]
  · rw [hc, hd]

/-- The state that is left is of the kind of the states that matter. -/
theorem state {c : Eval σ α} {d : Eval σ β} (h : Alike S E R c d) {s : σ} (hs : S s) : S (c.run.run s).2 := by
  obtain ⟨s', hs', ⟨a, b, -, hc, -⟩ | ⟨e, -, hc, -⟩⟩ := h s hs
  · rwa [hc]
  · rwa [hc]

/-- The error with which a computation fails is of the kind that is allowed. -/
theorem error {c : Eval σ α} {d : Eval σ β} (h : Alike S E R c d) {s : σ} (hs : S s) {e : EvalError}
    (he : (c.run.run s).1 = .error e) : E e := by
  obtain ⟨s', -, ⟨a, b, -, hc, -⟩ | ⟨e', he', hc, -⟩⟩ := h s hs
  · rw [hc] at he
    cases he
  · rw [hc] at he
    cases he
    exact he'

end Eval.Alike

/-! ## Items -/

/-- Two items have the same value if they are asked for it. -/
def Item.Alike (S : σ → Prop) (E : EvalError → Prop) (x y : Item σ) : Prop :=
  Eval.Alike S E Eq x.force y.force

/-- Two stacks have items that are alike. -/
abbrev Stack.Alike (S : σ → Prop) (E : EvalError → Prop) : Stack σ → Stack σ → Prop :=
  List.Forall₂ (Item.Alike S E)

theorem Item.Alike.value (v : Value) : Item.Alike S E (.value v) (.value v) :=
  Eval.Alike.pure rfl

theorem Stack.Alike.pushed {c d : Eval σ Value} (h : Eval.Alike S E Eq c d) {s t : Stack σ}
    (hst : Stack.Alike S E s t) :
    Eval.Alike S E (Stack.Alike S E) (do return .value (← c) :: s) (do return .value (← d) :: t) := by
  refine h.map ?_
  rintro v _ rfl
  exact .cons (.value v) hst

/-- An error other than that of an undefined name. -/
def EvalError.IsOther : EvalError → Prop
  | .undefined _ => False
  | _ => True

/-- From states of the kind `S`, the functions of a host leave such states, and if they fail, the error is of the kind
`E`. That kind has every error of an evaluation other than that of an undefined name. -/
structure Host.Admits (S : σ → Prop) (E : EvalError → Prop) (host : Host σ) : Prop where
  run : ∀ site f args, Eval.Alike S E Eq (host.run site f args) (host.run site f args)
  errors : ∀ e : EvalError, e.IsOther → E e

variable {host : Host σ} {env : Environment} {vars vars' : Variables}

theorem Host.Admits.throw (h : host.Admits S E) {e : EvalError} (he : e.IsOther) :
    Eval.Alike S E R (throw e) (throw e) :=
  .throw (h.errors e he)

namespace Stack.Alike

variable {s t : Stack σ}

theorem pop (hst : Stack.Alike S E s t) (h : host.Admits S E) :
    Eval.Alike S E (fun a b => Item.Alike S E a.1 b.1 ∧ Stack.Alike S E a.2 b.2) s.pop t.pop := by
  cases hst with
  | nil => exact h.throw trivial
  | cons hxy hst => exact .pure ⟨hxy, hst⟩

theorem popValue (hst : Stack.Alike S E s t) (h : host.Admits S E) :
    Eval.Alike S E (fun a b => a.1 = b.1 ∧ Stack.Alike S E a.2 b.2) s.popValue t.popValue := by
  refine (hst.pop h).bind ?_
  rintro ⟨x, s⟩ ⟨y, t⟩ ⟨hxy, hst⟩
  exact hxy.map fun v w hvw => ⟨hvw, hst⟩

theorem result (hst : Stack.Alike S E s t) (h : host.Admits S E) : Eval.Alike S E Eq s.result t.result := by
  rcases hst with _ | ⟨hxy, _ | ⟨hxy', hst⟩⟩
  · exact h.throw trivial
  · exact hxy
  · rw [Stack.result, Stack.result, List.length_cons, List.length_cons, hst.length_eq]
    · exact h.throw trivial
    · simp
    · simp

theorem forceAll (hst : Stack.Alike S E s t) :
    Eval.Alike S E Eq (Machine.forceAll s) (Machine.forceAll t) := by
  induction hst with
  | nil => exact .pure rfl
  | cons hxy _ ih =>
    refine hxy.bind ?_
    rintro v _ rfl
    exact ih.map fun vs ws hvs => congrArg (v :: ·) hvs

end Stack.Alike

/-! ## Steps -/

namespace Host.Admits

theorem invoke (h : host.Admits S E) (site : Site) (f : Function) (args : List Value) :
    Eval.Alike S E Eq (host.invoke site f args) (host.invoke site f args) :=
  .ite (h.run site f args) (h.throw trivial)

theorem applyOperator (h : host.Admits S E) (kind : OperatorKind) (op : String) (args : List Value) :
    Eval.Alike S E Eq (Machine.applyOperator host env kind op args) (Machine.applyOperator host env kind op args) := by
  rw [Machine.applyOperator]
  cases env.operator? kind op with
  | none => exact h.throw trivial
  | some f => exact h.invoke .operator f args

theorem call (h : host.Admits S E) (callee : Value) (args : List Value) :
    Eval.Alike S E Eq (Machine.call host callee args) (Machine.call host callee args) := by
  cases callee with
  | function f => exact h.invoke .call f args
  | _ => exact h.throw trivial

theorem binaryOnItem (h : host.Admits S E) (op : String) (v : Value) {x y : Item σ} (hxy : Item.Alike S E x y) :
    Eval.Alike S E Eq (Machine.binaryOnItem ⟨host, env, vars⟩ op v x)
      (Machine.binaryOnItem ⟨host, env, vars'⟩ op v y) := by
  have hright : Eval.Alike S E Eq (do return Value.ofBool (← x.force).isTruthy)
      (do return Value.ofBool (← y.force).isTruthy) := hxy.map fun v w hvw => hvw ▸ rfl
  refine .ite (.ite hright (.pure rfl)) (.ite (.ite (.pure rfl) hright) (hxy.bind ?_))
  rintro w _ rfl
  exact .ite (.pure rfl) (.ite (.pure rfl) (h.applyOperator .binary op [v, w]))

theorem ternaryOnItems (h : host.Admits S E) (op : String) (u : Value) {x x' y y' : Item σ}
    (hx : Item.Alike S E x x') (hy : Item.Alike S E y y') :
    Eval.Alike S E Eq (Machine.ternaryOnItems ⟨host, env, vars⟩ op u x y)
      (Machine.ternaryOnItems ⟨host, env, vars'⟩ op u x' y') := by
  refine .ite ?_ (hx.bind ?_)
  · cases u.isTruthy
    · exact hy
    · exact hx
  · rintro v _ rfl
    refine hy.bind ?_
    rintro w _ rfl
    exact .ite (.pure rfl) (h.applyOperator .ternary op [u, v, w])

end Host.Admits

/-- A step that does not depend on variables: it is no reference to a name, and it suspends no program. -/
def Instruction.IsClosed : Instruction → Prop
  | .load _ | .suspend _ => False
  | _ => True

/-- On stacks that are alike, a step that does not depend on the variables does the same with any variables. -/
theorem Machine.step_alike (h : host.Admits S E) {i : Instruction} (hi : i.IsClosed) {s t : Stack σ}
    (hst : Stack.Alike S E s t) :
    Eval.Alike S E (Stack.Alike S E) (Machine.step ⟨host, env, vars⟩ s i) (Machine.step ⟨host, env, vars'⟩ t i) := by
  cases i with
  | load _ | suspend _ => exact hi.elim
  | number _ | string _ =>
    rw [Machine.step, Machine.step]
    exact .pure (.cons (.value _) hst)
  | unary op =>
    rw [Machine.step, Machine.step]
    refine (hst.popValue h).bind ?_
    rintro ⟨v, s⟩ ⟨_, t⟩ ⟨rfl, hst⟩
    exact Stack.Alike.pushed (h.applyOperator .unary op [v]) hst
  | binary op =>
    rw [Machine.step, Machine.step]
    refine (hst.pop h).bind ?_
    rintro ⟨x, s⟩ ⟨y, t⟩ ⟨hxy, hst⟩
    refine (hst.popValue h).bind ?_
    rintro ⟨v, s⟩ ⟨_, t⟩ ⟨rfl, hst⟩
    exact Stack.Alike.pushed (h.binaryOnItem op v hxy) hst
  | ternary op =>
    rw [Machine.step, Machine.step]
    refine (hst.pop h).bind ?_
    rintro ⟨y, s⟩ ⟨y', t⟩ ⟨hy, hst⟩
    refine (hst.pop h).bind ?_
    rintro ⟨x, s⟩ ⟨x', t⟩ ⟨hx, hst⟩
    refine (hst.popValue h).bind ?_
    rintro ⟨v, s⟩ ⟨_, t⟩ ⟨rfl, hst⟩
    exact Stack.Alike.pushed (h.ternaryOnItems op v hx hy) hst
  | call argCount =>
    rw [Machine.step, Machine.step, hst.length_eq]
    refine .ite (h.throw trivial) ?_
    have hargs : Stack.Alike S E (s.take argCount).reverse (t.take argCount).reverse :=
      List.rel_reverse (List.forall₂_take argCount hst)
    refine hargs.forceAll.bind ?_
    rintro vs _ rfl
    have hbelow : Stack.Alike S E (s.drop argCount) (t.drop argCount) := List.forall₂_drop argCount hst
    refine (hbelow.popValue h).bind ?_
    rintro ⟨callee, s⟩ ⟨_, t⟩ ⟨rfl, hst⟩
    exact Stack.Alike.pushed (h.call callee vs) hst
  | member field =>
    rw [Machine.step, Machine.step]
    refine (hst.popValue h).map ?_
    rintro ⟨v, s⟩ ⟨_, t⟩ ⟨rfl, hst⟩
    exact .cons (.value _) hst

/-- On stacks that are alike, a name that stands for the same with both variables is loaded alike. -/
theorem Machine.load_alike {n : String} (hn : env.resolve? vars n = env.resolve? vars' n)
    (hundefined : env.resolve? vars' n = none → E (.undefined n)) {s t : Stack σ} (hst : Stack.Alike S E s t) :
    Eval.Alike S E (Stack.Alike S E) (Machine.run ⟨host, env, vars⟩ s [.load n])
      (Machine.step ⟨host, env, vars'⟩ t (.load n)) := by
  have hrun : Machine.run ⟨host, env, vars⟩ s [.load n] = Machine.step ⟨host, env, vars⟩ s (.load n) := by
    simp [Machine.run]
  rw [hrun, Machine.step, Machine.step, hn]
  cases hv : env.resolve? vars' n with
  | none => exact .throw (hundefined hv)
  | some v => exact .pure (.cons (.value v) hst)

/-! ## Programs -/

/-- A program goes step by step as another one does, also where programs are suspended, and in place of references to
names it has steps that `L` allows for the name. -/
inductive Program.Imitates (L : Program → String → Prop) : Program → Program → Prop
  | nil : Imitates L [] []
  | closed {i : Instruction} {p q : Program} (hi : i.IsClosed) (h : Imitates L q p) : Imitates L (i :: q) (i :: p)
  | load {n : String} {r p q : Program} (hr : L r n) (h : Imitates L q p) : Imitates L (r ++ q) (.load n :: p)
  | suspend {body body' p q : Program} (hbody : Imitates L body' body) (h : Imitates L q p) :
    Imitates L (.suspend body' :: q) (.suspend body :: p)

/-- What stands in place of references to names does, on stacks that are alike, what these do with other variables. -/
def Machine.Answers (S : σ → Prop) (E : EvalError → Prop) (host : Host σ) (env : Environment) (vars vars' : Variables)
    (L : Program → String → Prop) : Prop :=
  ∀ r n, L r n → ∀ s t, Stack.Alike S E s t →
    Eval.Alike S E (Stack.Alike S E) (Machine.run ⟨host, env, vars⟩ s r) (Machine.step ⟨host, env, vars'⟩ t (.load n))

namespace Program.Imitates

variable {L : Program → String → Prop} {p q : Program}

/-- On stacks that are alike, a program does what the one does that it imitates. -/
theorem run (h : host.Admits S E) (hL : Machine.Answers S E host env vars vars' L) (hpq : Imitates L q p) :
    ∀ {s t : Stack σ}, Stack.Alike S E s t →
      Eval.Alike S E (Stack.Alike S E) (Machine.run ⟨host, env, vars⟩ s q) (Machine.run ⟨host, env, vars'⟩ t p) := by
  induction hpq with
  | nil =>
    intro s t hst
    rw [Machine.run, Machine.run]
    exact .pure hst
  | closed hi _ ih =>
    intro s t hst
    rw [Machine.run, Machine.run]
    exact (Machine.step_alike h hi hst).bind fun s t hst => ih hst
  | load hr _ ih =>
    intro s t hst
    rw [Machine.run_append, Machine.run]
    exact (hL _ _ hr s t hst).bind fun s t hst => ih hst
  | suspend _ _ ihBody ih =>
    -- whenever they are asked for their values, suspended programs start on the empty stack
    intro s t hst
    rw [Machine.run, Machine.run, Machine.step, Machine.step, pure_bind, pure_bind]
    exact ih (.cons ((ihBody .nil).bind fun s t hst => hst.result h) hst)

/-- A program has the value, or the error, of the one that it imitates. -/
theorem evaluate (h : host.Admits S E) (hL : Machine.Answers S E host env vars vars' L) (hpq : Imitates L q p) :
    Eval.Alike S E Eq (q.evaluate ⟨host, env, vars⟩) (p.evaluate ⟨host, env, vars'⟩) :=
  (hpq.run h hL .nil).bind fun _ _ hst => hst.result h

end Program.Imitates

/-! ## Programs and themselves -/

section

variable {L : Program → String → Prop}

mutual

theorem Program.Imitates.step_self : (i : Instruction) → (∀ n ∈ i.names, L [.load n] n) → ∀ {p q : Program},
    Imitates L q p → Imitates L (i :: q) (i :: p)
  | .load n, h, _, _, hpq => .load (h n (.head _)) hpq
  | .suspend body, h, _, _, hpq => .suspend (Program.Imitates.self body h) hpq
  | .number _, _, _, _, hpq | .string _, _, _, _, hpq | .unary _, _, _, _, hpq | .binary _, _, _, _, hpq
  | .ternary _, _, _, _, hpq | .call _, _, _, _, hpq | .member _, _, _, _, hpq => .closed trivial hpq

/-- A program imitates itself. -/
theorem Program.Imitates.self : (p : List Instruction) → (∀ n ∈ Program.names p, L [.load n] n) → Imitates L p p
  | [], _ => .nil
  | i :: rest, h =>
    Program.Imitates.step_self i (fun n hn => h n (List.mem_append_left _ hn))
      (Program.Imitates.self rest fun n hn => h n (List.mem_append_right _ hn))

end

end

/-- A program leaves states that matter and fails with errors that are allowed, if it is so for the names that it
refers to. -/
theorem Machine.run_alike (h : host.Admits S E) {p : Program}
    (hundefined : ∀ n ∈ Program.names p, env.resolve? vars n = none → E (.undefined n)) :
    Eval.Alike S E (Stack.Alike S E) (Machine.run ⟨host, env, vars⟩ [] p) (Machine.run ⟨host, env, vars⟩ [] p) := by
  have hself : Program.Imitates (fun r n => r = [.load n] ∧ n ∈ Program.names p) p p :=
    .self p fun n hn => ⟨rfl, hn⟩
  refine hself.run h ?_ .nil
  rintro _ n ⟨rfl, hn⟩ s t hst
  exact Machine.load_alike rfl (hundefined n hn) hst

theorem Program.evaluate_alike (h : host.Admits S E) {p : Program}
    (hundefined : ∀ n ∈ Program.names p, env.resolve? vars n = none → E (.undefined n)) :
    Eval.Alike S E Eq (p.evaluate ⟨host, env, vars⟩) (p.evaluate ⟨host, env, vars⟩) :=
  (Machine.run_alike h hundefined).bind fun _ _ hst => hst.result h

end

end Reckon
