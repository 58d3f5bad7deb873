import Mathlib.Data.List.Forall2
import Reckon.Proofs.Evaluation.Hosts
import Reckon.Simplify

/-!
# Simplification preserves meaning

In a host whose operators are functions of their arguments (`Host.Computes`), an operator has the same result when a
program is simplified as when it is evaluated, and what is known when it is simplified is still so when it is evaluated
(`Environment.Determines`). Then the steps on the stack of operands do what the steps on the stack of items do: an
operand with a value leaves an item with that value (`Operand.Sound`), and the operands' steps, one after the other,
run as the steps they come from (`Simplifier.step_sound`, `Simplifier.run_sound`). So the simplified program evaluates
as the program does and makes the same calls (`Program.evaluate_simplify`).
-/

namespace Reckon

variable {σ : Type}

/-! ## Names -/

/-- The variables are what is known of them, and they do not hide a constant that is not hidden as far as is known. -/
structure Environment.Determines (env : Environment) (known vars : Variables) : Prop where
  agrees : ∀ name v, known name = some v → vars name = some v
  constants : ∀ name, Table.has name env.constants = true → known name = none → vars name = none

/-- What is known of a name is so. -/
theorem Environment.Determines.resolve? {env : Environment} {known vars : Variables} (h : env.Determines known vars)
    {name : String} {v : Value} (hv : env.resolve? known name = some v) : env.resolve? vars name = some v := by
  simp only [Environment.resolve?] at hv ⊢
  split
  · next f hf => simpa only [hf] using hv
  · next hf =>
    simp only [hf] at hv
    split
    · next g hg => simpa only [hg] using hv
    · next hg =>
      simp only [hg] at hv
      cases hknown : known name with
      | some w =>
        rw [hknown] at hv
        rw [h.agrees name w hknown]
        exact hv
      | none =>
        rw [hknown] at hv
        have hconstant : Table.has name env.constants = true := by
          obtain ⟨l, hl, _⟩ := Option.map_eq_some_iff.1 hv
          rw [Table.has, hl]
          rfl
        rw [h.constants name hconstant hknown]
        exact hv

/-! ## Operations -/

section Operations

variable {env : Environment} {meaning : Function → List Value → Except EvalError Value}

/-- The result of an operator. -/
def Environment.operate (env : Environment) (meaning : Function → List Value → Except EvalError Value)
    (kind : OperatorKind) (op : String) (args : List Value) : Except EvalError Value :=
  match env.operator? kind op with
  | some f =>
    if f.arity.accepts args.length then meaning f args else .error (.argumentCount f.arity args.length)
  | none => .error (.unknownOperator kind op)

/-- The result of a step that takes these values and nothing else. -/
def Environment.operate? (env : Environment) (meaning : Function → List Value → Except EvalError Value) :
    Instruction → List Value → Option (Except EvalError Value)
  | .unary op, [x] => some (env.operate meaning .unary op [x])
  | .binary op, [x, y] =>
    some <| if op = "and" then .ok (.ofBool (x.isTruthy && y.isTruthy))
      else if op = "or" then .ok (.ofBool (x.isTruthy || y.isTruthy))
      else env.operate meaning .binary op [x, y]
  | .ternary op, [x, y, z] =>
    some <| if op = "?" then .ok (x.choose y z) else env.operate meaning .ternary op [x, y, z]
  | .member field, [x] => some (.ok (x.field field))
  | _, _ => none

theorem Host.Computes.applyOperator {host : Host σ} (h : host.Computes env meaning) (kind : OperatorKind)
    (op : String) (args : List Value) :
    Machine.applyOperator host env kind op args = Eval.ofResult (env.operate meaning kind op args) := by
  rw [Machine.applyOperator, Environment.operate]
  cases hf : env.operator? kind op with
  | none => rfl
  | some f =>
    simp only [Host.invoke]
    split
    · exact h kind op f hf args
    · rfl

theorem Host.Computes.applyBinary {host : Host σ} (h : host.Computes env meaning) (op : String) (x y : Value) :
    some (Machine.applyBinary host env op x y) = (env.operate? meaning (.binary op) [x, y]).map Eval.ofResult := by
  rw [Machine.applyBinary, Environment.operate?, Option.map_some]
  split
  · rfl
  · split
    · rfl
    · rw [h.applyOperator]

theorem Host.Computes.applyTernary {host : Host σ} (h : host.Computes env meaning) (op : String) (x y z : Value) :
    some (Machine.applyTernary host env op x y z) =
      (env.operate? meaning (.ternary op) [x, y, z]).map Eval.ofResult := by
  rw [Machine.applyTernary, Environment.operate?, Option.map_some]
  split
  · rfl
  · rw [h.applyOperator]

/-- What folding applies to values is the operation. -/
theorem Simplifier.operation?_eq {m : Simplifier σ} (h : m.host.Computes m.env meaning) (i : Instruction)
    (vs : List Value) : m.operation? i vs = (m.env.operate? meaning i vs).map Eval.ofResult := by
  unfold Simplifier.operation?
  split
  · rw [Machine.applyUnary, h.applyOperator]
    rfl
  · exact h.applyBinary _ _ _
  · exact h.applyTernary _ _ _ _
  · rfl
  · next hunary hbinary hternary hmember =>
    unfold Environment.operate?
    split <;> first | rfl | grind

/-! ## Steps -/

/-- The items have these values. -/
def Items (items : List (Item σ)) (vs : List Value) : Prop :=
  List.Forall₂ (fun item v => item.force = pure v) items vs

/-- An operator applied to a value and an item is applied to the item's value. -/
theorem Machine.binaryOnItem_eq {m : Machine σ} {op : String} {x y : Value} {item : Item σ}
    (hy : item.force = pure y) : m.binaryOnItem op x item = Machine.applyBinary m.host m.env op x y := by
  simp only [Machine.binaryOnItem, Machine.applyBinary, hy, pure_bind]
  by_cases hand : op = "and"
  · rw [if_pos hand, if_pos hand]
    cases x.isTruthy <;> rfl
  · rw [if_neg hand, if_neg hand]
    by_cases hor : op = "or"
    · rw [if_pos hor, if_pos hor]
      cases x.isTruthy <;> rfl
    · rw [if_neg hor, if_neg hor]

theorem Machine.ternaryOnItems_eq {m : Machine σ} {op : String} {x y z : Value} {item item' : Item σ}
    (hy : item.force = pure y) (hz : item'.force = pure z) :
    m.ternaryOnItems op x item item' = Machine.applyTernary m.host m.env op x y z := by
  simp only [Machine.ternaryOnItems, Machine.applyTernary, Value.choose, hy, hz, pure_bind]
  split
  · split
    · exact hy
    · exact hz
  · rfl

/-- A step whose operation has a result pushes the result. -/
theorem Machine.step_of_operate? {m : Machine σ} (h : m.host.Computes m.env meaning) {i : Instruction}
    {items : List (Item σ)} {vs : List Value} {r : Except EvalError Value} (hi : Items items vs)
    (hr : m.env.operate? meaning i vs = some r) (s : Stack σ) :
    m.step (items.reverse ++ s) i = do return .value (← Eval.ofResult r) :: s := by
  unfold Environment.operate? at hr
  split at hr
  · next op x =>
    obtain _ | ⟨hx, _ | _⟩ := hi
    cases hr
    simp [Machine.step, Stack.popValue, Stack.pop, hx, Machine.applyUnary, h.applyOperator]
  · next op x y =>
    obtain _ | ⟨hx, _ | ⟨hy, _ | _⟩⟩ := hi
    have happly := h.applyBinary op x y
    rw [Environment.operate?, hr, Option.map_some] at happly
    simp [Machine.step, Stack.popValue, Stack.pop, hx, Machine.binaryOnItem_eq hy, Option.some.inj happly]
  · next op x y z =>
    obtain _ | ⟨hx, _ | ⟨hy, _ | ⟨hz, _ | _⟩⟩⟩ := hi
    have happly := h.applyTernary op x y z
    rw [Environment.operate?, hr, Option.map_some] at happly
    simp [Machine.step, Stack.popValue, Stack.pop, hx, Machine.ternaryOnItems_eq hy hz, Option.some.inj happly]
  · next field x =>
    obtain _ | ⟨hx, _ | _⟩ := hi
    cases hr
    simp [Machine.step, Stack.popValue, Stack.pop, hx]
    rfl
  · cases hr

/-! ## Operands -/

/-- Running the steps of an operand with a value leaves an item with that value, whatever is on the stack. -/
def Operand.Sound (m : Machine σ) (x : Operand) : Prop :=
  ∀ v, x.value = some v → ∃ item : Item σ, item.force = pure v ∧ ∀ s, m.run s x.steps = pure (item :: s)

/-- What the operands of a stack, the topmost one first, are worth. -/
def Operand.AllSound (m : Machine σ) (stack : List Operand) : Prop :=
  ∀ x ∈ stack, x.Sound m

theorem Operand.allSound_nil (m : Machine σ) : Operand.AllSound m [] :=
  fun _ h => nomatch h

theorem Operand.sound_unknown {m : Machine σ} (steps : Program) : (Operand.unknown steps).Sound m :=
  fun _ h => nomatch h

@[simp] theorem Operand.allSteps_nil : Operand.allSteps [] = [] := rfl

@[simp] theorem Operand.allSteps_cons (x : Operand) (xs : List Operand) :
    Operand.allSteps (x :: xs) = x.steps ++ Operand.allSteps xs := rfl

@[simp] theorem Operand.allSteps_append (xs ys : List Operand) :
    Operand.allSteps (xs ++ ys) = Operand.allSteps xs ++ Operand.allSteps ys := by
  rw [Operand.allSteps, List.flatMap_append]
  rfl

theorem Operand.allSteps_reverse (stack : List Operand) (n : Nat) : Operand.allSteps stack.reverse =
    Operand.allSteps (stack.drop n).reverse ++ Operand.allSteps (stack.take n).reverse := by
  rw [← Operand.allSteps_append, ← List.reverse_append, List.take_append_drop]

theorem Operand.allSteps_push (x : Operand) (stack : List Operand) :
    Operand.allSteps (x :: stack).reverse = Operand.allSteps stack.reverse ++ x.steps := by
  simp

/-- The step that pushes a literal. -/
theorem Machine.run_ofLiteral (m : Machine σ) (l : Literal) (s : Stack σ) :
    m.run s [.ofLiteral l] = pure (.value (.ofLiteral l) :: s) := by
  cases l <;> simp [Machine.run, Instruction.ofLiteral, Machine.step, Value.ofLiteral]

/-- A program that is a literal is the step that pushes it. -/
theorem Program.literal?_eq_some_iff {p : Program} {l : Literal} : p.literal? = some l ↔ p = [.ofLiteral l] := by
  constructor
  · intro h
    unfold Program.literal? at h
    split at h
    · next i => cases i <;> cases h <;> rfl
    · cases h
  · rintro rfl
    cases l <;> rfl

/-- A program that is a literal leaves an item with that value when it is suspended. -/
theorem Operand.exists_suspended_literal (m : Machine σ) {body : Program} {l : Literal} (h : body.literal? = some l) :
    ∃ item : Item σ, item.force = pure (.ofLiteral l) ∧ ∀ s, m.run s [.suspend body] = pure (item :: s) := by
  have hbody : body = [.ofLiteral l] := Program.literal?_eq_some_iff.1 h
  refine ⟨.suspended (do (← m.run [] body).result), ?_, fun s => by simp [Machine.run, Machine.step]⟩
  rw [Item.force, hbody, m.run_ofLiteral, pure_bind]
  rfl

theorem Value.ofLiteral_of_literal? {v : Value} {l : Literal} (h : v.literal? = some l) : Value.ofLiteral l = v := by
  cases v <;> cases h <;> rfl

/-- A known operand runs as the steps that compute its value do. -/
theorem Operand.run_known {m : Machine σ} {o : Options} {v : Value} {steps : Program}
    (h : ∀ s, m.run s steps = pure (.value v :: s)) (s : Stack σ) :
    m.run s (Operand.known o v steps).steps = pure (.value v :: s) := by
  unfold Operand.known
  split
  · next l hl =>
    rw [m.run_ofLiteral, Value.ofLiteral_of_literal? (Option.eq_some_of_filter_eq_some hl)]
  · exact h s

theorem Operand.value_known (o : Options) (v : Value) (steps : Program) :
    (Operand.known o v steps).value = some v := by
  unfold Operand.known
  split <;> rfl

theorem Operand.sound_known {m : Machine σ} {o : Options} {v : Value} {steps : Program}
    (h : ∀ s, m.run s steps = pure (.value v :: s)) : (Operand.known o v steps).Sound m := by
  intro w hw
  rw [Operand.value_known] at hw
  cases hw
  exact ⟨.value v, rfl, Operand.run_known h⟩

/-- Operands with values leave items with these values. -/
theorem Operand.AllSound.exists_items {m : Machine σ} : {xs : List Operand} → {vs : List Value} →
    Operand.AllSound m xs → xs.mapM Operand.value = some vs →
    ∃ items, Items items vs ∧ ∀ s, m.run s (Operand.allSteps xs) = pure (items.reverse ++ s)
  | [], vs, _, hv => by
    cases hv
    exact ⟨[], .nil, fun s => by simp [Machine.run]⟩
  | x :: xs, vs, hx, hv => by
    rw [List.mapM_cons] at hv
    obtain ⟨v, hxv, hv⟩ := Option.bind_eq_some_iff.1 hv
    obtain ⟨vs, hvs, hv⟩ := Option.bind_eq_some_iff.1 hv
    cases hv
    obtain ⟨item, hitem, hrun⟩ := hx x List.mem_cons_self v hxv
    obtain ⟨items, hitems, hruns⟩ :=
      Operand.AllSound.exists_items (fun y hy => hx y (List.mem_cons_of_mem x hy)) hvs
    refine ⟨item :: items, .cons hitem hitems, fun s => ?_⟩
    rw [Operand.allSteps_cons, m.run_append, hrun, pure_bind, hruns]
    simp

/-- What an operation and its operands are folded to. -/
def Operand.folded (env : Environment) (meaning : Function → List Value → Except EvalError Value) (o : Options)
    (i : Instruction) (operands : List Operand) : Operand :=
  match (operands.mapM Operand.value).bind (env.operate? meaning i) with
  | some (.ok v) => .known o v (Operand.allSteps operands ++ [i])
  | _ => .unknown (Operand.allSteps operands ++ [i])

/-- Folding leaves the host alone. -/
theorem Simplifier.fold_eq {m : Simplifier σ} (h : m.host.Computes m.env meaning) (i : Instruction)
    (operands : List Operand) : m.fold i operands = pure (.folded m.env meaning m.options i operands) := by
  rw [Simplifier.fold, Operand.folded]
  cases operands.mapM Operand.value with
  | none => rfl
  | some vs =>
    rw [Option.bind_some, Option.bind_some, Simplifier.operation?_eq h]
    cases m.env.operate? meaning i vs with
    | none => rfl
    | some r => cases r <;> rfl

end Operations

/-! ## Simplifiers -/

section Simplifiers

variable {τ : Type} {m : Simplifier σ} {k : Machine τ}
  {meaning : Function → List Value → Except EvalError Value}

/-- A program that is simplified by `m` is evaluated by `k`. -/
structure Simplifier.Foresees (m : Simplifier σ) (k : Machine τ)
    (meaning : Function → List Value → Except EvalError Value) : Prop where
  env : k.env = m.env
  simplifies : m.host.Computes m.env meaning
  evaluates : k.host.Computes k.env meaning
  names : k.env.Determines m.known k.vars

/-- One step is run as a program. -/
theorem Simplifier.run_step (stack : List Operand) (i : Instruction) : m.run stack [i] = m.step stack i := by
  rw [Simplifier.run]
  simp only [Simplifier.run, bind_pure]

/-- One more step behind a program. -/
theorem Simplifier.run_concat {p : Program} {stack stack' : List Operand} (h : m.run stack p = pure stack')
    (i : Instruction) : m.run stack (p ++ [i]) = m.step stack' i := by
  rw [Simplifier.run_append, h, pure_bind, Simplifier.run_step]

/-- The operand of steps that have been folded does what the steps do. -/
theorem Simplifier.fold_sound (h : m.Foresees k meaning) {operands : List Operand} (hx : Operand.AllSound k operands)
    (i : Instruction) : ∃ x : Operand, m.fold i operands = pure x ∧ x.Sound k ∧
      ∀ s, k.run s x.steps = k.run s (Operand.allSteps operands ++ [i]) := by
  refine ⟨_, Simplifier.fold_eq h.simplifies i operands, ?_⟩
  rw [Operand.folded]
  split
  · next v hv =>
    obtain ⟨vs, hvs, hr⟩ := Option.bind_eq_some_iff.1 hv
    obtain ⟨items, hitems, hrun⟩ := hx.exists_items hvs
    have hpush : ∀ s, k.run s (Operand.allSteps operands ++ [i]) = pure (.value v :: s) := by
      intro s
      rw [k.run_append, hrun, pure_bind, Machine.run, Machine.step_of_operate? h.evaluates hitems (h.env ▸ hr) s]
      simp [Eval.ofResult, Machine.run]
    refine ⟨Operand.sound_known hpush, fun s => ?_⟩
    rw [Operand.run_known hpush, hpush]
  · exact ⟨Operand.sound_unknown _, fun _ => rfl⟩

/-- The stack after steps does what the stack before them and the steps do. -/
structure Simplifier.Covers (k : Machine τ) (before : List Operand) (steps : Program) (after : List Operand) :
    Prop where
  sound : Operand.AllSound k after
  runs : ∀ s, k.run s (Operand.allSteps after.reverse) = k.run s (Operand.allSteps before.reverse ++ steps)

theorem Operand.AllSound.cons {x : Operand} {xs : List Operand} (hx : x.Sound k) (hxs : Operand.AllSound k xs) :
    Operand.AllSound k (x :: xs) := by
  intro y hy
  rcases List.mem_cons.1 hy with rfl | hy
  · exact hx
  · exact hxs y hy

/-- An operand that does what a step and the topmost operands do takes their place. -/
theorem Simplifier.Covers.ofTop {before : List Operand} (hbefore : Operand.AllSound k before) {x : Operand} {n : Nat}
    {i : Instruction} (hx : x.Sound k)
    (hrun : ∀ s, k.run s x.steps = k.run s (Operand.allSteps (before.take n).reverse ++ [i])) :
    Simplifier.Covers k before [i] (x :: before.drop n) where
  sound := .cons hx fun y hy => hbefore y (List.mem_of_mem_drop hy)
  runs s := by
    rw [Operand.allSteps_push, Operand.allSteps_reverse before n, List.append_assoc, k.run_append, k.run_append]
    simp only [hrun]

/-- An operand that does what a step does is put on top. -/
theorem Simplifier.Covers.push {before : List Operand} (hbefore : Operand.AllSound k before) {x : Operand}
    {i : Instruction} (hx : x.Sound k) (hrun : ∀ s, k.run s x.steps = k.run s [i]) :
    Simplifier.Covers k before [i] (x :: before) :=
  .ofTop (n := 0) hbefore hx hrun

theorem Simplifier.foldTop_sound (h : m.Foresees k meaning) {before : List Operand}
    (hbefore : Operand.AllSound k before) (i : Instruction) (n : Nat) :
    ∃ after, m.foldTop i n before = pure after ∧ Simplifier.Covers k before [i] after := by
  have htop : Operand.AllSound k (before.take n).reverse :=
    fun x hx => hbefore x (List.mem_of_mem_take (List.mem_reverse.1 hx))
  obtain ⟨x, hfold, hx, hrun⟩ := Simplifier.fold_sound h htop i
  refine ⟨x :: before.drop n, ?_, .ofTop hbefore hx hrun⟩
  rw [Simplifier.foldTop, hfold, pure_bind]

mutual

theorem Simplifier.step_sound (h : m.Foresees k meaning) {before : List Operand} (hbefore : Operand.AllSound k before) :
    (i : Instruction) → ∃ after, m.step before i = pure after ∧ Simplifier.Covers k before [i] after
  | .number v => by
    have hrun : ∀ s, k.run s [.number v] = pure (.value (.number v) :: s) := k.run_ofLiteral (.number v)
    refine ⟨_, by rw [Simplifier.step], .push hbefore (Operand.sound_known hrun) fun s => ?_⟩
    rw [Operand.run_known hrun, hrun]
  | .string v => by
    have hrun : ∀ s, k.run s [.string v] = pure (.value (.string v) :: s) := k.run_ofLiteral (.string v)
    refine ⟨_, by rw [Simplifier.step], .push hbefore (Operand.sound_known hrun) fun s => ?_⟩
    rw [Operand.run_known hrun, hrun]
  | .load name => by
    rw [Simplifier.step]
    cases hv : m.env.resolve? m.known name with
    | none => exact ⟨_, rfl, .push hbefore (Operand.sound_unknown _) fun _ => rfl⟩
    | some v =>
      have hrun : ∀ s, k.run s [.load name] = pure (.value v :: s) := by
        intro s
        simp [Machine.run, Machine.step, h.names.resolve? (h.env ▸ hv)]
      refine ⟨_, rfl, .push hbefore (Operand.sound_known hrun) fun s => ?_⟩
      rw [Operand.run_known hrun, hrun]
  | .unary op => by
    rw [Simplifier.step]
    exact Simplifier.foldTop_sound h hbefore (.unary op) 1
  | .binary op => by
    rw [Simplifier.step]
    exact Simplifier.foldTop_sound h hbefore (.binary op) 2
  | .ternary op => by
    rw [Simplifier.step]
    exact Simplifier.foldTop_sound h hbefore (.ternary op) 3
  | .member field => by
    rw [Simplifier.step]
    exact Simplifier.foldTop_sound h hbefore (.member field) 1
  | .call argCount => by
    rw [Simplifier.step]
    exact ⟨_, rfl, .ofTop hbefore (Operand.sound_unknown _) fun _ => rfl⟩
  | .suspend body => by
    obtain ⟨operands, hbody, hcovers⟩ := Simplifier.run_sound h (Operand.allSound_nil k) body
    have hsuspend : ∀ s, k.run s [.suspend (Operand.allSteps operands.reverse)] = k.run s [.suspend body] := by
      intro s
      simp [Machine.run, Machine.step, hcovers.runs]
    refine ⟨_, by rw [Simplifier.step, hbody, pure_bind], .push hbefore ?_ hsuspend⟩
    intro v hv
    obtain ⟨l, hl, rfl⟩ := Option.map_eq_some_iff.1 hv
    exact Operand.exists_suspended_literal k hl

theorem Simplifier.run_sound (h : m.Foresees k meaning) {before : List Operand} (hbefore : Operand.AllSound k before) :
    (p : List Instruction) → ∃ after, m.run before p = pure after ∧ Simplifier.Covers k before p after
  | [] => ⟨before, by rw [Simplifier.run], hbefore, fun s => by rw [List.append_nil]⟩
  | i :: rest => by
    obtain ⟨middle, hstep, hmiddle⟩ := Simplifier.step_sound h hbefore i
    obtain ⟨after, hrun, hafter⟩ := Simplifier.run_sound h hmiddle.sound rest
    refine ⟨after, by rw [Simplifier.run, hstep, pure_bind, hrun], hafter.sound, fun s => ?_⟩
    rw [hafter.runs, k.run_append, hmiddle.runs, ← k.run_append, List.append_assoc]
    rfl

end

/-- Simplification leaves the host alone, and what is left of a program does what the program does. -/
theorem Program.simplify_sound (h : m.Foresees k meaning) (p : Program) :
    ∃ q, p.simplify m = pure q ∧ ∀ s, k.run s q = k.run s p := by
  obtain ⟨operands, hrun, hcovers⟩ := Simplifier.run_sound h (Operand.allSound_nil _) p
  refine ⟨Operand.allSteps operands.reverse, ?_, hcovers.runs⟩
  rw [Program.simplify, hrun, pure_bind]

end Simplifiers

/-- Programs that run alike on the empty stack have the same value. -/
theorem Program.evaluate_congr {m : Machine σ} {p q : Program} (h : m.run [] p = m.run [] q) :
    p.evaluate m = q.evaluate m := by
  rw [Program.evaluate, Program.evaluate, h]

/-- Simplification leaves the host alone, and the simplified program has the same value or error as the program, leaves
the host in the same state, and makes the same calls. Calls name numbers of arguments without a limit; with 64 bits
simplification is the same but for a call that names the greatest of them, where it fails (`Reckon.Sizes`,
`Program.simplifySized_spec`). -/
theorem Program.evaluate_simplify (host : Host σ) (env : Environment) (o : Options) (known vars : Variables)
    (meaning : Function → List Value → Except EvalError Value) (hhost : host.Computes env meaning)
    (hvars : env.Determines known vars) (p : Program) (s : σ) :
    ∃ q, (Program.simplify ⟨host, env, o, known⟩ p).run s = (q, s) ∧
      q.evaluate ⟨host, env, vars⟩ = p.evaluate ⟨host, env, vars⟩ ∧
      q.evaluate ⟨host.logged, env, vars⟩ = p.evaluate ⟨host.logged, env, vars⟩ := by
  let m : Simplifier σ := ⟨host, env, o, known⟩
  have hplain : m.Foresees (⟨host, env, vars⟩ : Machine σ) meaning := ⟨rfl, hhost, hhost, hvars⟩
  have hlogged : m.Foresees (⟨host.logged, env, vars⟩ : Machine _) meaning := ⟨rfl, hhost, hhost.logged, hvars⟩
  obtain ⟨q, hsimplify, hruns⟩ := Program.simplify_sound hplain p
  obtain ⟨q', hsimplify', hruns'⟩ := Program.simplify_sound hlogged p
  have hpure := congrFun (hsimplify'.symm.trans hsimplify) s
  obtain rfl : q' = q := congrArg Prod.fst hpure
  exact ⟨q', congrFun hsimplify s, Program.evaluate_congr (hruns []), Program.evaluate_congr (hruns' [])⟩

/-- `(1 + 2) * x` in the standard environment, where nothing is known of `x` before it is `3`. -/
theorem Program.evaluate_simplify_sum_times :
    let host : Host Unit := .withBuiltins (pure 0) fun _ _ => pure .void
    let vars : Variables := fun name => if name = "x" then some (.number 3) else none
    let p : Program := [.number 1, .number 2, .binary "+", .load "x", .binary "*"]
    host.Computes .standard Function.standardMeaning ∧ Environment.standard.Determines (fun _ => none) vars ∧
      ∃ q, (Program.simplify ⟨host, .standard, .standard, fun _ => none⟩ p).run () = (q, ()) ∧
        q.evaluate ⟨host, .standard, vars⟩ = p.evaluate ⟨host, .standard, vars⟩ ∧
        q.evaluate ⟨host.logged, .standard, vars⟩ = p.evaluate ⟨host.logged, .standard, vars⟩ := by
  intro host vars p
  have hhost : host.Computes .standard Function.standardMeaning := Host.computes_withBuiltins _ _ .standard
  have hvars : Environment.standard.Determines (fun _ => none) vars := by
    refine ⟨nofun, fun name hname _ => if_neg ?_⟩
    rintro rfl
    exact absurd hname (by decide)
  exact ⟨hhost, hvars, Program.evaluate_simplify host .standard .standard _ vars _ hhost hvars p ()⟩

end Reckon
