import Reckon.Proofs.Evaluation.Folding
import Reckon.Proofs.Evaluation.Layout
import Reckon.Proofs.Evaluation.Trees
import Reckon.Proofs.Rendering.Reparsing

/-!
# Balance

The evaluation and the simplification of a well-formed program go by the layouts of its steps. Evaluation finds items
that are what the layout says, and of which none is out of balance when it is evaluated (`Machine.run_yields`);
simplification finds operands whose steps push what the layout says (`Simplifier.run_fits`). So what is read from a code
is well-formed, it stays so, and evaluation does not find it out of balance (`Program.wellFormed_invariant`).
-/

namespace Reckon

variable {σ : Type}

/-! ## Evaluation -/

/-- No function reports that a program is out of balance. -/
def Host.IsProper (host : Host σ) : Prop :=
  ∀ site f args, (host.run site f args).Yields fun _ => True

/-- The item is what the slot says, and to evaluate it does not fail because a program is out of balance. -/
inductive Item.Fits : Slot → Item σ → Prop
  | value (v : Value) : Item.Fits .value (.value v)
  | suspended {evaluation : Eval σ Value} (h : evaluation.Yields fun _ => True) :
    Item.Fits .suspended (.suspended evaluation)

/-- The items of a stack are what its layout says. -/
abbrev Stack.Fits (layout : Layout) (s : Stack σ) : Prop :=
  List.Forall₂ Item.Fits layout s

theorem Item.Fits.force {slot : Slot} {x : Item σ} (h : Item.Fits slot x) : x.force.Yields fun _ => True := by
  cases h with
  | value v => exact .pure trivial
  | suspended h => exact h

/-- Items without suspended programs are values. -/
theorem Stack.Fits.exists_values {n : Nat} {s : Stack σ} (h : Stack.Fits (List.replicate n .value) s) :
    ∃ vs : List Value, s = vs.map .value ∧ vs.length = n := by
  induction n generalizing s with
  | zero =>
    cases h
    exact ⟨[], rfl, rfl⟩
  | succ n ih =>
    obtain _ | ⟨⟨v⟩, hbelow⟩ := h
    obtain ⟨vs, rfl, hlength⟩ := ih hbelow
    exact ⟨v :: vs, rfl, congrArg (· + 1) hlength⟩

section

variable {m : Machine σ}

theorem Host.IsProper.invoke (h : m.host.IsProper) (site : Site) (f : Function) (args : List Value) :
    (m.host.invoke site f args).Yields fun _ => True :=
  .ite (h site f args) (.throw trivial)

theorem Host.IsProper.applyOperator (h : m.host.IsProper) (kind : OperatorKind) (op : String) (args : List Value) :
    (Machine.applyOperator m.host m.env kind op args).Yields fun _ => True := by
  rw [Machine.applyOperator]
  cases m.env.operator? kind op with
  | none => exact .throw trivial
  | some f => exact h.invoke .operator f args

theorem Host.IsProper.call (h : m.host.IsProper) (callee : Value) (args : List Value) :
    (Machine.call m.host callee args).Yields fun _ => True := by
  cases callee with
  | function f => exact h.invoke .call f args
  | _ => exact .throw trivial

theorem Host.IsProper.binaryOnItem (h : m.host.IsProper) (op : String) (x : Value) {y : Item σ}
    (hy : y.force.Yields fun _ => True) : (m.binaryOnItem op x y).Yields fun _ => True := by
  have hright : Eval.Yields (fun _ => True) (do return Value.ofBool (← y.force).isTruthy) :=
    hy.map fun _ _ => trivial
  have hdecided (b : Bool) : Eval.Yields (fun _ => True) (pure (Value.ofBool b) : Eval σ Value) := .pure trivial
  refine .ite (.ite hright (hdecided false)) (.ite (.ite (hdecided true) hright) (hy.bind fun w _ => ?_))
  exact .ite (.pure trivial) (.ite (.pure trivial) (h.applyOperator .binary op [x, w]))

theorem Eval.Yields.push {evaluation : Eval σ Value} (h : evaluation.Yields fun _ => True) {layout : Layout}
    {s : Stack σ} (hs : Stack.Fits layout s) :
    Eval.Yields (Stack.Fits (.value :: layout)) (do return .value (← evaluation) :: s) :=
  h.map fun v _ => .cons (.value v) hs

mutual

/-- A step that finds the items that it takes leaves its result in their place, or it fails, but not because the
program is out of balance. -/
theorem Machine.step_yields (h : m.host.IsProper) : (i : Instruction) → ∀ {xs below : Layout} {s : Stack σ},
    i.operands? = some xs → Stack.Fits (xs ++ below) s → (m.step s i).Yields (Stack.Fits (i.slot :: below))
  | .number v, _, _, _, hxs, hs | .string v, _, _, _, hxs, hs => by
    cases hxs
    rw [Machine.step]
    exact .pure (.cons (.value _) hs)
  | .load name, _, _, _, hxs, hs => by
    cases hxs
    rw [Machine.step]
    cases m.env.resolve? m.vars name with
    | none => exact .throw trivial
    | some v => exact .pure (.cons (.value v) hs)
  | .unary op, _, _, _, hxs, hs => by
    cases hxs
    obtain _ | ⟨⟨v⟩, hs⟩ := hs
    simp only [Machine.step, Stack.popValue, Stack.pop, Item.force_value, pure_bind]
    exact (h.applyOperator .unary op [v]).push hs
  | .binary op, _, _, _, hxs, hs => by
    rw [Machine.step]
    cases hxs
    split at hs
    all_goals
      obtain _ | ⟨hy, _ | ⟨⟨v⟩, hs⟩⟩ := hs
      simp only [Stack.popValue, Stack.pop, Item.force_value, pure_bind]
      exact (h.binaryOnItem op v hy.force).push hs
  | .ternary op, _, _, _, hxs, hs => by
    rw [Instruction.operands?] at hxs
    split at hxs
    · next hop =>
      cases hxs
      obtain _ | ⟨hz, _ | ⟨hy, _ | ⟨⟨v⟩, hs⟩⟩⟩ := hs
      simp only [Machine.step, Stack.popValue, Stack.pop, Item.force_value, pure_bind, Machine.ternaryOnItems,
        if_pos hop]
      refine Eval.Yields.push ?_ hs
      cases v.isTruthy
      · exact hz.force
      · exact hy.force
    · cases hxs
  | .call argCount, _, below, s, hxs, hs => by
    cases hxs
    rw [List.replicate_succ', List.append_assoc] at hs
    have hargs : Stack.Fits (List.replicate argCount .value) (s.take argCount) := by
      have htake := List.forall₂_take argCount hs
      rwa [List.take_left' List.length_replicate] at htake
    have hcallee : Stack.Fits (.value :: below) (s.drop argCount) := by
      have hdrop := List.forall₂_drop argCount hs
      rwa [List.drop_left' List.length_replicate] at hdrop
    obtain ⟨vs, hvs, hlength⟩ := hargs.exists_values
    generalize hrest : s.drop argCount = rest at hcallee
    obtain _ | ⟨⟨callee⟩, hbelow⟩ := hcallee
    have hcall := m.step_call callee vs.reverse
    rw [List.map_reverse, List.reverse_reverse, List.length_reverse, hlength] at hcall
    rw [← List.take_append_drop argCount s, hvs, hrest, hcall]
    exact (h.call callee vs.reverse).push hbelow
  | .member field, _, _, _, hxs, hs => by
    cases hxs
    obtain _ | ⟨⟨v⟩, hs⟩ := hs
    simp only [Machine.step, Stack.popValue, Stack.pop, Item.force_value, pure_bind]
    exact .pure (.cons (.value _) hs)
  | .suspend body, _, _, _, hxs, hs => by
    rw [Instruction.operands?] at hxs
    split at hxs
    · next hbody =>
      cases hxs
      rw [Machine.step]
      refine .pure (.cons (.suspended ((Machine.run_yields h body hbody .nil).bind fun t ht => ?_)) hs)
      obtain _ | ⟨⟨v⟩, _ | _⟩ := ht
      exact .pure trivial
    · cases hxs

/-- A program that finds the items that its steps take leaves the layout that is foreseen, or it fails, but not because
it is out of balance. -/
theorem Machine.run_yields (h : m.host.IsProper) : (p : List Instruction) → ∀ {layout layout' : Layout} {s : Stack σ},
    Program.layout? layout p = some layout' → Stack.Fits layout s → (m.run s p).Yields (Stack.Fits layout')
  | [], _, _, _, hp, hs => by
    cases hp
    rw [Machine.run]
    exact .pure hs
  | i :: rest, _, _, _, hp, hs => by
    obtain ⟨xs, below, hxs, rfl, hrest⟩ := Program.exists_of_layout?_cons hp
    rw [Machine.run]
    exact (Machine.step_yields h i hxs hs).bind fun t ht => Machine.run_yields h rest hrest ht

end

end

/-- A well-formed program has a value or fails, but not because it is out of balance. -/
theorem Program.WellFormed.evaluate_yields {m : Machine σ} (h : m.host.IsProper) {p : Program} (hp : p.WellFormed) :
    (p.evaluate m).Yields fun _ => True := by
  refine (Machine.run_yields h p hp .nil).bind fun s hs => ?_
  obtain _ | ⟨⟨v⟩, _ | _⟩ := hs
  exact .pure trivial

/-! ## Simplification -/

/-- The steps of an operand push what the slot says. -/
def Operand.Fits (slot : Slot) (x : Operand) : Prop :=
  ∀ s, Program.layout? s x.steps = some (slot :: s)

/-- The steps of operands, the lowest one first, push what the layout says. -/
theorem Operand.layout?_allSteps {layout : Layout} {xs : List Operand} (h : List.Forall₂ Operand.Fits layout xs)
    (s : Layout) : Program.layout? s (Operand.allSteps xs.reverse) = some (layout ++ s) := by
  induction h with
  | nil => rfl
  | cons hx _ ih =>
    rw [List.reverse_cons, Operand.allSteps_append, Program.layout?_append, ih, Option.bind_some,
      Operand.allSteps_cons, Operand.allSteps_nil, List.append_nil]
    exact hx _

theorem Operand.Folds.fits {o : Options} {steps : Program} {x : Operand} (h : x.Folds o steps)
    (hsteps : ∀ s, Program.layout? s steps = some (.value :: s)) : x.Fits .value := by
  intro s
  rcases h with h | ⟨l, -, h⟩
  · rw [h]
    exact hsteps s
  · rw [h]
    cases l <;> rfl

section

variable {m : Simplifier σ}

/-- What a step and the operands that it takes are folded to is a value. -/
theorem Operand.Folds.fits_top {i : Instruction} {xs below : Layout} (hxs : i.operands? = some xs)
    (hslot : i.slot = .value) {stack : List Operand} (h : List.Forall₂ Operand.Fits (xs ++ below) stack) {o : Options}
    {x : Operand} (hx : x.Folds o (Operand.allSteps (stack.take xs.length).reverse ++ [i])) :
    List.Forall₂ Operand.Fits (.value :: below) (x :: stack.drop xs.length) := by
  have htop := List.forall₂_take xs.length h
  have hbelow := List.forall₂_drop xs.length h
  rw [List.take_left] at htop
  rw [List.drop_left] at hbelow
  refine .cons (hx.fits fun s => ?_) hbelow
  rw [Program.layout?_append, Operand.layout?_allSteps htop, Option.bind_some, Program.layout?_cons hxs, hslot]
  rfl

theorem Simplifier.foldTop_fits {i : Instruction} {xs below : Layout} (hxs : i.operands? = some xs)
    (hslot : i.slot = .value) {stack : List Operand} (h : List.Forall₂ Operand.Fits (xs ++ below) stack) :
    Always (List.Forall₂ Operand.Fits (.value :: below)) (m.foldTop i xs.length stack) :=
  (Simplifier.fold_folds _ i _).bind fun _ hx => .pure (hx.fits_top hxs hslot h)

mutual

/-- A step that finds the operands that it takes leaves its result in their place. -/
theorem Simplifier.step_fits : (i : Instruction) → ∀ {xs below : Layout} {stack : List Operand},
    i.operands? = some xs → List.Forall₂ Operand.Fits (xs ++ below) stack →
      Always (List.Forall₂ Operand.Fits (i.slot :: below)) (m.step stack i)
  | .number v, _, _, _, hxs, h | .string v, _, _, _, hxs, h => by
    cases hxs
    rw [Simplifier.step]
    exact .pure (.cons ((Operand.folds_known _ _).fits fun _ => rfl) h)
  | .load name, _, _, _, hxs, h => by
    cases hxs
    rw [Simplifier.step]
    cases m.env.resolve? m.known name with
    | none => exact .pure (.cons (fun _ => rfl) h)
    | some v => exact .pure (.cons ((Operand.folds_known v _).fits fun _ => rfl) h)
  | .unary op, _, _, _, hxs, h => by
    rw [Simplifier.step]
    cases hxs
    exact Simplifier.foldTop_fits (i := .unary op) rfl rfl h
  | .binary op, xs, _, _, hxs, h => by
    have hlength : xs.length = 2 := by
      cases hxs
      split <;> rfl
    rw [Simplifier.step, ← hlength]
    exact Simplifier.foldTop_fits hxs rfl h
  | .ternary op, xs, _, _, hxs, h => by
    have hlength : xs.length = 3 := by
      rw [Instruction.operands?] at hxs
      split at hxs <;> cases hxs
      rfl
    rw [Simplifier.step, ← hlength]
    exact Simplifier.foldTop_fits hxs rfl h
  | .member field, _, _, _, hxs, h => by
    rw [Simplifier.step]
    cases hxs
    exact Simplifier.foldTop_fits (i := .member field) rfl rfl h
  | .call argCount, _, _, stack, hxs, h => by
    cases hxs
    have hcount : Simplifier.operandCount argCount = (List.replicate (argCount + 1) Slot.value).length := by
      rw [List.length_replicate, Simplifier.operandCount]
    rw [Simplifier.step, hcount]
    exact .pure (Operand.Folds.fits_top (o := m.options) rfl rfl h (.inl rfl))
  | .suspend body, _, _, _, hxs, h => by
    rw [Instruction.operands?] at hxs
    split at hxs
    · next hbody =>
      cases hxs
      rw [Simplifier.step]
      refine (Simplifier.run_fits body hbody .nil).bind fun operands hoperands => .pure (.cons ?_ h)
      have hwell : Program.WellFormed (Operand.allSteps operands.reverse) := Operand.layout?_allSteps hoperands []
      exact fun s => Program.layout?_suspend hwell s []
    · cases hxs

/-- A program that finds the operands that its steps take leaves the operands that are foreseen. -/
theorem Simplifier.run_fits : (p : List Instruction) → ∀ {layout layout' : Layout} {stack : List Operand},
    Program.layout? layout p = some layout' → List.Forall₂ Operand.Fits layout stack →
      Always (List.Forall₂ Operand.Fits layout') (m.run stack p)
  | [], _, _, _, hp, h => by
    cases hp
    rw [Simplifier.run]
    exact .pure h
  | i :: rest, _, _, _, hp, h => by
    obtain ⟨xs, below, hxs, rfl, hrest⟩ := Program.exists_of_layout?_cons hp
    rw [Simplifier.run]
    exact (Simplifier.step_fits i hxs h).bind fun _ ht => Simplifier.run_fits rest hrest ht

end

/-- What is left of a well-formed program is well-formed. -/
theorem Program.WellFormed.simplify {p : Program} (hp : p.WellFormed) :
    Always Program.WellFormed (Program.simplify m p) :=
  (Simplifier.run_fits p hp .nil).bind fun _ h => .pure (Operand.layout?_allSteps h [])

end

/-! ## The invariant -/

/-- Built-in operations do not report that a program is out of balance. -/
theorem Host.isProper_withBuiltins {chance : StateM σ Float} {run : String → List Value → Eval σ Value}
    (h : ∀ name args, (run name args).Yields fun _ => True) : (Host.withBuiltins chance run).IsProper := by
  have hresult (b : Builtin) (r : Float) (args : List Value) :
      Eval.Yields (σ := σ) (fun _ => True) (Host.runBuiltin.liftExcept (b.run r args)) := by
    rw [Builtin.run]
    cases b.value? r args with
    | some v => exact .pure trivial
    | none => exact .throw trivial
  intro site f args
  cases f with
  | host name arity => exact h name args
  | builtin b =>
    refine (?_ : Eval.Yields _ (Host.runBuiltin chance b args))
    unfold Host.runBuiltin
    split
    · exact Eval.Yields.bind (P := fun _ => True) (fun _ => trivial) fun r _ => hresult _ r args
    · exact hresult _ 0 args

/-- What is read from a code is well-formed, simplification and substitution keep programs well-formed, whatever the
functions of the host do, and the evaluation of a well-formed program does not find it out of balance. -/
theorem Program.wellFormed_invariant {σ : Type} :
    (∀ (g : Grammar) (o : Options) (code : String) (p : Program), Program.parse g o code = .ok p → p.WellFormed) ∧
    (∀ (m : Simplifier σ) (p : Program), p.WellFormed → ∀ s, Program.WellFormed ((p.simplify m).run s).1) ∧
    (∀ (name : String) (r p : Program), r.WellFormed → p.WellFormed →
      Program.WellFormed (Program.substitute name r p)) ∧
    (∀ (m : Machine σ) (p : Program), m.host.IsProper → p.WellFormed →
      ∀ s imbalance, ((p.evaluate m).run.run s).1 ≠ .error (.invalidProgram imbalance)) := by
  refine ⟨fun g o code p h => ?_, fun m p hp => hp.simplify, fun name r p hr hp => ?_, fun m p hm hp => ?_⟩
  · rw [Program.parse] at h
    cases he : Expr.parse g o code with
    | error e =>
      rw [he] at h
      cases h
    | ok e =>
      rw [he] at h
      cases h
      exact e.wellFormed_program
  · rw [Program.WellFormed, Program.layout?_substitute hr]
    exact hp
  · exact (hp.evaluate_yields hm).ne_invalidProgram

/-- `x and y`, where `y` is replaced and what is known of `x` decides. -/
theorem Program.wellFormed_invariant_conjunction :
    let host : Host Unit := .withBuiltins (pure 0) fun _ _ => pure .void
    let known : Variables := fun name => if name = "x" then some (.number 0) else none
    let p : Program := [.load "x", .suspend [.load "y"], .binary "and"]
    let r : Program := [.load "x", .number 1, .binary "+"]
    Program.parse Grammar.standard .standard "x and y" = .ok p ∧ p.WellFormed ∧ r.WellFormed ∧ host.IsProper ∧
      (∀ s, Program.WellFormed ((p.simplify ⟨host, .standard, .standard, known⟩).run s).1) ∧
      Program.WellFormed (Program.substitute "y" r p) ∧
      ∀ s imbalance, ((p.evaluate ⟨host, .standard, known⟩).run.run s).1 ≠ .error (.invalidProgram imbalance) := by
  intro host known p r
  have hx : (Expr.name "x").Printable Grammar.standard .standard false :=
    Expr.printable_name (by decide) (by decide) (by decide)
  have hy : (Expr.name "y").Printable Grammar.standard .standard false :=
    Expr.printable_name (by decide) (by decide) (by decide)
  have hand : (Expr.binary "and" (.name "x") (.name "y")).Printable Grammar.standard .standard false :=
    ⟨⟨by decide, .inr (by decide)⟩, .inr ⟨.conjunction, by decide⟩, hx, hy⟩
  have hp : Program.parse Grammar.standard .standard "x and y" = .ok p := by
    have h := Program.parse_render_program Grammar.isReadable_standard hand rfl
    have hrender : (Expr.binary "and" (.name "x") (.name "y")).program.render = "x and y" := by decide +kernel
    rwa [hrender] at h
  obtain ⟨hparse, hsimplify, hsubstitute, hevaluate⟩ := Program.wellFormed_invariant (σ := Unit)
  have hwell : p.WellFormed := hparse Grammar.standard .standard "x and y" p hp
  have hr : r.WellFormed := by decide
  have hhost : host.IsProper := Host.isProper_withBuiltins fun _ _ => .pure trivial
  exact ⟨hp, hwell, hr, hhost, hsimplify _ p hwell, hsubstitute "y" r p hr hwell, hevaluate _ p hhost hwell⟩

end Reckon
