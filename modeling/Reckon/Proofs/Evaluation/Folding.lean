import Reckon.Proofs.Evaluation.Outcomes
import Reckon.Proofs.Evaluation.Simplification
import Reckon.Proofs.Rendering.Expressions

/-!
# Simplified expressions

What is left of an expression is an expression, too: an operation and its operands are replaced by a literal that the
options let one write down, or they stay (`Simplifier.fold_folds`). This is so whatever the operators of the environment
do and whatever they do to the host. So the simplified program of an expression that can be written apart from its
numbers is the program of such an expression, and new numbers are ones that the options let one write down
(`Simplifier.run_renders`, `Program.simplify_renders`). Where operators are functions it is one and the same
expression in every state of the host (`Program.exists_simplify`).
-/

namespace Reckon

variable {σ : Type} {g : Grammar} {o : Options}

/-! ## Operands -/

/-- The steps are these, or a literal that can be written down has taken their place. -/
def Operand.Folds (o : Options) (steps : Program) (x : Operand) : Prop :=
  x.steps = steps ∨ ∃ l : Literal, l.isWritable o = true ∧ x.steps = [.ofLiteral l]

theorem Operand.folds_known (v : Value) (steps : Program) : (Operand.known o v steps).Folds o steps := by
  unfold Operand.known
  split
  · next l hl =>
    have hwritable := Option.mem_filter_iff.1 (Option.mem_def.2 hl)
    exact .inr ⟨l, hwritable.2, rfl⟩
  · exact .inl rfl

/-- Whatever the operators of the environment do, an operation and its operands stay, or a literal takes their place. -/
theorem Simplifier.fold_folds (m : Simplifier σ) (i : Instruction) (operands : List Operand) :
    Always (Operand.Folds m.options (Operand.allSteps operands ++ [i])) (m.fold i operands) := by
  rw [Simplifier.fold]
  cases (operands.mapM Operand.value).bind (m.operation? i) with
  | none => exact .pure (.inl rfl)
  | some result =>
    refine Always.bind (P := fun _ => True) (fun _ => trivial) fun r _ => ?_
    cases r with
    | ok v => exact .pure (Operand.folds_known v _)
    | error e => exact .pure (.inl rfl)

/-! ## Expressions -/

/-- The numbers that the options let one write down are of a kind. -/
def Options.Writes (N : Float → Prop) (o : Options) : Prop :=
  ∀ v, (Literal.number v).isWritable o = true → N v

/-- The steps are the program of an expression whose numbers are of a kind and whose other parts can be written. -/
def Operand.Renders (N : Float → Prop) (g : Grammar) (o : Options) (dotted : Bool) (x : Operand) : Prop :=
  ∃ e : Expr, e.PrintableWith N g o dotted ∧ x.steps = e.program

/-- One operand that satisfies `P` is on top of the stack. -/
def Operand.Pushed (P : Operand → Prop) (stack after : List Operand) : Prop :=
  ∃ x, P x ∧ after = x :: stack

section

variable {N : Float → Prop} {m : Simplifier σ}

theorem Operand.Folds.renders (hN : o.Writes N) {x : Operand} {e : Expr} {dotted : Bool} (h : x.Folds o e.program)
    (he : e.PrintableWith N g o dotted) : x.Renders N g o dotted := by
  rcases h with h | ⟨l, hl, h⟩
  · exact ⟨e, he, h⟩
  · cases l with
    | number v => exact ⟨.number v, hN v hl, h⟩
    | string s => exact ⟨.string s, trivial, h⟩

/-- The topmost operands, from left to right, and a step are folded to an operand that is written as an expression if
they are. -/
theorem Simplifier.foldTop_renders (hN : m.options.Writes N) {i : Instruction} {operands : List Operand} {e : Expr}
    (hsteps : Operand.allSteps operands ++ [i] = e.program) {dotted : Bool}
    (he : e.PrintableWith N g m.options dotted) (stack : List Operand) :
    Always (Operand.Pushed (Operand.Renders N g m.options dotted) stack)
      (m.foldTop i operands.length (operands.reverse ++ stack)) := by
  have hlength : operands.length = operands.reverse.length := List.length_reverse.symm
  rw [Simplifier.foldTop, hlength, List.take_left, List.drop_left, List.reverse_reverse]
  refine (m.fold_folds i operands).bind fun x hx => .pure ⟨x, ?_, rfl⟩
  rw [hsteps] at hx
  exact hx.renders hN he

/-- What is left of a suspended program that leaves one operand is suspended. -/
theorem Simplifier.step_suspend_renders {body : Program} {P : Operand → Prop}
    (h : Always (Operand.Pushed P []) (m.run [] body)) (stack : List Operand) :
    Always (Operand.Pushed (fun y => ∃ x, P x ∧ y.steps = [.suspend x.steps]) stack)
      (m.step stack (.suspend body)) := by
  rw [Simplifier.step]
  refine h.bind ?_
  rintro _ ⟨x, hx, rfl⟩
  refine .pure ⟨_, ⟨x, hx, ?_⟩, rfl⟩
  simp [Operand.allSteps]

mutual

/-- An expression that can be written apart from its numbers leaves one operand, whose steps are the program of such an
expression. -/
theorem Simplifier.run_renders (hN : m.options.Writes N) : (e : Expr) → ∀ {dotted : Bool},
    e.PrintableWith N g m.options dotted → ∀ stack,
      Always (Operand.Pushed (Operand.Renders N g m.options dotted) stack) (m.run stack e.program)
  | .number v, _, he, stack => by
    rw [Expr.program, Simplifier.run_step, Simplifier.step]
    exact .pure ⟨_, (Operand.folds_known (.number v) _).renders (e := .number v) hN he, rfl⟩
  | .string s, _, he, stack => by
    rw [Expr.program, Simplifier.run_step, Simplifier.step]
    exact .pure ⟨_, (Operand.folds_known (.string s) _).renders (e := .string s) hN he, rfl⟩
  | .name n, _, he, stack => by
    rw [Expr.program, Simplifier.run_step, Simplifier.step]
    cases m.env.resolve? m.known n with
    | none => exact .pure ⟨.unknown [.load n], ⟨.name n, he, rfl⟩, rfl⟩
    | some v => exact .pure ⟨_, (Operand.folds_known v _).renders (e := .name n) hN he, rfl⟩
  | .unary op x, _, ⟨hop, hunary, hx⟩, stack => by
    rw [Expr.program, Simplifier.run_append]
    refine (Simplifier.run_renders hN x hx stack).bind ?_
    rintro _ ⟨y, ⟨x', hx', hy⟩, rfl⟩
    have hsteps : Operand.allSteps [y] ++ [.unary op] = (Expr.unary op x').program := by
      simp [Expr.program, hy]
    rw [Simplifier.run_step, Simplifier.step]
    exact Simplifier.foldTop_renders hN hsteps ⟨hop, hunary, hx'⟩ stack
  | .binary op x y, _, ⟨hop, hbinary, hx, hy⟩, stack => by
    rw [Expr.program, Simplifier.run_append, Simplifier.run_append]
    refine Always.bind (P := fun after => ∃ a b x' y', Expr.PrintableWith N g m.options false x' ∧
      Expr.PrintableWith N g m.options false y' ∧ a.steps = x'.program ∧
      b.steps = (if isShortCircuit op then [.suspend y'.program] else y'.program) ∧ after = b :: a :: stack) ?_ ?_
    · refine (Simplifier.run_renders hN x hx stack).bind ?_
      rintro _ ⟨a, ⟨x', hx', ha⟩, rfl⟩
      -- the right operand of `and` and `or` is suspended, so its steps are one step around those of the operand
      cases isShortCircuit op with
      | false =>
        refine (Simplifier.run_renders hN y hy (a :: stack)).imp ?_
        rintro _ ⟨b, ⟨y', hy', hb⟩, rfl⟩
        exact ⟨a, b, x', y', hx', hy', ha, hb, rfl⟩
      | true =>
        rw [if_pos rfl, Simplifier.run_step]
        refine (Simplifier.step_suspend_renders (Simplifier.run_renders hN y hy []) (a :: stack)).imp ?_
        rintro _ ⟨b, ⟨c, ⟨y', hy', hc⟩, hb⟩, rfl⟩
        exact ⟨a, b, x', y', hx', hy', ha, by rw [hb, hc]; rfl, rfl⟩
    · rintro _ ⟨a, b, x', y', hx', hy', ha, hb, rfl⟩
      have hsteps : Operand.allSteps [a, b] ++ [.binary op] = (Expr.binary op x' y').program := by
        simp [Expr.program, ha, hb]
      rw [Simplifier.run_step, Simplifier.step]
      exact Simplifier.foldTop_renders hN hsteps ⟨hop, hbinary, hx', hy'⟩ stack
  | .choice c x y, _, ⟨hquestion, hcolon, hc, hx, hy⟩, stack => by
    rw [Expr.program, Simplifier.run_append]
    refine (Simplifier.run_renders hN c hc stack).bind ?_
    rintro _ ⟨a, ⟨c', hc', ha⟩, rfl⟩
    rw [Simplifier.run]
    refine (Simplifier.step_suspend_renders (Simplifier.run_renders hN x hx []) _).bind ?_
    rintro _ ⟨b, ⟨b', ⟨x', hx', hb'⟩, hb⟩, rfl⟩
    rw [Simplifier.run]
    refine (Simplifier.step_suspend_renders (Simplifier.run_renders hN y hy []) _).bind ?_
    rintro _ ⟨d, ⟨d', ⟨y', hy', hd'⟩, hd⟩, rfl⟩
    have hsteps : Operand.allSteps [a, b, d] ++ [.ternary "?"] = (Expr.choice c' x' y').program := by
      simp [Expr.program, ha, hb, hb', hd, hd']
    rw [Simplifier.run_step, Simplifier.step]
    exact Simplifier.foldTop_renders hN hsteps ⟨hquestion, hcolon, hc', hx', hy'⟩ stack
  | .call f args, _, ⟨hf, hargs⟩, stack => by
    rw [Expr.program, Simplifier.run_append, Simplifier.run_append]
    refine Always.bind (P := fun after => ∃ a xs f' args', Expr.PrintableWith N g m.options false f' ∧
      Expr.AllPrintableWith N g m.options args' ∧ a.steps = f'.program ∧ Operand.allSteps xs = Expr.programs args' ∧
      args'.length = args.length ∧ xs.length = args.length ∧ after = (a :: xs).reverse ++ stack) ?_ ?_
    · refine (Simplifier.run_renders hN f hf stack).bind ?_
      rintro _ ⟨a, ⟨f', hf', ha⟩, rfl⟩
      refine (Simplifier.run_allRenders hN args hargs (a :: stack)).imp ?_
      rintro _ ⟨xs, args', hargs', hsteps, hlength, hlength', rfl⟩
      refine ⟨a, xs, f', args', hf', hargs', ha, hsteps, hlength, hlength', ?_⟩
      rw [List.reverse_cons, List.append_assoc]
      rfl
    · rintro _ ⟨a, xs, f', args', hf', hargs', ha, hsteps, hlength, hlength', rfl⟩
      -- a call takes its arguments and what is called, which is all that `f` and `args` have left
      have hcount : Simplifier.operandCount args.length = (a :: xs).reverse.length := by
        rw [List.length_reverse, List.length_cons, hlength', Simplifier.operandCount]
      rw [Simplifier.run_step, Simplifier.step, hcount, List.take_left, List.drop_left, List.reverse_reverse]
      refine .pure ⟨_, ⟨.call f' args', ⟨hf', hargs'⟩, ?_⟩, rfl⟩
      simp [Operand.unknown, Expr.program, ha, hsteps, hlength]
  | .member x field, _, ⟨haccess, hdot, hfield, hx⟩, stack => by
    rw [Expr.program, Simplifier.run_append]
    refine (Simplifier.run_renders hN x hx stack).bind ?_
    rintro _ ⟨y, ⟨x', hx', hy⟩, rfl⟩
    have hsteps : Operand.allSteps [y] ++ [.member field] = (Expr.member x' field).program := by
      simp [Expr.program, hy]
    rw [Simplifier.run_step, Simplifier.step]
    exact Simplifier.foldTop_renders hN hsteps ⟨haccess, hdot, hfield, hx'⟩ stack

/-- Expressions that can be written apart from their numbers leave an operand each. -/
theorem Simplifier.run_allRenders (hN : m.options.Writes N) : (es : List Expr) →
    Expr.AllPrintableWith N g m.options es → ∀ stack,
      Always (fun after => ∃ xs es', Expr.AllPrintableWith N g m.options es' ∧
        Operand.allSteps xs = Expr.programs es' ∧ es'.length = es.length ∧ xs.length = es.length ∧
          after = xs.reverse ++ stack) (m.run stack (Expr.programs es))
  | [], _, stack => by
    rw [Expr.programs, Simplifier.run]
    exact .pure ⟨[], [], trivial, rfl, rfl, rfl, rfl⟩
  | e :: rest, ⟨he, hrest⟩, stack => by
    rw [Expr.programs, Simplifier.run_append]
    refine (Simplifier.run_renders hN e he stack).bind ?_
    rintro _ ⟨x, ⟨e', he', hx⟩, rfl⟩
    refine (Simplifier.run_allRenders hN rest hrest (x :: stack)).imp ?_
    rintro _ ⟨xs, es', hes', hsteps, hlength, hlength', rfl⟩
    refine ⟨x :: xs, e' :: es', ⟨he', hes'⟩, ?_, congrArg (· + 1) hlength, congrArg (· + 1) hlength', ?_⟩
    · rw [Operand.allSteps_cons, Expr.programs, hx, hsteps]
    · rw [List.reverse_cons, List.append_assoc]
      rfl

end

/-- What is left of the program of an expression that can be written apart from its numbers is the program of such an
expression. -/
theorem Program.simplify_renders (hN : m.options.Writes N) {e : Expr} (he : e.PrintableWith N g m.options false) :
    Always (fun q => ∃ e' : Expr, e'.PrintableWith N g m.options false ∧ q = e'.program)
      (Program.simplify m e.program) := by
  refine (Simplifier.run_renders hN e he []).bind ?_
  rintro _ ⟨x, ⟨e', he', hx⟩, rfl⟩
  exact .pure ⟨e', he', by rw [← hx]; simp [Operand.allSteps]⟩

end

/-! ## Numbers -/

/-- A number can be written if the options let one write it down and it is not negative or the grammar has the sign. -/
theorem Expr.canSpell_iff {v : Float} : Expr.CanSpell g o v ↔
    (Literal.number v).isWritable o = true ∧ (v.isNaN = true ∨ isNegative v = false ∨ g.isUnary "-" = true) := by
  have hsymbol : ∀ op ∈ ["/", "-"], op ∈ symbols := by decide +kernel
  have hoperator : ∀ op ∈ ["/", "-"], IsOperator g o op ↔ o.enables op = true :=
    fun op hop => ⟨IsOperator.enabled, fun h => ⟨h, .inl (hsymbol op hop)⟩⟩
  rw [Expr.CanSpell, Literal.isWritable, hoperator "/" (by decide), hoperator "-" (by decide)]
  cases v.isNaN with
  | true => simp
  | false => cases isNegative v <;> simp

/-- With the sign in the grammar, a number that the options let one write down can be written. -/
theorem Options.writes_canSpell (hminus : g.isUnary "-" = true) (o : Options) : o.Writes (Expr.CanSpell g o) :=
  fun _ hv => Expr.canSpell_iff.2 ⟨hv, .inr (.inr hminus)⟩

/-- What is left of the program of an expression that can be written is the program of such an expression. -/
theorem Program.exists_simplify {m : Simplifier σ} {meaning : Function → List Value → Except EvalError Value}
    (h : m.host.Computes m.env meaning) (hminus : g.isUnary "-" = true) {e : Expr}
    (he : e.Printable g m.options false) :
    ∃ e' : Expr, e'.Printable g m.options false ∧ Program.simplify m e.program = pure e'.program := by
  have hself : m.Foresees (⟨m.host, m.env, m.known⟩ : Machine σ) meaning :=
    ⟨rfl, h, h, fun _ _ h => h, fun _ _ h => h⟩
  obtain ⟨q, hq, -⟩ := Program.simplify_sound hself e.program
  have hrenders := Program.simplify_renders (Options.writes_canSpell hminus m.options) (e.printableWith_canSpell.2 he)
  rcases isEmpty_or_nonempty σ with hempty | ⟨⟨s⟩⟩
  · exact ⟨e, he, funext fun s => hempty.elim s⟩
  · obtain ⟨e', he', hprogram⟩ := hrenders s
    refine ⟨e', e'.printableWith_canSpell.1 he', ?_⟩
    rw [hq] at hprogram ⊢
    rw [← hprogram]
    rfl

end Reckon
