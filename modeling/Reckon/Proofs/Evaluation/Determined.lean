import Reckon.Proofs.Evaluation.Compilation
import Reckon.Proofs.Evaluation.Trees

/-!
# Formulas of which everything is known

A formula of the standard environment without calls always has a value when all of its names do. What simplification
makes of it is compared with that value operand by operand (`Program.Leaves`): an operand that is evaluated in any case
is folded with its operator, but a suspended program is known only if it is left as a literal. So the formula is reduced
to its value exactly if every suspended program has a number or a string as its value, whether or not evaluation asks
for it (`Expr.exists_leaves`, `Formula.simplify_eq_literal_iff`).
-/

namespace Reckon

variable {σ : Type}

/-! ## Suspended programs -/

/-- The value of a program is a number or a string, and the host is left alone. -/
def Program.HasLiteral (k : Machine σ) (s : σ) (p : Program) : Prop :=
  ∃ l : Literal, (p.evaluate k).run.run s = (.ok (.ofLiteral l), s)

/-- The values of all suspended programs are numbers or strings, at any depth and whether they are asked for or not. -/
def Program.HasLiteralBranches (k : Machine σ) (s : σ) (p : Program) : Prop :=
  ∀ body, .suspend body ∈ Program.nested p → Program.HasLiteral k s body

section

variable {k : Machine σ} {s : σ}

theorem Program.hasLiteralBranches_append {p q : Program} :
    Program.HasLiteralBranches k s (p ++ q) ↔ p.HasLiteralBranches k s ∧ q.HasLiteralBranches k s := by
  simp only [Program.HasLiteralBranches, Program.nested_append, List.mem_append, or_imp, forall_and]

theorem Program.hasLiteralBranches_step {i : Instruction} (h : ∀ body, i ≠ .suspend body) :
    Program.HasLiteralBranches k s [i] := by
  intro body hbody
  cases i with
  | suspend b => exact absurd rfl (h b)
  | _ => cases List.mem_singleton.1 hbody

theorem Program.hasLiteralBranches_suspend {body : Program} :
    Program.HasLiteralBranches k s [.suspend body] ↔ body.HasLiteral k s ∧ body.HasLiteralBranches k s := by
  simp [Program.HasLiteralBranches, Program.nested, Instruction.nested]

end

/-- No step is a call, and something is known of every name, in suspended programs too. -/
def Program.IsDetermined (known : Variables) (p : Program) : Prop :=
  ∀ i ∈ Program.nested p,
    (∀ n, i ≠ .call n) ∧ ∀ name, i = .load name → ∃ v, Environment.standard.resolve? known name = some v

/-- A program without calls is determined if every symbol is bound. -/
theorem Program.isDetermined_of_symbols {known : Variables} {p : Program} (hcalls : ∀ n, .call n ∉ Program.nested p)
    (hknown : ∀ name ∈ Program.symbols false p, (known name).isSome = true) : p.IsDetermined known := by
  refine fun i hi => ⟨fun n hn => hcalls n (hn ▸ hi), fun name hname => ?_⟩
  have hbound := hknown name (Program.mem_symbols_iff.2 ((Program.mem_names_iff p).2 (hname ▸ hi)))
  obtain ⟨v, hv⟩ := Option.isSome_iff_exists.1 hbound
  rcases Environment.standard.resolve?_cases name with ⟨f, hf⟩ | hresolve
  · exact ⟨.function f, hf known⟩
  · exact ⟨v, by rw [hresolve, hv, Option.some_or]⟩

theorem Program.isDetermined_append {known : Variables} {p q : Program} :
    Program.IsDetermined known (p ++ q) ↔ p.IsDetermined known ∧ q.IsDetermined known := by
  simp only [Program.IsDetermined, Program.nested_append, List.forall_mem_append]

theorem Program.IsDetermined.body {known : Variables} {body : Program}
    (h : Program.IsDetermined known [.suspend body]) : body.IsDetermined known := by
  intro i hi
  refine h i ?_
  rw [Program.nested, Instruction.nested, Program.nested, List.append_nil]
  exact List.mem_cons_of_mem _ hi

/-! ## Operators of the standard environment -/

/-- The operators that a code of the standard environment may have are functions of their operands. -/
structure Host.HasOperators (host : Host σ) : Prop where
  unary : ∀ op, op = "!" ∨ Environment.standard.grammar.isUnary op = true →
    ∃ apply : Value → Value, ∀ v, Machine.applyUnary host .standard op v = pure (apply v)
  binary : ∀ op, op = "^" ∨ (∃ l : Level, op ∈ l.operators) →
    ∃ apply : Value → Value → Value, ∀ v w, Machine.applyBinary host .standard op v w = pure (apply v w)

/-- A built-in operator takes as many operands as it has. -/
theorem Host.hasOperators_withBuiltins (chance : StateM σ Float) (run : String → List Value → Eval σ Value) :
    (Host.withBuiltins chance run).HasOperators where
  unary op h := by
    have hop : (Table.lookup op Environment.standard.unary).isSome = true := by
      rcases h with rfl | h
      · decide +kernel
      · exact h
    obtain ⟨f, hf⟩ := Option.isSome_iff_exists.1 hop
    obtain ⟨u, -, hu⟩ := List.mem_map.1 (Table.mem_of_lookup_ofEntries hf)
    cases hu
    refine ⟨u.apply, fun v => ?_⟩
    rw [Machine.applyUnary, Machine.applyOperator, Environment.operator?, hf]
    rfl
  binary op h := by
    by_cases hand : op = "and"
    · exact ⟨fun v w => .ofBool (v.isTruthy && w.isTruthy), fun v w => by rw [Machine.applyBinary, if_pos hand]⟩
    by_cases hor : op = "or"
    · refine ⟨fun v w => .ofBool (v.isTruthy || w.isTruthy), fun v w => ?_⟩
      rw [Machine.applyBinary, if_neg hand, if_pos hor]
    have hlevel : ∀ l : Level, ∀ op ∈ l.operators, (Table.lookup op Environment.standard.binary).isSome = true := by
      intro l
      cases l <;> decide +kernel
    have hop : (Table.lookup op Environment.standard.binary).isSome = true := by
      rcases h with rfl | ⟨l, hl⟩
      · decide +kernel
      · exact hlevel l op hl
    obtain ⟨f, hf⟩ := Option.isSome_iff_exists.1 hop
    obtain ⟨b, -, hb⟩ := List.mem_map.1 (Table.mem_of_lookup_ofEntries hf)
    cases hb
    refine ⟨b.apply, fun v w => ?_⟩
    rw [Machine.applyBinary, if_neg hand, if_neg hor, Machine.applyOperator, Environment.operator?, hf]
    rfl

/-! ## Operands -/

/-- The operand is written as a literal exactly if its value is known and has one. -/
def Operand.IsWritten (x : Operand) : Prop :=
  Program.literal? x.steps = x.value.bind Value.literal?

theorem Program.literal?_concat {i : Instruction} (h : i.literal? = none) (p : Program) :
    Program.literal? (p ++ [i]) = none := by
  cases p with
  | nil => exact h
  | cons j p => cases p <;> rfl

theorem Literal.isWritable_standard (l : Literal) : l.isWritable .standard = true := by
  have hdivide : Options.standard.enables "/" = true := by decide
  have hminus : Options.standard.enables "-" = true := by decide
  cases l with
  | string s => rfl
  | number v => simp [Literal.isWritable, hdivide, hminus]

theorem Operand.isWritten_known {v : Value} {steps : Program} (h : v.literal? = none → Program.literal? steps = none) :
    (Operand.known .standard v steps).IsWritten := by
  rw [Operand.IsWritten, Operand.value_known, Option.bind_some, Operand.known]
  cases hv : v.literal? with
  | none => exact h hv
  | some l =>
    rw [Option.filter_some, if_pos l.isWritable_standard]
    cases l <;> rfl

theorem Value.isSome_literal?_iff {v : Value} : v.literal?.isSome = true ↔ ∃ l, v = .ofLiteral l := by
  constructor
  · intro h
    obtain ⟨l, hl⟩ := Option.isSome_iff_exists.1 h
    exact ⟨l, (Value.ofLiteral_of_literal? hl).symm⟩
  · rintro ⟨l, rfl⟩
    rw [Value.literal?_ofLiteral]
    rfl

/-- The operands have no other values than these, as far as they are known. -/
abbrev Operand.Agree (xs : List Operand) (vs : List Value) : Prop :=
  List.Forall₂ (fun (x : Operand) v => ∀ w, x.value = some w → w = v) xs vs

theorem Operand.Agree.mapM_value {xs : List Operand} {vs : List Value} (h : Operand.Agree xs vs) :
    xs.mapM Operand.value = if xs.all (·.value.isSome) then some vs else none := by
  induction h with
  | nil => rfl
  | @cons x v xs vs hx _ ih =>
    rw [List.mapM_cons, ih]
    cases hv : x.value with
    | none => simp [hv]
    | some w =>
      obtain rfl := hx w hv
      cases hall : xs.all (·.value.isSome) <;> simp_all

/-- An operation on operands is folded exactly if all their values are known. -/
theorem Operand.Agree.exists_fold {m : Simplifier σ} (ho : m.options = .standard) {i : Instruction}
    (hi : i.literal? = none) {xs : List Operand} {vs : List Value} (h : Operand.Agree xs vs) {v : Value}
    (hoperation : m.operation? i vs = some (pure v)) :
    ∃ x : Operand, m.fold i xs = pure x ∧ (∀ w, x.value = some w → w = v) ∧
      (x.value.isSome = true ↔ ∀ y ∈ xs, y.value.isSome = true) ∧ x.IsWritten := by
  have hsteps : Program.literal? (Operand.allSteps xs ++ [i]) = none := Program.literal?_concat hi _
  rw [Simplifier.fold, h.mapM_value, ho]
  by_cases hall : xs.all (·.value.isSome) = true
  · rw [if_pos hall, Option.bind_some, hoperation]
    refine ⟨.known .standard v _, rfl, fun w hw => ?_, ?_, Operand.isWritten_known fun _ => hsteps⟩
    · rw [Operand.value_known] at hw
      exact (Option.some.inj hw).symm
    · rw [Operand.value_known]
      exact iff_of_true rfl (List.all_eq_true.1 hall)
  · rw [if_neg hall]
    refine ⟨.unknown _, rfl, fun w hw => absurd hw (Option.some_ne_none w).symm, ?_, hsteps⟩
    exact iff_of_false Bool.false_ne_true fun h => hall (List.all_eq_true.2 h)

/-- The operand of a suspended program has a value if the program is left as a literal. -/
def Operand.suspend (x : Operand) : Operand :=
  ⟨[.suspend x.steps], (Program.literal? x.steps).map .ofLiteral⟩

/-! ## Programs -/

/-- A program leaves operands, from left to right, that have no other values than these, and whose values are all known
exactly if all suspended programs have literals as their values. -/
structure Program.Leaves (m : Simplifier σ) (k : Machine σ) (s : σ) (p : Program) (xs : List Operand)
    (vs : List Value) : Prop where
  run : ∀ stack, m.run stack p = pure (xs.reverse ++ stack)
  agree : Operand.Agree xs vs
  isSome : (∀ x ∈ xs, x.value.isSome = true) ↔ Program.HasLiteralBranches k s p

namespace Program.Leaves

variable {m : Simplifier σ} {k : Machine σ} {s : σ} {p q : Program} {xs ys : List Operand} {vs ws : List Value}

theorem append (hp : p.Leaves m k s xs vs) (hq : q.Leaves m k s ys ws) :
    (p ++ q).Leaves m k s (xs ++ ys) (vs ++ ws) where
  run stack := by
    rw [m.run_append, hp.run, pure_bind, hq.run, List.reverse_append, List.append_assoc]
  agree := List.rel_append hp.agree hq.agree
  isSome := by
    rw [List.forall_mem_append, hp.isSome, hq.isSome, Program.hasLiteralBranches_append]

/-- A step that pushes a known value. -/
theorem push {i : Instruction} (hi : ∀ body, i ≠ .suspend body) {o : Options} {v : Value} {steps : Program}
    (h : ∀ stack, m.step stack i = pure (.known o v steps :: stack)) :
    Program.Leaves m k s [i] [.known o v steps] [v] where
  run stack := by
    rw [Simplifier.run, h, pure_bind, Simplifier.run]
    rfl
  agree := by
    refine .cons (fun w hw => ?_) .nil
    rw [Operand.value_known] at hw
    exact (Option.some.inj hw).symm
  isSome := by
    rw [List.forall_mem_singleton, Operand.value_known]
    exact iff_of_true rfl (Program.hasLiteralBranches_step hi)

/-- A suspended program has a known value exactly if it is left as a literal. -/
theorem suspend {x : Operand} {v : Value} (h : p.Leaves m k s [x] [v]) (hx : x.IsWritten)
    (hv : Program.HasLiteral k s p ↔ ∃ l, v = .ofLiteral l) :
    Program.Leaves m k s [.suspend p] [x.suspend] [v] where
  run stack := by
    simp [Simplifier.run, Simplifier.step, h.run, Operand.suspend, Operand.allSteps]
  agree := by
    obtain _ | ⟨hvalue, -⟩ := h.agree
    refine .cons (fun w hw => ?_) .nil
    rw [Operand.suspend, hx] at hw
    obtain ⟨l, hl, rfl⟩ := Option.map_eq_some_iff.1 hw
    obtain ⟨u, hu, hl⟩ := Option.bind_eq_some_iff.1 hl
    rw [Value.ofLiteral_of_literal? hl]
    exact hvalue u hu
  isSome := by
    obtain _ | ⟨hvalue, -⟩ := h.agree
    have hsome := h.isSome
    rw [List.forall_mem_singleton] at hsome
    rw [List.forall_mem_singleton, Program.hasLiteralBranches_suspend, hv, ← hsome, Operand.suspend, hx,
      Option.isSome_map]
    cases hknown : x.value with
    | none => exact iff_of_false Bool.false_ne_true fun h => Bool.false_ne_true h.2
    | some u =>
      obtain rfl := hvalue u hknown
      rw [Option.bind_some, Value.isSome_literal?_iff]
      exact (and_iff_left rfl).symm

/-- An operation takes the place of the operands, whether or not it is folded. -/
theorem exists_fold (hp : p.Leaves m k s xs vs) (ho : m.options = .standard) {i : Instruction}
    (hi : i.literal? = none) (hstrict : ∀ body, i ≠ .suspend body)
    (hstep : ∀ stack, m.step stack i = m.foldTop i xs.length stack) {v : Value}
    (hoperation : m.operation? i vs = some (pure v)) :
    ∃ x : Operand, (p ++ [i]).Leaves m k s [x] [v] ∧ x.IsWritten := by
  obtain ⟨x, hx, hvalue, hsome, hwritten⟩ := hp.agree.exists_fold ho hi hoperation
  refine ⟨x, ⟨fun stack => ?_, .cons hvalue .nil, ?_⟩, hwritten⟩
  · have hlength : xs.length = xs.reverse.length := List.length_reverse.symm
    rw [Simplifier.run_concat (hp.run stack), hstep, Simplifier.foldTop, hlength, List.take_left, List.drop_left,
      List.reverse_reverse, hx, pure_bind]
    rfl
  · rw [List.forall_mem_singleton, hsome, hp.isSome, Program.hasLiteralBranches_append]
    exact (and_iff_left (Program.hasLiteralBranches_step hstrict)).symm

end Program.Leaves

/-! ## Expressions -/

section

variable {m : Machine σ} {x y z : Expr} {u v w : Value}

/-- Where both operands have values, `and` and `or` are operators as others are. -/
theorem Expr.evaluate_binary {op : String} (hx : x.evaluate m = pure v) (hy : y.evaluate m = pure w) :
    (Expr.binary op x y).evaluate m = Machine.applyBinary m.host m.env op v w := by
  rw [Expr.evaluate, hx, hy, pure_bind, Machine.applyBinary, pure_bind, pure_bind]
  cases v.isTruthy <;> simp

theorem Expr.evaluate_choice (hx : x.evaluate m = pure u) (hy : y.evaluate m = pure v) (hz : z.evaluate m = pure w) :
    (Expr.choice x y z).evaluate m = pure (u.choose v w) := by
  rw [Expr.evaluate, hx, hy, hz, pure_bind, Value.choose]
  cases u.isTruthy <;> rfl

end

section

variable {host : Host σ} {known : Variables} {s : σ}

/-- The program of an expression with this value has a literal as its value if the value is one. -/
theorem Program.hasLiteral_program {k : Machine σ} {e : Expr} {v : Value} (h : e.evaluate k = pure v) :
    Program.HasLiteral k s e.program ↔ ∃ l, v = .ofLiteral l := by
  have hvalue : (e.program.evaluate k).run.run s = (.ok v, s) := by
    rw [Program.evaluate_expr, h]
    rfl
  rw [Program.HasLiteral, hvalue]
  exact exists_congr fun l => ⟨fun h => Except.ok.inj (congrArg Prod.fst h), fun h => by rw [h]⟩

/-- An expression without calls, of whose names everything is known, has a value, and simplification knows it exactly if
all suspended programs have literals as their values. -/
theorem Expr.exists_leaves (hhost : host.HasOperators) : (e : Expr) → ∀ {dotted : Bool},
    e.Printable Environment.standard.grammar .standard dotted → Program.IsDetermined known e.program →
      ∃ (v : Value) (x : Operand), e.evaluate ⟨host, .standard, known⟩ = pure v ∧ x.IsWritten ∧
        Program.Leaves ⟨host, .standard, .standard, known⟩ ⟨host, .standard, known⟩ s e.program [x] [v]
  | .number a, _, _, _ => by
    refine ⟨.number a, .known .standard (.number a) [.number a], rfl, Operand.isWritten_known nofun, ?_⟩
    exact .push (i := .number a) nofun fun stack => by rw [Simplifier.step]
  | .string a, _, _, _ => by
    refine ⟨.string a, .known .standard (.string a) [.string a], rfl, Operand.isWritten_known nofun, ?_⟩
    exact .push (i := .string a) nofun fun stack => by rw [Simplifier.step]
  | .name n, _, _, hknown => by
    obtain ⟨v, hv⟩ := (hknown (.load n) (.head _)).2 n rfl
    refine ⟨v, .known .standard v [.load n], ?_, Operand.isWritten_known fun _ => rfl, ?_⟩
    · rw [Expr.evaluate, hv]
    · exact .push (i := .load n) nofun fun stack => by rw [Simplifier.step, hv]
  | .unary op x, _, ⟨_, hop, hx⟩, hknown => by
    obtain ⟨hxknown, -⟩ := Program.isDetermined_append.1 hknown
    obtain ⟨v, y, hv, -, hy⟩ := Expr.exists_leaves hhost x hx hxknown
    obtain ⟨apply, happly⟩ := hhost.unary op hop
    obtain ⟨z, hz, hwritten⟩ := hy.exists_fold rfl (i := .unary op) rfl nofun
      (fun stack => by rw [Simplifier.step]; rfl) (congrArg some (happly v))
    refine ⟨apply v, z, ?_, hwritten, hz⟩
    rw [Expr.evaluate, hv, pure_bind]
    exact happly v
  | .binary op x y, _, ⟨_, hop, hx, hy⟩, hknown => by
    obtain ⟨hknown, -⟩ := Program.isDetermined_append.1 hknown
    obtain ⟨hxknown, hyknown⟩ := Program.isDetermined_append.1 hknown
    obtain ⟨v, a, hv, -, ha⟩ := Expr.exists_leaves hhost x hx hxknown
    -- a right operand that may not be evaluated has its value all the same, but only as a literal is it known
    have hright : ∃ (w : Value) (b : Operand), y.evaluate ⟨host, .standard, known⟩ = pure w ∧
        Program.Leaves ⟨host, .standard, .standard, known⟩ ⟨host, .standard, known⟩ s
          (if isShortCircuit op then [.suspend y.program] else y.program) [b] [w] := by
      by_cases hlazy : isShortCircuit op = true
      · rw [if_pos hlazy] at hyknown ⊢
        obtain ⟨w, b, hw, hwritten, hb⟩ := Expr.exists_leaves hhost y hy hyknown.body
        exact ⟨w, b.suspend, hw, hb.suspend hwritten (Program.hasLiteral_program hw)⟩
      · rw [if_neg hlazy] at hyknown ⊢
        obtain ⟨w, b, hw, -, hb⟩ := Expr.exists_leaves hhost y hy hyknown
        exact ⟨w, b, hw, hb⟩
    obtain ⟨w, b, hw, hb⟩ := hright
    obtain ⟨apply, happly⟩ := hhost.binary op hop
    obtain ⟨z, hz, hwritten⟩ := (ha.append hb).exists_fold rfl (i := .binary op) rfl nofun
      (fun stack => by rw [Simplifier.step]; rfl) (congrArg some (happly v w))
    exact ⟨apply v w, z, (Expr.evaluate_binary hv hw).trans (happly v w), hwritten, hz⟩
  | .choice c x y, _, ⟨_, _, hc, hx, hy⟩, hknown => by
    obtain ⟨hcknown, hbranches⟩ := Program.isDetermined_append.1 hknown
    obtain ⟨hxknown, hbranches⟩ := Program.isDetermined_append (p := [.suspend x.program]).1 hbranches
    obtain ⟨hyknown, -⟩ := Program.isDetermined_append (p := [.suspend y.program]).1 hbranches
    obtain ⟨u, a, hu, -, ha⟩ := Expr.exists_leaves hhost c hc hcknown
    obtain ⟨v, b, hv, hbwritten, hb⟩ := Expr.exists_leaves hhost x hx hxknown.body
    obtain ⟨w, d, hw, hdwritten, hd⟩ := Expr.exists_leaves hhost y hy hyknown.body
    have hoperands := (ha.append (hb.suspend hbwritten (Program.hasLiteral_program hv))).append
      (hd.suspend hdwritten (Program.hasLiteral_program hw))
    obtain ⟨z, hz, hwritten⟩ := hoperands.exists_fold rfl (i := .ternary "?") rfl nofun
      (fun stack => by rw [Simplifier.step]; rfl) (v := u.choose v w) rfl
    refine ⟨u.choose v w, z, Expr.evaluate_choice hu hv hw, hwritten, ?_⟩
    simpa [Expr.program] using hz
  | .call f args, _, _, hknown => by
    obtain ⟨-, hcall⟩ := Program.isDetermined_append.1 hknown
    exact absurd rfl ((hcall (.call args.length) (.head _)).1 args.length)
  | .member x field, _, ⟨_, _, _, hx⟩, hknown => by
    obtain ⟨hxknown, -⟩ := Program.isDetermined_append.1 hknown
    obtain ⟨v, y, hv, -, hy⟩ := Expr.exists_leaves hhost x hx hxknown
    obtain ⟨z, hz, hwritten⟩ := hy.exists_fold rfl (i := .member field) rfl nofun
      (fun stack => by rw [Simplifier.step]; rfl) rfl
    refine ⟨v.field field, z, ?_, hwritten, hz⟩
    rw [Expr.evaluate, hv]
    rfl

end

/-! ## Formulas -/

/-- A formula of the standard environment without calls, all of whose symbols are bound, has a value. If that is a
number or a string, simplification leaves nothing but this literal exactly if all branches of `?` and right operands of
`and` and `or` have numbers or strings as their values, too. -/
theorem Formula.simplify_eq_literal_iff (chance : StateM σ Float) (run : String → List Value → Eval σ Value)
    {code : String} {f : Formula} (hf : Formula.parse .standard code = .ok f)
    (hcalls : ∀ n, .call n ∉ Program.nested f.program) {known : Variables}
    (hknown : ∀ name ∈ f.symbols false, (known name).isSome = true) (s : σ) :
    let host : Host σ := .withBuiltins chance run
    ∃ v : Value, (f.evaluate host known).run.run s = (.ok v, s) ∧
      ∀ l : Literal, v = .ofLiteral l →
        ((f.simplify host known).run s = ({ f with program := [.ofLiteral l] }, s) ↔
          Program.HasLiteralBranches ⟨host, f.env, known⟩ s f.program) := by
  intro host
  obtain ⟨p, hp, rfl⟩ := Formula.exists_of_parseWith hf
  obtain ⟨e, rfl, he, -⟩ := Program.exists_printable (Environment.isReadable_standard .standard) hp
  have hdetermined : Program.IsDetermined known e.program := Program.isDetermined_of_symbols hcalls hknown
  obtain ⟨v, x, hv, hwritten, hx⟩ :=
    Expr.exists_leaves (s := s) (Host.hasOperators_withBuiltins chance run) e he hdetermined
  have hevaluate : e.program.evaluate ⟨host, .standard, known⟩ = pure v := (Program.evaluate_expr _ e).trans hv
  let f : Formula := ⟨e.program, .standard, .standard⟩
  have hsimplify : f.simplify host known = pure { f with program := x.steps } := by
    rw [Formula.simplify, Program.simplify, hx.run]
    simp [Operand.allSteps]
  refine ⟨v, congrFun hevaluate s, ?_⟩
  rintro l rfl
  -- the one operand that is left is the literal if its value is known, and then it has no other value
  obtain _ | ⟨hvalue, -⟩ := hx.agree
  have hsteps : x.steps = [.ofLiteral l] ↔ x.value.isSome = true := by
    rw [← Program.literal?_eq_some_iff, hwritten]
    cases hknown : x.value with
    | none => exact iff_of_false (Option.some_ne_none l).symm Bool.false_ne_true
    | some w =>
      obtain rfl := hvalue w hknown
      exact iff_of_true (Value.literal?_ofLiteral l) rfl
  have hsome := hx.isSome
  rw [List.forall_mem_singleton] at hsome
  have hresult : (f.simplify host known).run s = ({ f with program := [.ofLiteral l] }, s) ↔
      x.steps = [.ofLiteral l] := by
    rw [hsimplify]
    exact ⟨fun h => congrArg Formula.program (congrArg Prod.fst h), fun h => by rw [h]; rfl⟩
  exact hresult.trans (hsteps.trans hsome)

/-- Both branches of `x ? y : 2` have numbers as their values. -/
theorem Formula.simplify_eq_literal_iff_choice :
    let host : Host Unit := .withBuiltins (pure 0) fun _ _ => pure .void
    let known : Variables := fun name =>
      if name = "x" then some (.number 1) else if name = "y" then some (.number 3) else none
    let f : Formula := ⟨[.load "x", .suspend [.load "y"], .suspend [.number 2], .ternary "?"], .standard, .standard⟩
    Formula.parse .standard "x ? y : 2" = .ok f ∧ (∀ n, .call n ∉ Program.nested f.program) ∧
      (∀ name ∈ f.symbols false, (known name).isSome = true) ∧
      (f.simplify host known).run () = ({ f with program := [.number 3] }, ()) := by
  intro host known f
  let g : Grammar := (Environment.standard.withOptions .standard).grammar
  have hx : (Expr.name "x").Printable g .standard false :=
    Expr.printable_name (by decide) (by decide +kernel) (by decide +kernel)
  have hy : (Expr.name "y").Printable g .standard false :=
    Expr.printable_name (by decide) (by decide +kernel) (by decide +kernel)
  have htwo : Unsigned 2 := by decide
  have hchoice : (Expr.choice (.name "x") (.name "y") (.number 2)).Printable g .standard false :=
    ⟨⟨by decide, .inl (by decide)⟩, ⟨by decide, .inl (by decide)⟩, hx, hy, Expr.canSpell_of_unsigned htwo⟩
  have hf : Formula.parse .standard "x ? y : 2" = .ok f :=
    Formula.parseWith_render (o := .standard) hchoice
      (by simp only [Expr.spelled, Expr.spellNumber_of_unsigned htwo]) (by decide +kernel)
  have hcalls : ∀ n, .call n ∉ Program.nested f.program := by
    intro n h
    simp [f, Program.nested, Instruction.nested] at h
  have hknown : ∀ name ∈ f.symbols false, (known name).isSome = true := by decide
  obtain ⟨v, hv, hsimplify⟩ := Formula.simplify_eq_literal_iff (pure 0) (fun _ _ => pure .void) hf hcalls hknown ()
  have hthree : (f.evaluate host known).run.run () = (.ok (.number 3), ()) := rfl
  have hv : v = .number 3 := Except.ok.inj (congrArg Prod.fst (hv.symm.trans hthree))
  have hbranches : Program.HasLiteralBranches ⟨host, f.env, known⟩ () f.program := by
    intro body hbody
    simp only [f, Program.nested, Instruction.nested, List.cons_append, List.nil_append, List.append_nil,
      List.mem_cons, Instruction.suspend.injEq, reduceCtorEq, List.not_mem_nil, false_or, or_false] at hbody
    rcases hbody with rfl | rfl
    · exact ⟨.number 3, rfl⟩
    · exact ⟨.number 2, rfl⟩
  exact ⟨hf, hcalls, hknown, (hsimplify (.number 3) hv).2 hbranches⟩

/-- In `1 and x` the value of the record does not matter, but it cannot be written down. -/
theorem Formula.simplify_eq_literal_iff_record :
    let host : Host Unit := .withBuiltins (pure 0) fun _ _ => pure .void
    let known : Variables := fun name => if name = "x" then some (.record []) else none
    let f : Formula := ⟨[.number 1, .suspend [.load "x"], .binary "and"], .standard, .standard⟩
    Formula.parse .standard "1 and x" = .ok f ∧ (∀ n, .call n ∉ Program.nested f.program) ∧
      (∀ name ∈ f.symbols false, (known name).isSome = true) ∧
      (f.evaluate host known).run.run () = (.ok (.number 1), ()) ∧
      (f.simplify host known).run () = (f, ()) ∧ f.program ≠ [.number 1] := by
  intro host known f
  let g : Grammar := (Environment.standard.withOptions .standard).grammar
  have hx : (Expr.name "x").Printable g .standard false :=
    Expr.printable_name (by decide) (by decide +kernel) (by decide +kernel)
  have hone : Unsigned 1 := by decide
  have hand : (Expr.binary "and" (.number 1) (.name "x")).Printable g .standard false :=
    ⟨⟨by decide, .inr (by decide +kernel)⟩, .inr ⟨.conjunction, by decide⟩, Expr.canSpell_of_unsigned hone, hx⟩
  have hf : Formula.parse .standard "1 and x" = .ok f :=
    Formula.parseWith_render (o := .standard) hand
      (by simp only [Expr.spelled, Expr.spellNumber_of_unsigned hone]) (by decide +kernel)
  have hcalls : ∀ n, .call n ∉ Program.nested f.program := by
    intro n h
    simp [f, Program.nested, Instruction.nested] at h
  exact ⟨hf, hcalls, by decide, rfl, rfl, nofun⟩

end Reckon
