import Mathlib.Data.List.Induction
import Reckon.Proofs.Evaluation.Remainder

/-!
# Normal forms

Where the operators of an environment are functions of their arguments, simplification leaves nothing to fold
(`Program.isNormal_simplify`): wherever an operation stands behind its operands and all of these are single literals,
inline or suspended, its value is not one that can be written down, or it has none (`Program.IsNormal`). Operands that
are single literals are single steps, so they stand right in front of the operation. When the operation was met, they
were the topmost operands (`Operand.take_of_suffix`), since the steps of an operand end in a literal only if there are
no others (`Operand.IsRipe`). Their values were known, so the operation was applied to them, and a result that can be
written down would have taken its place (`Operand.folded_cases`).
-/

namespace Reckon

variable {σ : Type}

/-! ## Operations on literals -/

/-- The literal that a step pushes, inline or suspended. -/
def Instruction.operandLiteral? : Instruction → Option Literal
  | .suspend body => Program.literal? body
  | i => i.literal?

/-- How many operands a step takes that is an operator or takes a field. -/
def Instruction.arity? : Instruction → Option Nat
  | .unary _ | .member _ => some 1
  | .binary _ => some 2
  | .ternary _ => some 3
  | _ => none

theorem Instruction.operandLiteral?_of_arity? {i : Instruction} {n : Nat} (h : i.arity? = some n) :
    i.operandLiteral? = none := by
  cases i with
  | unary _ | binary _ | ternary _ | member _ => rfl
  | _ => cases h

theorem Instruction.suspend_notMem_nested_of_arity? {i : Instruction} {n : Nat} (h : i.arity? = some n)
    (body : Program) : .suspend body ∉ i.nested := by
  cases i with
  | unary _ | binary _ | ternary _ | member _ => simp [Instruction.nested]
  | _ => cases h

/-- An operation with operands that are single literals. -/
structure Program.IsRedex (operands : Program) (i : Instruction) : Prop where
  arity : i.arity? = some operands.length
  literals : ∀ j ∈ operands, ∃ l : Literal, j.operandLiteral? = some l

/-- The evaluation of a program fails, or its value cannot be written down. -/
def Program.IsUnwritable (k : Machine σ) (o : Options) (p : Program) : Prop :=
  ∀ s v, ((p.evaluate k).run.run s).1 = .ok v → ∀ l, v.literal? = some l → l.isWritable o = false

/-- Wherever an operation stands behind operands that are single literals, it fails, or its value cannot be written
down. -/
def Program.IsFolded (k : Machine σ) (o : Options) (p : Program) : Prop :=
  ∀ operands i, Program.IsRedex operands i → operands ++ [i] <:+: p → Program.IsUnwritable k o (operands ++ [i])

/-- Nothing can be folded in a program and in those that are suspended in it, at any depth. -/
structure Program.IsNormal (k : Machine σ) (o : Options) (p : Program) : Prop where
  folded : p.IsFolded k o
  suspended : ∀ body, .suspend body ∈ Program.nested p → Program.IsFolded k o body

/-! ## Normal forms of parts -/

section

variable {k : Machine σ} {o : Options} {p q : Program} {i : Instruction}

theorem Program.isNormal_nil : Program.IsNormal k o [] where
  folded operands i _ h := by
    rw [List.infix_nil] at h
    exact absurd h (List.concat_ne_nil _ _)
  suspended _ h := nomatch h

theorem Program.IsNormal.of_append (h : Program.IsNormal k o (p ++ q)) : p.IsNormal k o where
  folded operands i hredex hoccurs := h.folded operands i hredex (hoccurs.trans (List.prefix_append p q).isInfix)
  suspended body hbody := h.suspended body (Program.nested_append p q ▸ List.mem_append_left _ hbody)

/-- One more step, which is no operation on literals unless that cannot be folded. -/
theorem Program.IsNormal.concat (h : p.IsNormal k o)
    (hredex : ∀ operands, Program.IsRedex operands i → operands <:+ p → Program.IsUnwritable k o (operands ++ [i]))
    (hbody : ∀ body, .suspend body ∈ i.nested → Program.IsFolded k o body) : Program.IsNormal k o (p ++ [i]) where
  folded operands j hj hoccurs := by
    rcases List.infix_concat_iff.1 hoccurs with hend | hoccurs
    · obtain hnil | ⟨t, ht, hsuffix⟩ := List.suffix_concat_iff.1 hend
      · exact absurd hnil (List.concat_ne_nil _ _)
      · obtain ⟨rfl, hij⟩ := List.append_inj' ht rfl
        obtain rfl := List.singleton_inj.1 hij
        exact hredex operands hj hsuffix
    · exact h.folded operands j hj hoccurs
  suspended body hmem := by
    rw [Program.nested_append, Program.nested, Program.nested, List.append_nil, List.mem_append] at hmem
    exact hmem.elim (h.suspended body) (hbody body)

end

/-! ## Operands -/

/-- The operand that is a step which pushes a literal. -/
def Operand.ofStep (j : Instruction) : Operand :=
  ⟨[j], j.operandLiteral?.map .ofLiteral⟩

/-- If the last step of an operand pushes a literal, the operand is that step. -/
def Operand.IsRipe (x : Operand) : Prop :=
  ∃ steps j, x.steps = steps ++ [j] ∧ ∀ l, j.operandLiteral? = some l → x = .ofStep j

theorem Operand.isRipe_ofStep (j : Instruction) : (Operand.ofStep j).IsRipe :=
  ⟨[], j, rfl, fun _ _ => rfl⟩

theorem Operand.isRipe_of_concat {x : Operand} {steps : Program} {i : Instruction} (h : x.steps = steps ++ [i])
    (hi : i.operandLiteral? = none) : x.IsRipe :=
  ⟨steps, i, h, fun _ hl => nomatch hi.symm.trans hl⟩

theorem Operand.allSteps_ofStep (operands : Program) : Operand.allSteps (operands.map .ofStep) = operands := by
  induction operands with
  | nil => rfl
  | cons j operands ih => rw [List.map_cons, Operand.allSteps_cons, ih, Operand.ofStep, List.singleton_append]

/-- Literals at the end of the steps are the topmost operands. -/
theorem Operand.take_of_suffix {stack : List Operand} (hstack : ∀ x ∈ stack, x.IsRipe) {operands : Program}
    (hliterals : ∀ j ∈ operands, ∃ l : Literal, j.operandLiteral? = some l)
    (h : operands <:+ Operand.allSteps stack.reverse) :
    (stack.take operands.length).reverse = operands.map .ofStep := by
  induction operands using List.reverseRecOn generalizing stack with
  | nil => rfl
  | append_singleton operands j ih =>
    cases stack with
    | nil =>
      have hnil : operands ++ [j] = [] := List.suffix_nil.1 h
      exact absurd hnil (List.concat_ne_nil _ _)
    | cons x stack =>
      obtain ⟨⟨steps, j', hsteps, hx⟩, hbelow⟩ := List.forall_mem_cons.1 hstack
      obtain ⟨hfront, hlast⟩ := List.forall_mem_append.1 hliterals
      obtain ⟨l, hl⟩ := hlast j List.mem_cons_self
      rw [Operand.allSteps_push, hsteps, ← List.append_assoc] at h
      obtain hnil | ⟨t, ht, hsuffix⟩ := List.suffix_concat_iff.1 h
      · exact absurd hnil (List.concat_ne_nil _ _)
      · obtain ⟨rfl, hj⟩ := List.append_inj' ht rfl
        obtain rfl := List.singleton_inj.1 hj
        -- the operand is the literal alone, so the literals in front of it belong to the operands below
        obtain rfl := hx l hl
        obtain rfl : steps = [] := by simpa [Operand.ofStep] using hsteps
        rw [List.append_nil] at hsuffix
        rw [List.length_append, List.length_singleton, List.take_succ_cons, List.reverse_cons,
          ih hbelow hfront hsuffix, List.map_append, List.map_singleton]

theorem Operand.sound_ofStep (k : Machine σ) (j : Instruction) : (Operand.ofStep j).Sound k := by
  intro v hv
  obtain ⟨l, hl, rfl⟩ := Option.map_eq_some_iff.1 hv
  cases j with
  | number v =>
    cases hl
    exact ⟨.value (.number v), rfl, k.run_ofLiteral (.number v)⟩
  | string s =>
    cases hl
    exact ⟨.value (.string s), rfl, k.run_ofLiteral (.string s)⟩
  | suspend body => exact Operand.exists_suspended_literal k hl
  | _ => cases hl

theorem Operand.exists_values {operands : Program} (h : ∀ j ∈ operands, ∃ l : Literal, j.operandLiteral? = some l) :
    ∃ vs : List Value, (operands.map Operand.ofStep).mapM Operand.value = some vs ∧ vs.length = operands.length := by
  induction operands with
  | nil => exact ⟨[], rfl, rfl⟩
  | cons j operands ih =>
    obtain ⟨⟨l, hl⟩, hoperands⟩ := List.forall_mem_cons.1 h
    obtain ⟨vs, hvs, hlength⟩ := ih hoperands
    refine ⟨.ofLiteral l :: vs, ?_, congrArg (· + 1) hlength⟩
    rw [List.map_cons, List.mapM_cons, hvs, Operand.ofStep, hl]
    rfl

/-- An operation has a result for as many values as it takes. -/
theorem Environment.exists_operate? (env : Environment) (meaning : Function → List Value → Except EvalError Value)
    {i : Instruction} {vs : List Value} (h : i.arity? = some vs.length) :
    ∃ r, env.operate? meaning i vs = some r := by
  cases i with
  | unary _ | member _ =>
    obtain ⟨x, rfl⟩ := List.length_eq_one_iff.1 (Option.some.inj h).symm
    exact ⟨_, rfl⟩
  | binary _ =>
    obtain ⟨x, y, rfl⟩ := List.length_eq_two.1 (Option.some.inj h).symm
    exact ⟨_, rfl⟩
  | ternary _ =>
    obtain ⟨x, y, z, rfl⟩ := List.length_eq_three.1 (Option.some.inj h).symm
    exact ⟨_, rfl⟩
  | _ => cases h

/-- An operation on literals has the value of a program that the operation is applied to their values. -/
theorem Program.IsRedex.exists_evaluate {k : Machine σ} {meaning : Function → List Value → Except EvalError Value}
    (hhost : k.host.Computes k.env meaning) {operands : Program} {i : Instruction} (h : Program.IsRedex operands i) :
    ∃ vs r, (operands.map Operand.ofStep).mapM Operand.value = some vs ∧ k.env.operate? meaning i vs = some r ∧
      Program.evaluate k (operands ++ [i]) = Eval.ofResult r := by
  obtain ⟨vs, hvs, hlength⟩ := Operand.exists_values h.literals
  obtain ⟨r, hr⟩ := k.env.exists_operate? meaning (h.arity.trans (congrArg some hlength.symm))
  have hsound : Operand.AllSound k (operands.map .ofStep) := by
    intro x hx
    obtain ⟨j, -, rfl⟩ := List.mem_map.1 hx
    exact Operand.sound_ofStep k j
  obtain ⟨items, hitems, hrun⟩ := hsound.exists_items hvs
  rw [Operand.allSteps_ofStep] at hrun
  refine ⟨vs, r, hvs, hr, ?_⟩
  rw [Program.evaluate, k.run_append, hrun, pure_bind, Machine.run, Machine.step_of_operate? hhost hitems hr]
  cases r <;> rfl

theorem Operand.known_cases (o : Options) (v : Value) (steps : Program) :
    (∃ l : Literal, Operand.known o v steps = .ofStep (.ofLiteral l)) ∨
      (Operand.known o v steps).steps = steps ∧ ∀ l, v.literal? = some l → l.isWritable o = false := by
  rw [Operand.known]
  split
  · next l hl =>
    have hv : v = .ofLiteral l := (Value.ofLiteral_of_literal? (Option.eq_some_of_filter_eq_some hl)).symm
    refine .inl ⟨l, ?_⟩
    rw [hv]
    cases l <;> rfl
  · next hliteral =>
    refine .inr ⟨rfl, fun l hl => ?_⟩
    simpa [hl] using hliteral

/-- What an operation and its operands are folded to: a literal, or they stay, and the result cannot be written down. -/
theorem Operand.folded_cases (env : Environment) (meaning : Function → List Value → Except EvalError Value)
    (o : Options) (i : Instruction) (operands : List Operand) :
    (∃ l : Literal, Operand.folded env meaning o i operands = .ofStep (.ofLiteral l)) ∨
      (Operand.folded env meaning o i operands).steps = Operand.allSteps operands ++ [i] ∧
        ∀ vs v, operands.mapM Operand.value = some vs → env.operate? meaning i vs = some (.ok v) →
          ∀ l, v.literal? = some l → l.isWritable o = false := by
  rw [Operand.folded]
  split
  · next v hv =>
    refine (Operand.known_cases o v _).imp id fun h => ⟨h.1, fun vs w hvs hw => ?_⟩
    rw [hvs, Option.bind_some, hw] at hv
    cases hv
    exact h.2
  · next hfails =>
    refine .inr ⟨rfl, fun vs v hvs hv => ?_⟩
    rw [hvs] at hfails
    exact absurd hv (hfails v)

/-! ## Steps -/

/-- Nothing can be folded in what is left of the steps that have been taken, and the operands show their literals. -/
structure Simplifier.Settled (k : Machine σ) (o : Options) (stack : List Operand) : Prop where
  normal : Program.IsNormal k o (Operand.allSteps stack.reverse)
  ripe : ∀ x ∈ stack, x.IsRipe

namespace Simplifier.Settled

section

variable {k : Machine σ} {o : Options} {stack : List Operand} {x : Operand} {i : Instruction}

theorem nil : Simplifier.Settled k o [] :=
  ⟨Program.isNormal_nil, fun _ hx => nomatch hx⟩

theorem drop (h : Simplifier.Settled k o stack) (n : Nat) : Simplifier.Settled k o (stack.drop n) where
  normal := by
    have hnormal := h.normal
    rw [Operand.allSteps_reverse stack n] at hnormal
    exact hnormal.of_append
  ripe x hx := h.ripe x (List.mem_of_mem_drop hx)

/-- A step that is no operation is put on top. -/
theorem push (h : Simplifier.Settled k o stack) (hx : x.IsRipe) (hsteps : x.steps = [i]) (hi : i.arity? = none)
    (hbody : ∀ body, .suspend body ∈ i.nested → Program.IsFolded k o body) : Simplifier.Settled k o (x :: stack) where
  normal := by
    rw [Operand.allSteps_push, hsteps]
    exact h.normal.concat (fun operands hredex => nomatch hi.symm.trans hredex.arity) hbody
  ripe := List.forall_mem_cons.2 ⟨hx, h.ripe⟩

theorem pushLiteral (h : Simplifier.Settled k o stack) (l : Literal) :
    Simplifier.Settled k o (.ofStep (.ofLiteral l) :: stack) := by
  have hnested : (Instruction.ofLiteral l).nested = [.ofLiteral l] := by cases l <;> rfl
  refine h.push (Operand.isRipe_ofStep _) rfl (by cases l <;> rfl) fun body hbody => ?_
  rw [hnested, List.mem_singleton] at hbody
  cases l <;> cases hbody

/-- The topmost operands and a step stay. -/
theorem stay (h : Simplifier.Settled k o stack) {n : Nat}
    (hsteps : x.steps = Operand.allSteps (stack.take n).reverse ++ [i]) (hi : i.operandLiteral? = none)
    (hbody : ∀ body, .suspend body ∉ i.nested)
    (hredex : ∀ operands, Program.IsRedex operands i → operands <:+ Operand.allSteps stack.reverse →
      Program.IsUnwritable k o (operands ++ [i])) : Simplifier.Settled k o (x :: stack.drop n) where
  normal := by
    rw [Operand.allSteps_push, hsteps, ← List.append_assoc, ← Operand.allSteps_reverse]
    exact h.normal.concat hredex fun body hmem => absurd hmem (hbody body)
  ripe := List.forall_mem_cons.2 ⟨Operand.isRipe_of_concat hsteps hi, (h.drop n).ripe⟩

end

section

variable {m : Simplifier σ} {vars : Variables} {meaning : Function → List Value → Except EvalError Value}
  {stack : List Operand}

/-- An operation is folded with its operands, or it fails or has a value that cannot be written down. -/
theorem foldTop (hhost : m.host.Computes m.env meaning)
    (h : Simplifier.Settled ⟨m.host, m.env, vars⟩ m.options stack) {i : Instruction} {n : Nat}
    (hi : i.arity? = some n) :
    Always (Simplifier.Settled ⟨m.host, m.env, vars⟩ m.options) (m.foldTop i n stack) := by
  rw [Simplifier.foldTop, Simplifier.fold_eq hhost, pure_bind]
  refine .pure ?_
  obtain ⟨l, hl⟩ | ⟨hsteps, hresult⟩ := Operand.folded_cases m.env meaning m.options i (stack.take n).reverse
  · rw [hl]
    exact (h.drop n).pushLiteral l
  · refine h.stay hsteps ?_ ?_ fun operands hredex hsuffix s v hv => ?_
    · exact Instruction.operandLiteral?_of_arity? hi
    · exact Instruction.suspend_notMem_nested_of_arity? hi
    · obtain ⟨vs, r, hvs, hr, hevaluate⟩ := hredex.exists_evaluate (k := ⟨m.host, m.env, vars⟩) hhost
      obtain rfl : n = operands.length := Option.some.inj (hi.symm.trans hredex.arity)
      -- the literals in front of the operation are the operands that it was folded with
      rw [Operand.take_of_suffix h.ripe hredex.literals hsuffix] at hresult
      rw [hevaluate] at hv
      cases r with
      | error e => cases hv
      | ok w =>
        obtain rfl : w = v := Except.ok.inj hv
        exact hresult vs w hvs hr

end

end Simplifier.Settled

section

variable {m : Simplifier σ} {vars : Variables} {meaning : Function → List Value → Except EvalError Value}

mutual

/-- One more step leaves nothing to fold. -/
theorem Simplifier.step_settled (hhost : m.host.Computes m.env meaning) : (i : Instruction) →
    ∀ {stack : List Operand}, Simplifier.Settled ⟨m.host, m.env, vars⟩ m.options stack →
      Always (Simplifier.Settled ⟨m.host, m.env, vars⟩ m.options) (m.step stack i)
  | .number v, _, h => by
    rw [Simplifier.step]
    exact .pure (Operand.known_ofLiteral m.options (.number v) ▸ h.pushLiteral (.number v))
  | .string s, _, h => by
    rw [Simplifier.step]
    exact .pure (Operand.known_ofLiteral m.options (.string s) ▸ h.pushLiteral (.string s))
  | .load name, _, h => by
    have hload {x : Operand} (hx : x.steps = [] ++ [.load name]) :
        Simplifier.Settled ⟨m.host, m.env, vars⟩ m.options (x :: _) :=
      h.push (Operand.isRipe_of_concat hx rfl) hx rfl (by simp [Instruction.nested])
    rw [Simplifier.step]
    cases m.env.resolve? m.known name with
    | none => exact .pure (hload rfl)
    | some v =>
      obtain ⟨l, hl⟩ | ⟨hsteps, -⟩ := Operand.known_cases m.options v [.load name]
      · exact .pure (hl ▸ h.pushLiteral l)
      · exact .pure (hload hsteps)
  | .unary op, _, h => by
    rw [Simplifier.step]
    exact h.foldTop hhost rfl
  | .binary op, _, h => by
    rw [Simplifier.step]
    exact h.foldTop hhost rfl
  | .ternary op, _, h => by
    rw [Simplifier.step]
    exact h.foldTop hhost rfl
  | .member field, _, h => by
    rw [Simplifier.step]
    exact h.foldTop hhost rfl
  | .call argCount, _, h => by
    rw [Simplifier.step]
    exact .pure (h.stay rfl rfl (by simp [Instruction.nested]) fun operands hredex => nomatch hredex.arity)
  | .suspend body, _, h => by
    rw [Simplifier.step]
    refine (Simplifier.run_settled hhost body .nil).bind fun operands hoperands => .pure ?_
    refine h.push (Operand.isRipe_ofStep _) rfl rfl fun q hq => ?_
    rw [Instruction.nested, List.mem_cons] at hq
    rcases hq with hq | hq
    · cases hq
      exact hoperands.normal.folded
    · exact hoperands.normal.suspended q hq

/-- More steps leave nothing to fold. -/
theorem Simplifier.run_settled (hhost : m.host.Computes m.env meaning) : (p : List Instruction) →
    ∀ {stack : List Operand}, Simplifier.Settled ⟨m.host, m.env, vars⟩ m.options stack →
      Always (Simplifier.Settled ⟨m.host, m.env, vars⟩ m.options) (m.run stack p)
  | [], _, h => by
    rw [Simplifier.run]
    exact .pure h
  | i :: rest, _, h => by
    rw [Simplifier.run]
    exact (Simplifier.step_settled hhost i h).bind fun _ ht => Simplifier.run_settled hhost rest ht

end

end

/-! ## Programs -/

/-- Where operators are functions, a simplified program is in normal form: nothing can be folded in it and in the
programs that are suspended in it, at any depth. -/
theorem Program.isNormal_simplify (host : Host σ) (env : Environment) (o : Options) (known vars : Variables)
    (meaning : Function → List Value → Except EvalError Value) (hhost : host.Computes env meaning) (p : Program)
    (s : σ) : Program.IsNormal ⟨host, env, vars⟩ o ((p.simplify ⟨host, env, o, known⟩).run s).1 := by
  let m : Simplifier σ := ⟨host, env, o, known⟩
  have hrun : Always (Simplifier.Settled ⟨host, env, vars⟩ o) (m.run [] p) :=
    Simplifier.run_settled (m := m) hhost p .nil
  have hsimplify : Always (Program.IsNormal ⟨host, env, vars⟩ o) (p.simplify m) :=
    hrun.bind fun _ h => .pure h.normal
  exact hsimplify s

/-- A negative number cannot be written down without `-`, so of the branches of a choice `1 - 2` stays. -/
theorem Program.isNormal_simplify_choice :
    let host : Host Unit := .withBuiltins (pure 0) fun _ _ => pure .void
    let o : Options := Options.standard.setCapability .subtract false
    let branch : Program := [.number 1, .number 2, .binary "-"]
    let p : Program := [.load "x", .suspend [.string "a", .string "b", .binary "||"], .suspend branch, .ternary "?"]
    let q : Program := [.load "x", .suspend [.string "ab"], .suspend branch, .ternary "?"]
    host.Computes .standard Function.standardMeaning ∧
      ((p.simplify ⟨host, .standard, o, fun _ => none⟩).run ()).1 = q ∧
      Program.IsNormal ⟨host, .standard, fun _ => none⟩ o q := by
  intro host o branch p q
  have hhost : host.Computes .standard Function.standardMeaning := Host.computes_withBuiltins _ _ .standard
  have hsimplify : ((p.simplify ⟨host, .standard, o, fun _ => none⟩).run ()).1 = q := rfl
  have hnormal := Program.isNormal_simplify host .standard o (fun _ => none) (fun _ => none) _ hhost p ()
  exact ⟨hhost, hsimplify, hsimplify ▸ hnormal⟩

end Reckon
