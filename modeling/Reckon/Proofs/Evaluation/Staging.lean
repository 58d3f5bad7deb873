import Reckon.Proofs.Evaluation.Outcomes
import Reckon.Proofs.Evaluation.Simplification

/-!
# Simplification in stages

A program may be simplified with what is known early, and what is left of it with what is known later: the outcome is
the one of simplifying with the latter at once (`Program.simplify_staged`). The early stack of operands is compared with
the late one. A value that is known early is known late, and the early steps of an operand, run on the late operands
below it, leave the late operand (`Simplifier.Resumes`). Every step keeps this (`Simplifier.step_resumes`,
`Simplifier.run_resumes`): a literal that has taken the place of steps is its own outcome, and steps that have stayed
are taken again, by operands that are the late ones.
-/

namespace Reckon

variable {σ τ : Type} {meaning : Function → List Value → Except EvalError Value}

/-! ## Values -/

/-- What the first operand is known to be, the second one is known to be. -/
def Operand.Informs (x y : Operand) : Prop :=
  ∀ v, x.value = some v → y.value = some v

theorem Operand.informs_unknown (steps : Program) (y : Operand) : (Operand.unknown steps).Informs y :=
  fun _ h => nomatch h

/-- Values of operands that are all known are known of operands that know more. -/
theorem Operand.mapM_value_of_informs {xs ys : List Operand} (h : List.Forall₂ Operand.Informs xs ys) {vs : List Value}
    (hvs : xs.mapM Operand.value = some vs) : ys.mapM Operand.value = some vs := by
  induction h generalizing vs with
  | nil => exact hvs
  | cons hxy _ ih =>
    rw [List.mapM_cons] at hvs ⊢
    obtain ⟨v, hv, hvs⟩ := Option.bind_eq_some_iff.1 hvs
    obtain ⟨ws, hws, hvs⟩ := Option.bind_eq_some_iff.1 hvs
    rw [hxy v hv, ih hws]
    exact hvs

/-! ## Stages -/

/-- A program is simplified by `m`, and what is left of it by `m'`, which knows more. -/
structure Simplifier.Precedes (m : Simplifier σ) (m' : Simplifier τ)
    (meaning : Function → List Value → Except EvalError Value) : Prop where
  env : m'.env = m.env
  options : m'.options = m.options
  early : m.host.Computes m.env meaning
  late : m'.host.Computes m'.env meaning
  names : m.env.Determines m.known m'.known

/-- The early operands, the topmost one first, lead to the late ones: what is known of them stays known, and their
steps leave the late ones. -/
inductive Simplifier.Resumes (m' : Simplifier τ) : List Operand → List Operand → Prop
  /-- No operands. -/
  | nil : Resumes m' [] []
  /-- An operand on top of others. -/
  | cons {x y : Operand} {xs ys : List Operand} (value : x.Informs y) (run : m'.run ys x.steps = pure (y :: ys))
      (below : Resumes m' xs ys) : Resumes m' (x :: xs) (y :: ys)

namespace Simplifier.Resumes

variable {m' : Simplifier τ} {xs ys : List Operand}

theorem informs (h : Resumes m' xs ys) : List.Forall₂ Operand.Informs xs ys := by
  induction h with
  | nil => exact .nil
  | cons value _ _ ih => exact .cons value ih

theorem drop (h : Resumes m' xs ys) (n : Nat) : Resumes m' (xs.drop n) (ys.drop n) := by
  induction h generalizing n with
  | nil => rw [List.drop_nil]; exact .nil
  | cons value run below ih =>
    cases n with
    | zero => exact .cons value run below
    | succ n => exact ih n

/-- The steps of the topmost early operands, run on the late ones below, leave the late stack. -/
theorem run_take (h : Resumes m' xs ys) (n : Nat) :
    m'.run (ys.drop n) (Operand.allSteps (xs.take n).reverse) = pure ys := by
  induction h generalizing n with
  | nil => simp [Simplifier.run]
  | @cons x y xs ys value run below ih =>
    cases n with
    | zero => simp [Simplifier.run]
    | succ n =>
      rw [List.drop_succ_cons, List.take_succ_cons, List.reverse_cons, Operand.allSteps_append,
        Simplifier.run_append, ih n, pure_bind]
      simpa using run

/-- A step behind the topmost early operands is one on the late stack. -/
theorem run_take_concat (h : Resumes m' xs ys) (n : Nat) (i : Instruction) :
    m'.run (ys.drop n) (Operand.allSteps (xs.take n).reverse ++ [i]) = m'.step ys i :=
  Simplifier.run_concat (h.run_take n) i

/-- The steps of all early operands leave the late stack. -/
theorem run_all (h : Resumes m' xs ys) : m'.run [] (Operand.allSteps xs.reverse) = pure ys := by
  have hlength : xs.length = ys.length := h.informs.length_eq
  have hrun := h.run_take ys.length
  rwa [List.drop_length, ← hlength, List.take_length] at hrun

/-- Values of the topmost early operands that are all known are the values of the late ones. -/
theorem mapM_value (h : Resumes m' xs ys) (n : Nat) {vs : List Value}
    (hvs : (xs.take n).reverse.mapM Operand.value = some vs) :
    (ys.take n).reverse.mapM Operand.value = some vs :=
  Operand.mapM_value_of_informs (List.forall₂_reverse_iff.2 (List.forall₂_take n h.informs)) hvs

end Simplifier.Resumes

/-! ## Literals -/

/-- A literal is what it is simplified to. -/
theorem Simplifier.run_ofLiteral (m : Simplifier σ) (l : Literal) (stack : List Operand) :
    m.run stack [.ofLiteral l] = pure (.known m.options (.ofLiteral l) [.ofLiteral l] :: stack) := by
  cases l <;> simp [Simplifier.run, Simplifier.step, Instruction.ofLiteral, Value.ofLiteral]

theorem Operand.known_ofLiteral (o : Options) (l : Literal) :
    Operand.known o (.ofLiteral l) [.ofLiteral l] = ⟨[.ofLiteral l], some (.ofLiteral l)⟩ := by
  have hl : (Value.ofLiteral l).literal? = some l := by cases l <;> rfl
  rw [Operand.known, hl]
  split
  · next h => rw [Option.eq_some_of_filter_eq_some h |> Option.some.inj]
  · rfl

/-- A literal in place of steps leaves the operand that the steps leave. -/
theorem Simplifier.run_known {m : Simplifier σ} {v : Value} {steps steps' : Program} {stack : List Operand}
    {y : Operand} (hy : y = .known m.options v steps') (hrun : m.run stack steps = pure (y :: stack)) :
    m.run stack (Operand.known m.options v steps).steps = pure (y :: stack) := by
  subst hy
  unfold Operand.known at hrun ⊢
  cases hl : v.literal?.filter (·.isWritable m.options) with
  | none => simpa only [hl] using hrun
  | some l =>
    rw [m.run_ofLiteral, Operand.known_ofLiteral, Value.ofLiteral_of_literal? (Option.eq_some_of_filter_eq_some hl)]

/-! ## Steps -/

section Steps

variable {m : Simplifier σ} {m' : Simplifier τ} {xs ys : List Operand}

/-- The early outcome of an operation and its operands leads to the late one, if the late one is left by the operation
behind the early operands. -/
theorem Simplifier.folded_resumes {o : Options} {env : Environment} (hm' : m'.options = o) {i : Instruction}
    {early late : List Operand} (hvalues : ∀ vs, early.mapM Operand.value = some vs → late.mapM Operand.value = some vs)
    {stack : List Operand} (hrun : m'.run stack (Operand.allSteps early ++ [i]) =
      pure (Operand.folded env meaning o i late :: stack)) :
    (Operand.folded env meaning o i early).Informs (Operand.folded env meaning o i late) ∧
      m'.run stack (Operand.folded env meaning o i early).steps =
        pure (Operand.folded env meaning o i late :: stack) := by
  have hearly : Operand.folded env meaning o i early = .unknown (Operand.allSteps early ++ [i]) ∨
      ∃ v, Operand.folded env meaning o i early = .known o v (Operand.allSteps early ++ [i]) ∧
        Operand.folded env meaning o i late = .known o v (Operand.allSteps late ++ [i]) := by
    unfold Operand.folded
    split
    · next v hv =>
      obtain ⟨vs, hvs, hr⟩ := Option.bind_eq_some_iff.1 hv
      rw [hvalues vs hvs, Option.bind_some, hr]
      exact .inr ⟨v, rfl, rfl⟩
    · exact .inl rfl
  rcases hearly with hunknown | ⟨v, hv, hv'⟩
  · rw [hunknown]
    exact ⟨Operand.informs_unknown _ _, hrun⟩
  · subst hm'
    rw [hv]
    refine ⟨fun w hw => ?_, Simplifier.run_known hv' hrun⟩
    rw [hv', Operand.value_known, ← hw, Operand.value_known]

/-- The topmost operands of both stacks are folded. -/
theorem Simplifier.foldTop_resumes (h : m.Precedes m' meaning) (hxs : Simplifier.Resumes m' xs ys) {i : Instruction}
    {n : Nat} (hstep : ∀ stack, m'.step stack i = m'.foldTop i n stack) :
    ∃ xs' ys', m.foldTop i n xs = pure xs' ∧ m'.foldTop i n ys = pure ys' ∧ Simplifier.Resumes m' xs' ys' := by
  let early := Operand.folded m.env meaning m.options i (xs.take n).reverse
  let late := Operand.folded m.env meaning m.options i (ys.take n).reverse
  have hearly : m.foldTop i n xs = pure (early :: xs.drop n) := by
    rw [Simplifier.foldTop, Simplifier.fold_eq h.early, pure_bind]
  have hlate : m'.foldTop i n ys = pure (late :: ys.drop n) := by
    rw [Simplifier.foldTop, Simplifier.fold_eq h.late, pure_bind, h.env, h.options]
  have hrun : m'.run (ys.drop n) (Operand.allSteps (xs.take n).reverse ++ [i]) = pure (late :: ys.drop n) := by
    rw [hxs.run_take_concat, hstep, hlate]
  obtain ⟨hvalue, hsteps⟩ := Simplifier.folded_resumes h.options (fun _ => hxs.mapM_value n) hrun
  exact ⟨_, _, hearly, hlate, .cons hvalue hsteps (hxs.drop n)⟩

/-- A known operand leads to the late one, if the steps that compute its value leave that one. -/
theorem Simplifier.Resumes.push_known (h : m.Precedes m' meaning) (hxs : Simplifier.Resumes m' xs ys) {v : Value}
    {steps : Program} (hrun : m'.run ys steps = pure (.known m'.options v steps :: ys)) :
    Simplifier.Resumes m' (.known m.options v steps :: xs) (.known m'.options v steps :: ys) := by
  rw [← h.options]
  exact .cons (fun _ hw => hw) (Simplifier.run_known rfl hrun) hxs

/-- What is left of a suspended program that leaves these operands. -/
def Operand.suspended (operands : List Operand) : Operand :=
  let body := Operand.allSteps operands.reverse
  ⟨[.suspend body], (Program.literal? body).map .ofLiteral⟩

theorem Simplifier.step_suspend {body : Program} {operands : List Operand} (h : m.run [] body = pure operands)
    (stack : List Operand) : m.step stack (.suspend body) = pure (.suspended operands :: stack) := by
  rw [Simplifier.step, h, pure_bind]
  rfl

/-- What is a literal early is this literal late. -/
theorem Simplifier.Resumes.literal? [Nonempty τ] (h : Simplifier.Resumes m' xs ys) {l : Literal}
    (hl : Program.literal? (Operand.allSteps xs.reverse) = some l) :
    Program.literal? (Operand.allSteps ys.reverse) = some l := by
  have hrun := h.run_all
  rw [Program.literal?_eq_some_iff.1 hl, m'.run_ofLiteral, Operand.known_ofLiteral] at hrun
  rw [← StateM.eq_of_pure_eq hrun]
  exact Program.literal?_eq_some_iff.2 rfl

mutual

/-- A step leaves stacks of which the early one leads to the late one. -/
theorem Simplifier.step_resumes [Nonempty τ] (h : m.Precedes m' meaning) {xs ys : List Operand}
    (hxs : Simplifier.Resumes m' xs ys) : (i : Instruction) →
    ∃ xs' ys', m.step xs i = pure xs' ∧ m'.step ys i = pure ys' ∧ Simplifier.Resumes m' xs' ys'
  | .number v => by
    refine ⟨_, _, by rw [Simplifier.step], by rw [Simplifier.step], hxs.push_known h ?_⟩
    exact m'.run_ofLiteral (.number v) ys
  | .string v => by
    refine ⟨_, _, by rw [Simplifier.step], by rw [Simplifier.step], hxs.push_known h ?_⟩
    exact m'.run_ofLiteral (.string v) ys
  | .load name => by
    have hload : m'.run ys [.load name] = m'.step ys (.load name) := Simplifier.run_step ys (.load name)
    rw [Simplifier.step]
    cases hv : m.env.resolve? m.known name with
    | some v =>
      have hlate : m'.step ys (.load name) = pure (.known m'.options v [.load name] :: ys) := by
        rw [Simplifier.step, h.env, h.names.resolve? hv]
      exact ⟨_, _, rfl, hlate, hxs.push_known h (hload.trans hlate)⟩
    | none =>
      obtain ⟨y, hlate⟩ : ∃ y, m'.step ys (.load name) = pure (y :: ys) := by
        rw [Simplifier.step]
        split <;> exact ⟨_, rfl⟩
      exact ⟨_, _, rfl, hlate, .cons (Operand.informs_unknown _ _) (hload.trans hlate) hxs⟩
  | .unary op => by
    rw [Simplifier.step, Simplifier.step]
    exact Simplifier.foldTop_resumes h hxs fun stack => by rw [Simplifier.step]
  | .binary op => by
    rw [Simplifier.step, Simplifier.step]
    exact Simplifier.foldTop_resumes h hxs fun stack => by rw [Simplifier.step]
  | .ternary op => by
    rw [Simplifier.step, Simplifier.step]
    exact Simplifier.foldTop_resumes h hxs fun stack => by rw [Simplifier.step]
  | .member field => by
    rw [Simplifier.step, Simplifier.step]
    exact Simplifier.foldTop_resumes h hxs fun stack => by rw [Simplifier.step]
  | .call argCount => by
    let n := Simplifier.operandCount argCount
    have hlate : m'.step ys (.call argCount) =
        pure (.unknown (Operand.allSteps (ys.take n).reverse ++ [.call argCount]) :: ys.drop n) := by
      rw [Simplifier.step]
    exact ⟨_, _, by rw [Simplifier.step], hlate,
      .cons (Operand.informs_unknown _ _) ((hxs.run_take_concat n _).trans hlate) (hxs.drop n)⟩
  | .suspend body => by
    obtain ⟨early, late, hearly, hlate, hbody⟩ := Simplifier.run_resumes h .nil body
    have hagain : m'.run ys (Operand.suspended early).steps = pure (.suspended late :: ys) :=
      (Simplifier.run_step ys _).trans (Simplifier.step_suspend hbody.run_all ys)
    refine ⟨_, _, Simplifier.step_suspend hearly xs, Simplifier.step_suspend hlate ys,
      .cons (fun v hv => ?_) hagain hxs⟩
    obtain ⟨l, hl, rfl⟩ := Option.map_eq_some_iff.1 hv
    exact Option.map_eq_some_iff.2 ⟨l, hbody.literal? hl, rfl⟩

/-- The steps of a program leave stacks of which the early one leads to the late one. -/
theorem Simplifier.run_resumes [Nonempty τ] (h : m.Precedes m' meaning) {xs ys : List Operand}
    (hxs : Simplifier.Resumes m' xs ys) : (p : List Instruction) →
    ∃ xs' ys', m.run xs p = pure xs' ∧ m'.run ys p = pure ys' ∧ Simplifier.Resumes m' xs' ys'
  | [] => ⟨xs, ys, by rw [Simplifier.run], by rw [Simplifier.run], hxs⟩
  | i :: rest => by
    obtain ⟨xs', ys', hearly, hlate, hxs'⟩ := Simplifier.step_resumes h hxs i
    obtain ⟨xs'', ys'', hearly', hlate', hxs''⟩ := Simplifier.run_resumes h hxs' rest
    exact ⟨xs'', ys'', by rw [Simplifier.run, hearly, pure_bind, hearly'],
      by rw [Simplifier.run, hlate, pure_bind, hlate'], hxs''⟩

end

/-- What is left of a program early has the outcome of the program late. -/
theorem Program.simplify_resumes [Nonempty τ] (h : m.Precedes m' meaning) (p : Program) :
    ∃ q r, p.simplify m = pure q ∧ q.simplify m' = pure r ∧ p.simplify m' = pure r := by
  obtain ⟨early, late, hearly, hlate, hresumes⟩ := Simplifier.run_resumes h .nil p
  refine ⟨Operand.allSteps early.reverse, Operand.allSteps late.reverse, ?_, ?_, ?_⟩
  · rw [Program.simplify, hearly, pure_bind]
  · rw [Program.simplify, hresumes.run_all, pure_bind]
  · rw [Program.simplify, hlate, pure_bind]

end Steps

/-! ## Programs -/

/-- What is left of a program, simplified with what is known later, is what simplifying the program with that leaves;
simplifying it once more changes nothing. Numbers of arguments have no limit (`Simplifier.operandCount`); those of 64
bits are treated in `Reckon.Sizes`. -/
theorem Program.simplify_staged (host : Host σ) (env : Environment) (o : Options) (known known' : Variables)
    (meaning : Function → List Value → Except EvalError Value) (hhost : host.Computes env meaning)
    (hknown : env.Determines known known') (p : Program) (s : σ) :
    ∃ q r, (Program.simplify ⟨host, env, o, known⟩ p).run s = (q, s) ∧
      (Program.simplify ⟨host, env, o, known'⟩ q).run s = (r, s) ∧
      (Program.simplify ⟨host, env, o, known'⟩ p).run s = (r, s) ∧
      (Program.simplify ⟨host, env, o, known'⟩ r).run s = (r, s) := by
  have : Nonempty σ := ⟨s⟩
  let m : Simplifier σ := ⟨host, env, o, known⟩
  let m' : Simplifier σ := ⟨host, env, o, known'⟩
  have hstages : m.Precedes m' meaning := ⟨rfl, rfl, hhost, hhost, hknown⟩
  have hagain : m'.Precedes m' meaning := ⟨rfl, rfl, hhost, hhost, fun _ _ h => h, fun _ _ h => h⟩
  obtain ⟨q, r, hq, hqr, hr⟩ := Program.simplify_resumes hstages p
  obtain ⟨r', r'', hr', hrr, hr''⟩ := Program.simplify_resumes hagain p
  obtain rfl : r' = r := StateM.eq_of_pure_eq (hr'.symm.trans hr)
  obtain rfl : r'' = r' := StateM.eq_of_pure_eq (hr''.symm.trans hr)
  exact ⟨q, r'', congrFun hq s, congrFun hqr s, congrFun hr s, congrFun hrr s⟩

/-- `(1 + 2) * x * y` in the standard environment, where `x` is known early and `y` late. -/
theorem Program.simplify_staged_product :
    let host : Host Unit := .withBuiltins (pure 0) fun _ _ => pure .void
    let known : Variables := fun name => if name = "x" then some (.number 2) else none
    let known' : Variables := fun name => if name = "y" then some (.string "m") else known name
    let p : Program := [.number 1, .number 2, .binary "+", .load "x", .binary "*", .load "y", .binary "*"]
    host.Computes .standard Function.standardMeaning ∧ Environment.standard.Determines known known' ∧
      ∃ q r, (Program.simplify ⟨host, .standard, .standard, known⟩ p).run () = (q, ()) ∧
        (Program.simplify ⟨host, .standard, .standard, known'⟩ q).run () = (r, ()) ∧
        (Program.simplify ⟨host, .standard, .standard, known'⟩ p).run () = (r, ()) ∧
        (Program.simplify ⟨host, .standard, .standard, known'⟩ r).run () = (r, ()) := by
  intro host known known' p
  have hhost : host.Computes .standard Function.standardMeaning := Host.computes_withBuiltins _ _ .standard
  have hknown : Environment.standard.Determines known known' := by
    constructor
    · intro name v hv
      have hname : name ≠ "y" := by
        rintro rfl
        exact absurd hv (by simp [known])
      exact (if_neg hname).trans hv
    · intro name hconstant hname
      have hname' : name ≠ "y" := by
        rintro rfl
        exact absurd hconstant (by decide)
      exact (if_neg hname').trans hname
  exact ⟨hhost, hknown,
    Program.simplify_staged host .standard .standard known known' _ hhost hknown p ()⟩

end Reckon
