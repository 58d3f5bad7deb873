import Reckon.Proofs.Evaluation.Outcomes
import Reckon.Program.Nested
import Reckon.Sizes

/-!
# Sizes out of range

The machines that compute with sizes do what those without sizes do. Evaluation never fails for a size
(`Program.evaluateSized_eq`), since it has compared before it subtracts; nor does rendering, as long as strings fit into
memory (`Program.renderSized_eq`). Simplification adds one to the number of arguments of a call, and this is the only
sum that may not fit: it fails at the first call with as many arguments as can be counted, and otherwise does not
(`Program.simplifySized_spec`).
-/

namespace Reckon

variable {σ : Type}

namespace Size

variable {α : Type}

theorem sub_eq_ok {a b : Nat} (h : b ≤ a) : sub a b = .ok (a - b) :=
  if_pos h

theorem add_eq_ok {a b : Nat} (h : a + b < bound) : add a b = .ok (a + b) :=
  if_pos h

theorem add_eq_error {a b : Nat} (h : bound ≤ a + b) : add a b = .error .overflow :=
  if_neg (Nat.not_lt.2 h)

/-- A stack can be split below its topmost `n` items, or below all of them if there are fewer. -/
theorem splitOff_sub (n : Nat) (stack : List α) :
    splitOff (stack.length - n) stack = .ok (stack.take n, stack.drop n) := by
  rw [splitOff, if_pos (Nat.sub_le _ _)]
  rcases Nat.le_total n stack.length with h | h
  · rw [Nat.sub_sub_self h]
  · rw [Nat.sub_eq_zero_of_le h, Nat.sub_zero, List.take_length, List.drop_length, List.take_of_length_le h,
      List.drop_of_length_le h]

end Size

/-! ## Evaluation -/

namespace Machine

mutual

theorem stepSized_eq (m : Machine σ) (failure : SizeFault → EvalError) :
    (i : Instruction) → ∀ s, m.stepSized failure s i = m.step s i
  | .number _, _ | .string _, _ | .load _, _ | .unary _, _ | .binary _, _ | .ternary _, _ | .member _, _ => by
    simp only [stepSized]
  | .call argCount, s => by
    rw [stepSized, step]
    by_cases h : s.length ≤ argCount
    · rw [if_pos h, if_pos h]
    · rw [if_neg h, if_neg h, Size.sub_eq_ok (Nat.le_of_not_le h), ofSize, pure_bind, Size.splitOff_sub, ofSize,
        pure_bind]
  | .suspend body, s => by
    rw [stepSized, step, runSized_eq m failure body]

/-- Whatever stands for faults, there are none. -/
theorem runSized_eq (m : Machine σ) (failure : SizeFault → EvalError) :
    (p : List Instruction) → ∀ s, m.runSized failure s p = m.run s p
  | [], _ => by
    rw [runSized, run]
  | i :: rest, s => by
    rw [runSized, run, stepSized_eq m failure i]
    exact bind_congr fun s => runSized_eq m failure rest s

end

end Machine

namespace Program

theorem evaluateSized_eq (m : Machine σ) (failure : SizeFault → EvalError) (p : Program) :
    p.evaluateSized m failure = p.evaluate m := by
  rw [evaluateSized, m.runSized_eq failure, evaluate]

/-! ## Rendering -/

/-- The strings of a program fit into memory, which has fewer than half of the bytes that can be counted. -/
def StringsFit (p : Program) : Prop :=
  ∀ s, .string s ∈ Program.nested p → 2 * s.utf8ByteSize < Size.bound

theorem StringsFit.cons {i : Instruction} {rest : List Instruction} (h : StringsFit (i :: rest)) :
    (∀ s, .string s ∈ i.nested → 2 * s.utf8ByteSize < Size.bound) ∧ StringsFit rest :=
  ⟨fun s hs => h s (List.mem_append_left _ hs), fun s hs => h s (List.mem_append_right _ hs)⟩

mutual

theorem renderStepSized_eq : (i : Instruction) →
    (∀ s, .string s ∈ i.nested → 2 * s.utf8ByteSize < Size.bound) → ∀ stack,
      renderStepSized stack i = .ok (renderStep stack i)
  | .number _, _, _ | .load _, _, _ | .unary _, _, _ | .binary _, _, _ | .ternary _, _, _ | .member _, _, _ => by
    simp only [renderStepSized, pure, Except.pure]
  | .string s, h, stack => by
    have hfit : s.utf8ByteSize + 2 < Size.bound := by
      have := h s List.mem_cons_self
      unfold Size.bound at *
      omega
    rw [renderStepSized, Size.add_eq_ok hfit]
    rfl
  | .call argCount, _, stack => by
    rw [renderStepSized, Size.splitOff_sub, renderStep]
    rfl
  | .suspend body, h, stack => by
    rw [renderStepSized, renderOnSized_eq body fun s hs => h s (List.mem_cons_of_mem _ hs), renderStep]
    rfl

theorem renderOnSized_eq : (p : List Instruction) → StringsFit p → ∀ stack,
    renderOnSized stack p = .ok (renderOn stack p)
  | [], _, _ => by
    rw [renderOnSized, renderOn]
    rfl
  | i :: rest, h, stack => by
    rw [renderOnSized, renderStepSized_eq i h.cons.1, renderOn]
    exact renderOnSized_eq rest h.cons.2 _

end

theorem renderSized_eq {p : Program} (h : p.StringsFit) : p.renderSized = .ok p.render := by
  rw [renderSized, renderOnSized_eq p h]
  rfl

end Program

/-! ## Simplification -/

/-- A step calls with as many arguments as can be counted, or more, at any depth. -/
def Instruction.Overflows (i : Instruction) : Prop :=
  ∃ n, .call n ∈ i.nested ∧ Size.bound ≤ n + 1

/-- A step of the program does. -/
def Program.Overflows (p : Program) : Prop :=
  ∃ n, .call n ∈ Program.nested p ∧ Size.bound ≤ n + 1

theorem Program.overflows_cons {i : Instruction} {rest : List Instruction} :
    Program.Overflows (i :: rest) ↔ i.Overflows ∨ Program.Overflows rest := by
  simp only [Program.Overflows, Instruction.Overflows, Program.nested, List.mem_append, or_and_right, exists_or]

namespace Simplifier

theorem run_foldTopSized (m : Simplifier σ) (i : Instruction) (n : Nat) (stack : List Operand) :
    (m.foldTopSized i n stack).run = .ok <$> m.foldTop i n stack := by
  rw [foldTopSized, Size.splitOff_sub, foldTop]
  simp [liftExcept, Except.map]

mutual

/-- A step that does not overflow is the one without sizes. -/
theorem run_stepSized (m : Simplifier σ) : (i : Instruction) → ¬i.Overflows → ∀ stack,
    (m.stepSized stack i).run = .ok <$> m.step stack i
  | .number _, _, _ | .string _, _, _ | .load _, _, _ => by
    simp only [stepSized]
    rfl
  | .unary _, _, _ | .binary _, _, _ | .ternary _, _, _ | .member _, _, _ => by
    rw [stepSized, step, run_foldTopSized]
  | .call argCount, h, stack => by
    have hfit : argCount + 1 < Size.bound := Nat.lt_of_not_le fun hge => h ⟨argCount, List.mem_cons_self, hge⟩
    rw [stepSized, Size.add_eq_ok hfit]
    simp only [liftExcept, pure_bind, Size.splitOff_sub]
    rfl
  | .suspend body, h, stack => by
    have hbody : ¬Program.Overflows body := fun ⟨n, hn, hge⟩ => h ⟨n, List.mem_cons_of_mem _ hn, hge⟩
    rw [stepSized, step, ExceptT.run_bind, run_runSized m body hbody]
    simp

/-- Without steps that overflow, simplification is the one without sizes. -/
theorem run_runSized (m : Simplifier σ) : (p : List Instruction) → ¬Program.Overflows p → ∀ stack,
    (m.runSized stack p).run = .ok <$> m.run stack p
  | [], _, _ => by
    rw [runSized, run]
    rfl
  | i :: rest, h, stack => by
    obtain ⟨hi, hrest⟩ := not_or.1 (mt Program.overflows_cons.2 h)
    rw [runSized, run, ExceptT.run_bind, run_stepSized m i hi]
    simp [run_runSized m rest hrest]

end

/-- A computation ends with a fault from every state. -/
def Fails {α : Type} (c : ExceptT SizeFault (StateM σ) α) (e : SizeFault) : Prop :=
  ∀ s, (c.run.run s).1 = .error e

theorem Fails.bind {α β : Type} {c : ExceptT SizeFault (StateM σ) α} {e : SizeFault} (h : Fails c e)
    (f : α → ExceptT SizeFault (StateM σ) β) : Fails (c >>= f) e := by
  intro s
  have hs := h s
  rw [ExceptT.run_bind, StateT.run_bind]
  rcases hc : c.run.run s with ⟨a, s'⟩
  rw [hc] at hs
  subst hs
  rfl

/-- Behind steps of which none fails, the next one that fails ends the run. -/
theorem Fails.of_bind {α β : Type} {c : StateM σ α} {c' : ExceptT SizeFault (StateM σ) α} {e : SizeFault}
    (hc : c'.run = .ok <$> c) {f : α → ExceptT SizeFault (StateM σ) β} (h : ∀ a, Fails (f a) e) :
    Fails (c' >>= f) e := by
  intro s
  rw [ExceptT.run_bind, hc]
  exact h _ _

mutual

theorem fails_stepSized (m : Simplifier σ) : (i : Instruction) → i.Overflows → ∀ stack,
    Fails (m.stepSized stack i) .overflow
  | .number _, h, _ | .string _, h, _ | .load _, h, _ | .unary _, h, _ | .binary _, h, _ | .ternary _, h, _
  | .member _, h, _ => by
    obtain ⟨n, hn, -⟩ := h
    simp [Instruction.nested] at hn
  | .call argCount, h, stack => by
    obtain ⟨n, hn, hge⟩ := h
    cases List.mem_singleton.1 hn
    rw [stepSized, Size.add_eq_error hge]
    exact Fails.bind (fun _ => rfl) _
  | .suspend body, h, stack => by
    obtain ⟨n, hn, hge⟩ := h
    rw [stepSized]
    refine Fails.bind (fails_runSized m body ⟨n, ?_, hge⟩ []) _
    simpa [Instruction.nested] using hn

/-- With a step that overflows, simplification fails. -/
theorem fails_runSized (m : Simplifier σ) : (p : List Instruction) → Program.Overflows p → ∀ stack,
    Fails (m.runSized stack p) .overflow
  | [], h, _ => by
    obtain ⟨n, hn, -⟩ := h
    cases hn
  | i :: rest, h, stack => by
    rw [runSized]
    by_cases hi : i.Overflows
    · exact (fails_stepSized m i hi stack).bind _
    · have hrest : Program.Overflows rest := (Program.overflows_cons.1 h).resolve_left hi
      exact .of_bind (run_stepSized m i hi stack) fun s => fails_runSized m rest hrest s

end

end Simplifier

namespace Program

/-- Simplification fails if a call overflows, and otherwise it is the one without sizes. -/
theorem simplifySized_spec (m : Simplifier σ) (p : Program) :
    (¬p.Overflows → (p.simplifySized m).run = .ok <$> p.simplify m) ∧
      (p.Overflows → Simplifier.Fails (p.simplifySized m) .overflow) := by
  constructor
  · intro h
    rw [simplifySized, ExceptT.run_bind, m.run_runSized p h, simplify]
    simp
  · intro h
    exact (m.fails_runSized p h []).bind _

/-! ## Programs that memory can hold -/

/-- The numbers of arguments of a program are sizes, and its strings fit into memory. -/
structure Fits (p : Program) : Prop where
  /-- Calls name sizes. -/
  counts : ∀ n, .call n ∈ Program.nested p → n < Size.bound
  /-- Strings fit. -/
  strings : p.StringsFit

theorem Fits.overflows_iff {p : Program} (h : p.Fits) : p.Overflows ↔ .call (Size.bound - 1) ∈ Program.nested p := by
  constructor
  · rintro ⟨n, hn, hge⟩
    have hlt := h.counts n hn
    have hlast : n = Size.bound - 1 := by omega
    rwa [← hlast]
  · exact fun hmem => ⟨_, hmem, Nat.le_of_eq rfl⟩

/-- Whatever the program is, nothing that evaluation or rendering computes with sizes is out of range; and nothing that
simplification does, unless a call names the greatest size: then the sum of this number and one is. -/
theorem sizes_in_range {p : Program} (h : p.Fits) :
    (∀ (m : Machine σ) failure, p.evaluateSized m failure = p.evaluate m) ∧
      p.renderSized = .ok p.render ∧
      ∀ m : Simplifier σ,
        (.call (Size.bound - 1) ∉ Program.nested p → (p.simplifySized m).run = .ok <$> p.simplify m) ∧
        (.call (Size.bound - 1) ∈ Program.nested p → Simplifier.Fails (p.simplifySized m) .overflow) := by
  refine ⟨fun m failure => p.evaluateSized_eq m failure, renderSized_eq h.strings, fun m => ?_⟩
  rw [← h.overflows_iff]
  exact p.simplifySized_spec m

/-- Calls without enough items, one of them with almost as many arguments as can be counted. -/
theorem sizes_in_range_malformed :
    let host : Host Unit := .withBuiltins (pure 0) fun _ _ => pure .void
    let vars : Variables := fun _ => none
    let p : Program := [.number 1, .call 7, .suspend [.string "s", .call (Size.bound - 2)], .binary "+"]
    p.Fits ∧ .call (Size.bound - 1) ∉ Program.nested p ∧
      p.evaluateSized ⟨host, .standard, vars⟩ (fun _ => .notCallable) = p.evaluate ⟨host, .standard, vars⟩ ∧
      p.renderSized = .ok p.render ∧
      (p.simplifySized ⟨host, .standard, .standard, vars⟩).run =
        .ok <$> p.simplify ⟨host, .standard, .standard, vars⟩ := by
  intro host vars p
  have hfits : p.Fits := by
    constructor
    · intro n hn
      simp [p, Program.nested, Instruction.nested] at hn
      unfold Size.bound at *
      omega
    · intro s hs
      simp [p, Program.nested, Instruction.nested] at hs
      subst hs
      decide
  have hcount : .call (Size.bound - 1) ∉ Program.nested p := by
    simp [p, Program.nested, Instruction.nested, Size.bound]
  obtain ⟨hevaluate, hrender, hsimplify⟩ := sizes_in_range hfits
  exact ⟨hfits, hcount, hevaluate _ _, hrender, (hsimplify _).1 hcount⟩

/-- A call with as many arguments as can be counted: its value is an error and its text is written, but simplification
fails. -/
theorem simplifySized_greatest_call :
    let host : Host Unit := .withBuiltins (pure 0) fun _ _ => pure .void
    let vars : Variables := fun _ => none
    let p : Program := [.call (Size.bound - 1)]
    p.Fits ∧ ((p.evaluateSized ⟨host, .standard, vars⟩ fun _ => .notCallable).run.run ()).1 =
        .error (.invalidProgram .underflow) ∧
      p.renderSized = .ok "()" ∧
      ((p.simplifySized ⟨host, .standard, .standard, vars⟩).run.run ()).1 = .error .overflow := by
  intro host vars p
  refine ⟨⟨fun n hn => ?_, fun s hs => ?_⟩, rfl, ?_, ?_⟩
  · simp [p, Program.nested, Instruction.nested] at hn
    rw [hn]
    exact Nat.sub_lt (Nat.two_pow_pos 64) Nat.one_pos
  · simp [p, Program.nested, Instruction.nested] at hs
  · rfl
  · rfl

end Program

end Reckon
