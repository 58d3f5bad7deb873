import Reckon.Host

/-!
# Outcomes of a computation

A computation in a host, one behind another, ends as the second one does if the first one returns
(`Eval.run_bind_ok`), and otherwise with the error of the first one (`Eval.run_bind_error`). What holds of every result,
whatever the state of the host is, is said by `Always`; a computation that `Yields` values of a kind may fail, but never
because a program is out of balance.
-/

namespace Reckon

variable {σ α β : Type}

theorem Eval.run_bind_ok {c : Eval σ α} {s s' : σ} {a : α} (h : c.run.run s = (.ok a, s')) (f : α → Eval σ β) :
    (c >>= f).run.run s = (f a).run.run s' := by
  rw [ExceptT.run_bind, StateT.run_bind, h]
  rfl

theorem Eval.run_bind_error {c : Eval σ α} {s s' : σ} {e : EvalError} (h : c.run.run s = (.error e, s'))
    (f : α → Eval σ β) : (c >>= f).run.run s = (.error e, s') := by
  rw [ExceptT.run_bind, StateT.run_bind, h]
  rfl

/-- Computations that return at once return the same only if it is the same. -/
theorem StateM.eq_of_pure_eq [Nonempty σ] {a b : α} (h : (pure a : StateM σ α) = pure b) : a = b :=
  Nonempty.elim ‹Nonempty σ› fun s => congrArg Prod.fst (congrFun h s)

/-! ## Every result -/

/-- Every result satisfies `P`, whatever the state is. -/
def Always (P : α → Prop) (c : StateM σ α) : Prop :=
  ∀ s, P (c.run s).1

theorem Always.pure {P : α → Prop} {a : α} (h : P a) : Always P (Pure.pure a : StateM σ α) :=
  fun _ => h

theorem Always.imp {P Q : α → Prop} {c : StateM σ α} (h : Always P c) (hPQ : ∀ a, P a → Q a) : Always Q c :=
  fun s => hPQ _ (h s)

theorem Always.bind {P : α → Prop} {Q : β → Prop} {c : StateM σ α} {f : α → StateM σ β} (hc : Always P c)
    (hf : ∀ a, P a → Always Q (f a)) : Always Q (c >>= f) :=
  fun s => hf _ (hc s) (c.run s).2

/-! ## Balance -/

/-- Not the error of a program that is out of balance. -/
def EvalError.IsProper : EvalError → Prop
  | .invalidProgram _ => False
  | _ => True

/-- A computation returns what satisfies `P`, or it fails, but not because a program is out of balance. -/
def Eval.Yields (P : α → Prop) (c : Eval σ α) : Prop :=
  ∀ s, match (c.run.run s).1 with
    | .ok a => P a
    | .error e => e.IsProper

namespace Eval.Yields

variable {P : α → Prop} {Q : β → Prop}

theorem pure {a : α} (h : P a) : Yields P (Pure.pure a : Eval σ α) :=
  fun _ => h

theorem throw {e : EvalError} (h : e.IsProper) : Yields P (throw e : Eval σ α) :=
  fun _ => h

theorem bind {c : Eval σ α} {f : α → Eval σ β} (hc : Yields P c) (hf : ∀ a, P a → Yields Q (f a)) :
    Yields Q (c >>= f) := by
  intro s
  have hs := hc s
  rcases hrun : c.run.run s with ⟨e | a, s'⟩
  · rw [hrun] at hs
    rw [run_bind_error hrun]
    exact hs
  · rw [hrun] at hs
    rw [run_bind_ok hrun]
    exact hf a hs s'

theorem ite {p : Prop} [Decidable p] {c d : Eval σ α} (hc : Yields P c) (hd : Yields P d) :
    Yields P (if p then c else d) := by
  split
  · exact hc
  · exact hd

/-- A computation that a value is asked of yields what is made of the value. -/
theorem map {c : Eval σ α} (hc : Yields P c) {f : α → β} (hf : ∀ a, P a → Q (f a)) :
    Yields Q (do return f (← c)) :=
  hc.bind fun a ha => pure (hf a ha)

/-- Whatever the state is, the program is not found to be out of balance. -/
theorem ne_invalidProgram {c : Eval σ α} (hc : Yields P c) (s : σ) (imbalance : Imbalance) :
    (c.run.run s).1 ≠ .error (.invalidProgram imbalance) := by
  intro h
  have hs := hc s
  rw [h] at hs
  exact hs

end Eval.Yields

end Reckon
