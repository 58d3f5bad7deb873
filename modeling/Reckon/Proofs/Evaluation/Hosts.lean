import Reckon.Environment
import Reckon.Host

/-!
# Hosts whose operators are functions

In such a host an operator of the environment neither reads nor changes the state (`Host.Computes`). It stays so when
the host keeps a log of its calls (`Host.Computes.logged`), and the hosts of the standard environment are such hosts,
whatever their functions do (`Host.computes_withBuiltins`).
-/

namespace Reckon

variable {σ : Type}

/-! ## Operators as functions -/

/-- A computation that leaves the host alone. -/
def Eval.ofResult {α : Type} : Except EvalError α → Eval σ α
  | .ok v => pure v
  | .error e => throw e

/-- The operators of the environment are functions of their arguments. -/
def Host.Computes (host : Host σ) (env : Environment) (meaning : Function → List Value → Except EvalError Value) :
    Prop :=
  ∀ kind op f, env.operator? kind op = some f → ∀ args, host.run .operator f args = Eval.ofResult (meaning f args)

/-- The host that also keeps a list of the functions that calls have run, with their arguments. -/
def Host.logged (host : Host σ) : Host (σ × List (Function × List Value)) where
  run site f args := ExceptT.mk fun (s, log) =>
    let (result, s') := (host.run site f args).run.run s
    (result, s', if site = .call then log ++ [(f, args)] else log)

/-- A log of calls does not change operators. -/
theorem Host.Computes.logged {host : Host σ} {env : Environment}
    {meaning : Function → List Value → Except EvalError Value} (h : host.Computes env meaning) :
    host.logged.Computes env meaning := by
  intro kind op f hf args
  have hrun := h kind op f hf args
  simp only [Host.logged, hrun]
  cases meaning f args <;> rfl

/-! ## The standard environment -/

theorem Table.lookup_insertAll {α : Type} {name : String} {a : α} : {entries : List (String × α)} → {t : Table α} →
    Table.lookup name (Table.insertAll t entries) = some a → (name, a) ∈ entries ∨ Table.lookup name t = some a
  | [], _, h => .inr h
  | (n, b) :: entries, t, h => by
    rcases Table.lookup_insertAll (t := Table.insert n b t) h with h | h
    · exact .inl (List.mem_cons_of_mem _ h)
    · rw [Table.lookup_insert] at h
      split at h
      · next hn =>
        cases h
        exact .inl (hn ▸ List.mem_cons_self)
      · exact .inr h

/-- What is under a name is one of the entries. -/
theorem Table.mem_of_lookup_ofEntries {α : Type} {name : String} {a : α} {entries : List (String × α)}
    (h : Table.lookup name (Table.ofEntries entries) = some a) : (name, a) ∈ entries := by
  rcases Table.lookup_insertAll h with h | h
  · exact h
  · cases h

/-- What the operators of the standard environment compute. -/
def Function.standardMeaning : Function → List Value → Except EvalError Value
  | .builtin b, args => b.run 0 args
  | .host _ _, _ => .ok .void

/-- Operators are there whatever the options are. -/
@[simp] theorem Environment.operator?_withOptions (env : Environment) (o : Options) (kind : OperatorKind)
    (op : String) : (env.withOptions o).operator? kind op = env.operator? kind op := by
  cases kind <;> rfl

/-- An operator of the standard environment is a built-in operation, and not a random one. -/
theorem Environment.standard_operator? {kind : OperatorKind} {op : String} {f : Function}
    (h : Environment.standard.operator? kind op = some f) : ∃ b, f = .builtin b ∧ b ≠ .function .random := by
  cases kind with
  | unary | binary | ternary =>
    have hmem := List.mem_map.1 (Table.mem_of_lookup_ofEntries h)
    obtain ⟨o, -, ho⟩ := hmem
    cases ho
    exact ⟨_, rfl, nofun⟩

/-- In the standard environment operators are functions, whatever the functions of the host do. -/
theorem Host.computes_withBuiltins (chance : StateM σ Float) (run : String → List Value → Eval σ Value) (o : Options) :
    (Host.withBuiltins chance run).Computes (Environment.standard.withOptions o) Function.standardMeaning := by
  intro kind op f hf args
  obtain ⟨b, rfl, hb⟩ := Environment.standard_operator? hf
  have hrun : Host.runBuiltin chance b args = Host.runBuiltin.liftExcept (b.run 0 args) := by
    unfold Host.runBuiltin
    split
    · exact absurd rfl hb
    · rfl
  rw [Function.standardMeaning]
  refine hrun.trans ?_
  cases b.run 0 args <;> rfl

end Reckon
