import Reckon.Proofs.Evaluation.Chains
import Reckon.Proofs.Evaluation.Compilation
import Reckon.Proofs.Evaluation.Imitation

/-!
# Free variables

The free variables of a formula are all its names that do not stand for functions of its environment
(`Formula.mem_freeVariables`), and evaluation looks up nothing else. So variables that agree on them give the same
(`Formula.resolve?_congr`), and if functions do not do so themselves, evaluation reports only names of the formula that
stand for nothing (`Program.mem_names_of_undefined`): these are free variables as well
(`Formula.evaluate_freeVariables`). With members, functions are looked for under the dotted names, so one that a field is
taken of passes for the root of a free variable; else the roots of the free variables with members are the free
variables (`Formula.freeVariables_of_parseWith`).
-/

namespace Reckon

variable {σ : Type}

/-- No function reports that a name stands for nothing. -/
def Host.IsDefined (host : Host σ) : Prop :=
  ∀ site f args, Always (fun result => ∀ n, result ≠ .error (.undefined n)) (host.run site f args).run

/-- Errors that include all but those of undefined names may come up in such a host. -/
theorem Host.IsDefined.admits {host : Host σ} (h : host.IsDefined) {E : EvalError → Prop}
    (hE : ∀ e : EvalError, e.IsOther → E e) : host.Admits (fun _ => True) E := by
  refine ⟨fun site f args s _ => ?_, hE⟩
  have hs := h site f args s
  rcases hrun : (host.run site f args).run.run s with ⟨e | v, s'⟩
  · have he : e.IsOther := by
      cases e with
      | undefined n => exact hs n (congrArg Prod.fst hrun)
      | _ => trivial
    exact ⟨s', trivial, .inr ⟨e, hE e he, rfl, rfl⟩⟩
  · exact ⟨s', trivial, .inl ⟨v, v, rfl, rfl, rfl⟩⟩

/-- Built-in operations do not report undefined names. -/
theorem Host.isDefined_withBuiltins {chance : StateM σ Float} {run : String → List Value → Eval σ Value}
    (h : ∀ name args, Always (fun result => ∀ n, result ≠ .error (.undefined n)) (run name args).run) :
    (Host.withBuiltins chance run).IsDefined := by
  have hresult (b : Builtin) (r : Float) (args : List Value) :
      Always (fun result => ∀ n, result ≠ .error (.undefined n))
        (Host.runBuiltin.liftExcept (b.run r args) : Eval σ Value).run := by
    rw [Builtin.run]
    cases b.value? r args with
    | some v => exact .pure (by rintro _ ⟨⟩)
    | none => exact .pure (by rintro _ ⟨⟩)
  intro site f args
  cases f with
  | host name arity => exact h name args
  | builtin b =>
    refine (?_ : Always _ (Host.runBuiltin chance b args).run)
    unfold Host.runBuiltin
    split
    · intro s
      exact hresult _ _ args _
    · exact hresult _ 0 args

/-! ## Names -/

/-- If the error is that of an undefined name, the program refers to the name, and it stands for nothing. -/
def EvalError.Blames (env : Environment) (vars : Variables) (p : Program) : EvalError → Prop
  | .undefined n => n ∈ Program.names p ∧ env.resolve? vars n = none
  | _ => True

/-- A name that is found to be undefined is one of the program, and it stands for nothing. -/
theorem Program.mem_names_of_undefined {host : Host σ} (hhost : host.IsDefined) {env : Environment} {vars : Variables}
    {p : Program} {s : σ} {n : String}
    (h : ((p.evaluate ⟨host, env, vars⟩).run.run s).1 = .error (.undefined n)) :
    n ∈ Program.names p ∧ env.resolve? vars n = none := by
  have hadmits : host.Admits (fun _ => True) (EvalError.Blames env vars p) := by
    refine hhost.admits fun e he => ?_
    cases e with
    | undefined n => exact he.elim
    | _ => trivial
  have halike : Eval.Alike (fun _ => True) (EvalError.Blames env vars p) Eq (p.evaluate ⟨host, env, vars⟩)
      (p.evaluate ⟨host, env, vars⟩) := Program.evaluate_alike hadmits fun n hn hnone => ⟨hn, hnone⟩
  exact halike.error trivial h

/-- No built-in function has a dot in its name. -/
theorem Environment.dot_notMem_of_isFunction_standard (n : String) (h : Environment.standard.isFunction n = true) :
    '.' ∉ n.toList := by
  obtain ⟨_, hf⟩ := Option.isSome_iff_exists.1 h
  obtain ⟨f, -, hname⟩ := List.mem_map.1 (Table.mem_of_lookup_ofEntries hf)
  obtain rfl : f.name = n := congrArg Prod.fst hname
  cases f <;> decide

namespace Formula

variable {f : Formula} {vars vars' : Variables} {n : String}

/-- A name of the formula that is no function of the environment is a free variable. -/
theorem mem_freeVariables (hn : n ∈ Program.names f.program) (hfunction : Table.lookup n f.env.functions = none) :
    n ∈ f.freeVariables false := by
  rw [freeVariables, List.mem_filter]
  refine ⟨Program.mem_symbols_iff.2 hn, ?_⟩
  rw [Environment.isFunction, Table.has, hfunction]
  rfl

/-- Variables that agree on the free variables give the names of the formula the same meaning. -/
theorem resolve?_congr (h : ∀ n ∈ f.freeVariables false, vars n = vars' n) (hn : n ∈ Program.names f.program) :
    f.env.resolve? vars n = f.env.resolve? vars' n := by
  rw [Environment.resolve?, Environment.resolve?]
  cases hfunction : Table.lookup n f.env.functions with
  | some _ => rfl
  | none => rw [h n (mem_freeVariables hn hfunction)]

/-- A name of the formula that stands for nothing is a free variable that is not bound, and no constant. -/
theorem mem_freeVariables_of_resolve? (hn : n ∈ Program.names f.program) (h : f.env.resolve? vars n = none) :
    n ∈ f.freeVariables false ∧ vars n = none ∧ Table.lookup n f.env.constants = none := by
  rw [Environment.resolve?] at h
  split at h
  · cases h
  · next hfunction =>
    split at h
    · cases h
    · split at h
      · cases h
      · next hvars => exact ⟨mem_freeVariables hn hfunction, hvars, Option.map_eq_none_iff.1 h⟩

/-- Variables that agree on the free variables of a formula give it the same value, or the same error, and do the same
to the host. If a name turns out to stand for nothing, and it is not a function that says so, then it is a free variable
that is not bound, and it is no constant. -/
theorem evaluate_freeVariables (host : Host σ) (f : Formula) (vars : Variables) :
    (∀ vars' : Variables, (∀ n ∈ f.freeVariables false, vars n = vars' n) →
      f.evaluate host vars = f.evaluate host vars') ∧
    (host.IsDefined → ∀ s n, ((f.evaluate host vars).run.run s).1 = .error (.undefined n) →
      n ∈ f.freeVariables false ∧ vars n = none ∧ Table.lookup n f.env.constants = none) := by
  constructor
  · intro vars' h
    exact Program.evaluate_congr_vars fun n hn => resolve?_congr h hn
  · intro hhost s n hs
    obtain ⟨hn, hnone⟩ := Program.mem_names_of_undefined hhost hs
    exact mem_freeVariables_of_resolve? hn hnone

/-- In `x and y` only `x` is bound, and it does not decide. -/
theorem evaluate_freeVariables_conjunction :
    let host : Host Unit := .withBuiltins (pure 0) fun _ _ => pure .void
    let vars : Variables := fun name => if name = "x" then some (.string "a") else none
    let vars' : Variables := fun name => if name = "z" then some .void else vars name
    let f : Formula := ⟨[.load "x", .suspend [.load "y"], .binary "and"], .standard, .standard⟩
    (∀ n ∈ f.freeVariables false, vars n = vars' n) ∧ f.evaluate host vars = f.evaluate host vars' ∧ host.IsDefined ∧
      ((f.evaluate host vars).run.run ()).1 = .error (.undefined "y") ∧
      "y" ∈ f.freeVariables false ∧ vars "y" = none ∧ Table.lookup "y" f.env.constants = none := by
  intro host vars vars' f
  have hfree : f.freeVariables false = ["x", "y"] := by decide +kernel
  have hagree : ∀ n ∈ f.freeVariables false, vars n = vars' n := by
    intro n hn
    have hz : n ≠ "z" := by
      rintro rfl
      exact absurd (hfree ▸ hn) (by decide)
    exact (if_neg hz).symm
  have hhost : host.IsDefined := Host.isDefined_withBuiltins fun _ _ => .pure (by rintro _ ⟨⟩)
  have hundefined : f.evaluate host vars = throw (.undefined "y") := by
    have hx : Environment.standard.resolve? vars "x" = some (.string "a") := by
      rw [Environment.resolve?_eq_or (by decide +kernel) (by decide +kernel)]
      rfl
    have hy : Environment.standard.resolve? vars "y" = none := by
      have hconstant : Table.lookup "y" Environment.standard.constants = none := by decide +kernel
      rw [Environment.resolve?_eq_or (by decide +kernel) (by decide +kernel), hconstant]
      rfl
    have htruthy : (Value.string "a").isTruthy = true := by decide
    simp [f, evaluate, Program.evaluate, Machine.run, Machine.step, hx, hy, Stack.result, Stack.pop, Stack.popValue,
      Item.force, Machine.binaryOnItem, htruthy]
  have herror : ((f.evaluate host vars).run.run ()).1 = .error (.undefined "y") := by
    rw [hundefined]
    rfl
  obtain ⟨hsame, hname⟩ := evaluate_freeVariables host f vars
  exact ⟨hagree, hsame vars' hagree, hhost, herror, hname hhost () "y" herror⟩

/-! ## Members -/

section

variable {env : Environment} {o : Options} {code : String}

/-- The free variables are the roots of the symbols with members that are no functions. -/
theorem freeVariables_eq_roots (h : Formula.parseWith env o code = .ok f) :
    f.freeVariables false = (((f.symbols true).map dottedRoot).filter fun n => !env.isFunction n).eraseDups := by
  obtain ⟨p, hp, rfl⟩ := Formula.exists_of_parseWith h
  rw [freeVariables, symbols, Program.symbols_eq_roots hp, SymbolScan.filter_eraseDups]
  rfl

/-- Where a symbol with members is a function exactly if its root is, the roots of the free variables with members are
the free variables. -/
theorem roots_freeVariables (h : Formula.parseWith env o code = .ok f)
    (hroots : ∀ t ∈ f.symbols true, env.isFunction t = env.isFunction (dottedRoot t)) :
    ((f.freeVariables true).map dottedRoot).eraseDups = f.freeVariables false := by
  rw [freeVariables_eq_roots h, List.filter_map]
  obtain ⟨p, -, rfl⟩ := Formula.exists_of_parseWith h
  exact congrArg (fun names => (names.map dottedRoot).eraseDups)
    (List.filter_congr fun t ht => congrArg not (hroots t ht))

/-- If no function has a dot in its name, the roots of the free variables with members are the free variables and
functions that a field is taken of. -/
theorem filter_roots_freeVariables (h : Formula.parseWith env o code = .ok f)
    (hdotless : ∀ n, env.isFunction n = true → '.' ∉ n.toList) :
    (((f.freeVariables true).map dottedRoot).filter fun n => !env.isFunction n).eraseDups = f.freeVariables false := by
  rw [freeVariables_eq_roots h, List.filter_map, List.filter_map]
  obtain ⟨p, -, rfl⟩ := Formula.exists_of_parseWith h
  rw [freeVariables, List.filter_filter]
  refine congrArg (fun names => (names.map dottedRoot).eraseDups) (List.filter_congr fun t _ => ?_)
  have hroot : env.isFunction t = true → env.isFunction (dottedRoot t) = true := by
    intro ht
    rwa [dottedRoot_of_notMem (hdotless t ht)]
  revert hroot
  simp only [Function.comp_apply]
  cases env.isFunction t <;> cases env.isFunction (dottedRoot t) <;> simp

/-- The free variables are the roots of the symbols with members that are no functions, so a function is none of them.
With members, a dotted name is taken for a function only if there is a function of that very name. So the roots of the
free variables with members are the free variables as long as the symbols are functions exactly if their roots are, and
if no function has a dot in its name, they are so exactly if no field is taken of a function; otherwise the functions
that a field is taken of come in addition. -/
theorem freeVariables_of_parseWith (h : Formula.parseWith env o code = .ok f) :
    (∀ n ∈ f.freeVariables false, env.isFunction n = false) ∧
      f.freeVariables false = (((f.symbols true).map dottedRoot).filter fun n => !env.isFunction n).eraseDups ∧
      ((∀ t ∈ f.symbols true, env.isFunction t = env.isFunction (dottedRoot t)) →
        ((f.freeVariables true).map dottedRoot).eraseDups = f.freeVariables false) ∧
      ((∀ n, env.isFunction n = true → '.' ∉ n.toList) →
        (((f.freeVariables true).map dottedRoot).filter fun n => !env.isFunction n).eraseDups =
            f.freeVariables false ∧
          (((f.freeVariables true).map dottedRoot).eraseDups = f.freeVariables false ↔
            ∀ t ∈ f.symbols true, env.isFunction (dottedRoot t) = true → dottedRoot t = t)) := by
  have hfree : ∀ n ∈ f.freeVariables false, env.isFunction n = false := by
    intro n hn
    rw [freeVariables_eq_roots h, List.mem_eraseDups, List.mem_filter] at hn
    simpa using hn.2
  refine ⟨hfree, freeVariables_eq_roots h, roots_freeVariables h, fun hdotless =>
    ⟨filter_roots_freeVariables h hdotless, fun heq t ht hroot => ?_, fun hroots => ?_⟩⟩
  · by_contra hne
    have hdotted : env.isFunction t = false := by
      rw [Bool.eq_false_iff]
      exact fun hfunction => hne (dottedRoot_of_notMem (hdotless t hfunction))
    -- a function that a field is taken of is a root of a free variable with members, but no free variable
    have hmem : t ∈ f.freeVariables true := by
      obtain ⟨p, -, rfl⟩ := Formula.exists_of_parseWith h
      exact List.mem_filter.2 ⟨ht, by rw [hdotted]; rfl⟩
    have hfunction := hfree (dottedRoot t) (heq ▸ List.mem_eraseDups.2 (List.mem_map_of_mem hmem))
    rw [hroot] at hfunction
    cases hfunction
  · refine roots_freeVariables h fun t ht => ?_
    by_cases hroot : env.isFunction (dottedRoot t) = true
    · rw [hroots t ht hroot]
    · rw [Bool.eq_iff_iff]
      refine iff_of_false (fun hfunction => hroot ?_) hroot
      rwa [dottedRoot_of_notMem (hdotless t hfunction)]

/-- In `max(z.w, y)` a field is only taken of a variable. -/
theorem freeVariables_of_parseWith_maximum :
    let f : Formula := ⟨[.load "max", .load "z", .member "w", .load "y", .call 2], .standard, .standard⟩
    Formula.parseWith .standard .standard "max(z.w, y)" = .ok f ∧
      (∀ n, Environment.standard.isFunction n = true → '.' ∉ n.toList) ∧
      f.freeVariables true = ["z.w", "y"] ∧ f.freeVariables false = ["z", "y"] ∧
      (∀ n ∈ f.freeVariables false, Environment.standard.isFunction n = false) ∧
      ((f.freeVariables true).map dottedRoot).eraseDups = f.freeVariables false := by
  intro f
  let g : Grammar := (Environment.standard.withOptions .standard).grammar
  have hname : ∀ n ∈ ["max", "z", "w", "y"], (Expr.name n).Printable g .standard false := by
    have hwords : ∀ n ∈ ["max", "z", "w", "y"], IsWord n.toList ∧ g.isOperator n = false ∧ g.constant? n = none := by
      decide +kernel
    exact fun n hn => Expr.printable_name (hwords n hn).1 (hwords n hn).2.1 (hwords n hn).2.2
  have hz : (Expr.name "z").Printable g .standard true :=
    ⟨(hname "z" (by decide)).1, fun _ => rfl⟩
  have hcall : (Expr.call (.name "max") [.member (.name "z") "w", .name "y"]).Printable g .standard false :=
    ⟨hname "max" (by decide), ⟨by decide, by decide, .inl (hname "w" (by decide)), hz⟩, hname "y" (by decide), trivial⟩
  have hf : Formula.parseWith .standard .standard "max(z.w, y)" = .ok f :=
    Formula.parseWith_render (o := .standard) hcall rfl (by decide +kernel)
  have hdotless := Environment.dot_notMem_of_isFunction_standard
  obtain ⟨hfree, -, -, hmembers⟩ := freeVariables_of_parseWith hf
  obtain ⟨-, hroots⟩ := hmembers hdotless
  exact ⟨hf, hdotless, by decide +kernel, by decide +kernel, hfree, hroots.2 (by decide +kernel)⟩

/-- In `max.x` a field is taken of a function. -/
theorem roots_freeVariables_maximum :
    let f : Formula := ⟨[.load "max", .member "x"], .standard, .standard⟩
    Formula.parseWith .standard .standard "max.x" = .ok f ∧ Environment.standard.isFunction "max" = true ∧
      f.freeVariables true = ["max.x"] ∧ f.freeVariables false = [] ∧
      ((f.freeVariables true).map dottedRoot).eraseDups ≠ f.freeVariables false := by
  intro f
  let g : Grammar := (Environment.standard.withOptions .standard).grammar
  have hmax : (Expr.name "max").Printable g .standard false :=
    Expr.printable_name (by decide) (by decide +kernel) (by decide +kernel)
  have hx : (Expr.name "x").Printable g .standard false :=
    Expr.printable_name (by decide) (by decide +kernel) (by decide +kernel)
  have hmember : (Expr.member (.name "max") "x").Printable g .standard false :=
    ⟨by decide, by decide, .inl hx, hmax.1, fun _ => rfl⟩
  have hf : Formula.parseWith .standard .standard "max.x" = .ok f :=
    Formula.parseWith_render (o := .standard) hmember rfl (by decide +kernel)
  exact ⟨hf, by decide +kernel, by decide +kernel, by decide +kernel, by decide +kernel⟩

end

end Formula

end Reckon
