import Reckon.CompiledFunction
import Reckon.Program.Nested

/-!
# Variables of a program

Evaluation depends on the variables only through the names that the program refers to (`Machine.run_congr`), and these
are its symbols (`Program.symbols_eq_eraseDups`). So the captures of a simplified formula, with the arguments of a
call put in, give what the bindings extended by the arguments give (`Formula.resolve?_bind`).
-/

namespace Reckon

variable {σ : Type}

/-! ## Names -/

mutual

/-- The names that a step refers to. -/
def Instruction.names : Instruction → List String
  | .load n => [n]
  | .suspend body => Program.names body
  | _ => []

/-- The names that the steps of a program refer to. -/
def Program.names : List Instruction → List String
  | [] => []
  | i :: rest => i.names ++ Program.names rest

end

theorem Program.names_append (p q : Program) : Program.names (p ++ q) = Program.names p ++ Program.names q := by
  induction p with
  | nil => rfl
  | cons i p ih => rw [List.cons_append, Program.names, Program.names, ih, List.append_assoc]

mutual

/-- The names of a step are what it or a program suspended in it loads. -/
theorem Instruction.mem_names_iff {name : String} : (i : Instruction) → (name ∈ i.names ↔ .load name ∈ i.nested)
  | .suspend body => by simp [Instruction.names, Instruction.nested, Program.mem_names_iff body]
  | .load _ | .number _ | .string _ | .unary _ | .binary _ | .ternary _ | .call _ | .member _ => by
    simp [Instruction.names, Instruction.nested]

/-- The names of a program are what it or a program suspended in it loads. -/
theorem Program.mem_names_iff {name : String} : (p : List Instruction) →
    (name ∈ Program.names p ↔ .load name ∈ Program.nested p)
  | [] => by simp [Program.names, Program.nested]
  | i :: rest => by
    rw [Program.names, Program.nested, List.mem_append, List.mem_append, Instruction.mem_names_iff i,
      Program.mem_names_iff rest]

end

/-- A name that is neither a function nor an enabled unary operator is a variable, or else a constant. -/
theorem Environment.resolve?_eq_or {env : Environment} {name : String}
    (hfunction : Table.lookup name env.functions = none) (hunary : env.enabledUnary? name = none) (vars : Variables) :
    env.resolve? vars name = (vars name).or ((Table.lookup name env.constants).map .ofLiteral) := by
  rw [Environment.resolve?, hfunction, hunary]
  cases vars name <;> rfl

/-- A name stands for a function of the environment, or else the variables come before the constants. -/
theorem Environment.resolve?_cases (env : Environment) (name : String) :
    (∃ f, ∀ vars, env.resolve? vars name = some (.function f)) ∨
      ∀ vars, env.resolve? vars name = (vars name).or ((Table.lookup name env.constants).map .ofLiteral) := by
  simp only [Environment.resolve?]
  cases Table.lookup name env.functions with
  | some f => exact .inl ⟨f, fun _ => rfl⟩
  | none =>
    cases env.enabledUnary? name with
    | some f => exact .inl ⟨f, fun _ => rfl⟩
    | none =>
      refine .inr fun vars => ?_
      cases vars name <;> rfl

/-! ## Machines -/

section

variable {m m' : Machine σ}

/-- What a step looks up in the environment and the variables of one machine is what it looks up in the other one. -/
def Machine.LooksUp (m m' : Machine σ) : Instruction → Prop
  | .load n => m.env.resolve? m.vars n = m'.env.resolve? m'.vars n
  | .unary op => m.env.operator? .unary op = m'.env.operator? .unary op
  | .binary op => m.env.operator? .binary op = m'.env.operator? .binary op
  | .ternary op => m.env.operator? .ternary op = m'.env.operator? .ternary op
  | _ => True

/-- Operators that are the same are applied alike. -/
theorem Machine.applyOperator_congr (hhost : m.host = m'.host) {kind : OperatorKind} {op : String}
    (h : m.env.operator? kind op = m'.env.operator? kind op) :
    Machine.applyOperator m.host m.env kind op = Machine.applyOperator m'.host m'.env kind op := by
  funext args
  rw [Machine.applyOperator, Machine.applyOperator, h, hhost]

mutual

/-- A step does the same on machines with the same host that look up the same. -/
theorem Machine.step_congr (hhost : m.host = m'.host) : (i : Instruction) → (∀ j ∈ i.nested, m.LooksUp m' j) →
    ∀ s : Stack σ, m.step s i = m'.step s i
  | .number _, _, _ | .string _, _, _ | .member _, _, _ => rfl
  | .load n, h, s => by
    have hname : m.env.resolve? m.vars n = m'.env.resolve? m'.vars n := h _ (.head _)
    rw [Machine.step, Machine.step, hname]
  | .unary op, h, s => by
    have happly := Machine.applyOperator_congr hhost (h _ (.head _))
    simp only [Machine.step, Machine.applyUnary, happly]
  | .binary op, h, s => by
    have happly := Machine.applyOperator_congr hhost (h _ (.head _))
    simp only [Machine.step, Machine.binaryOnItem, Machine.applyBinary, happly]
  | .ternary op, h, s => by
    have happly := Machine.applyOperator_congr hhost (h _ (.head _))
    simp only [Machine.step, Machine.ternaryOnItems, Machine.applyTernary, happly]
  | .call _, _, s => by
    simp only [Machine.step, hhost]
  | .suspend body, h, s => by
    rw [Machine.step, Machine.step, Machine.run_congr hhost body fun j hj => h j (List.mem_cons_of_mem _ hj)]

/-- A program does the same on machines with the same host that look up the same. -/
theorem Machine.run_congr (hhost : m.host = m'.host) : (p : List Instruction) →
    (∀ j ∈ Program.nested p, m.LooksUp m' j) → ∀ s : Stack σ, m.run s p = m'.run s p
  | [], _, s => by rw [Machine.run, Machine.run]
  | i :: rest, h, s => by
    rw [Machine.run, Machine.run, Machine.step_congr hhost i fun j hj => h j (List.mem_append_left _ hj)]
    congr 1
    exact funext fun s => Machine.run_congr hhost rest (fun j hj => h j (List.mem_append_right _ hj)) s

end

end

/-- A program has the same value on machines with the same host that look up the same. -/
theorem Program.evaluate_of_looksUp {m m' : Machine σ} (hhost : m.host = m'.host) {p : Program}
    (h : ∀ j ∈ Program.nested p, m.LooksUp m' j) : p.evaluate m = p.evaluate m' := by
  rw [Program.evaluate, Program.evaluate, Machine.run_congr hhost p h]

/-- A program has the same value with variables that give its names the same values. -/
theorem Program.evaluate_congr_vars {host : Host σ} {env : Environment} {vars vars' : Variables} {p : Program}
    (h : ∀ n ∈ Program.names p, env.resolve? vars n = env.resolve? vars' n) :
    p.evaluate ⟨host, env, vars⟩ = p.evaluate ⟨host, env, vars'⟩ := by
  refine Program.evaluate_of_looksUp (by rfl) fun j hj => ?_
  cases j with
  | load n => exact h n ((Program.mem_names_iff p).2 hj)
  | unary _ | binary _ | ternary _ => rfl
  | _ => trivial

/-! ## Symbols -/

theorem SymbolScan.flush_none (found : List String) : SymbolScan.flush ⟨found, none⟩ = ⟨found, none⟩ := rfl

/-- A name is recorded behind different names unless it is one of them. -/
theorem SymbolScan.record_eraseDups (names : List String) (name : String) :
    SymbolScan.record names.eraseDups name = (names ++ [name]).eraseDups := by
  rw [SymbolScan.record, List.eraseDups_append]
  by_cases h : name ∈ names <;> simp [h, List.removeAll, List.eraseDups_cons]

mutual

/-- Without members, a step adds its names to the different ones that have been found. -/
theorem Program.scanStep_eraseDups : (i : Instruction) → ∀ names : List String,
    scanStep false ⟨names.eraseDups, none⟩ i = ⟨(names ++ i.names).eraseDups, none⟩
  | .number _, names | .string _, names | .unary _, names | .binary _, names | .ternary _, names | .call _, names
  | .member _, names => by
    have hnames : names ++ [] = names := List.append_nil names
    exact congrArg (fun xs => (⟨xs.eraseDups, none⟩ : SymbolScan)) hnames.symm
  | .load name, names => by
    rw [Instruction.names, ← SymbolScan.record_eraseDups]
    rfl
  | .suspend body, names => by
    rw [scanStep, SymbolScan.flush_none, Program.scan_eraseDups body, SymbolScan.flush_none, Instruction.names]

/-- Without members, a program adds its names to the different ones that have been found. -/
theorem Program.scan_eraseDups : (p : List Instruction) → ∀ names : List String,
    scan false ⟨names.eraseDups, none⟩ p = ⟨(names ++ Program.names p).eraseDups, none⟩
  | [], names => by rw [scan, Program.names, List.append_nil]
  | i :: rest, names => by
    rw [scan, Program.scanStep_eraseDups i, Program.scan_eraseDups rest, Program.names, List.append_assoc]

end

/-- Without members, the symbols of a program are its names, each of them where it occurs first. -/
theorem Program.symbols_eq_eraseDups (p : Program) : p.symbols false = (Program.names p).eraseDups := by
  have hscan : scan false ⟨[], none⟩ p = ⟨(Program.names p).eraseDups, none⟩ := Program.scan_eraseDups p []
  rw [Program.symbols, hscan, SymbolScan.flush_none]

theorem Program.mem_symbols_iff {p : Program} {n : String} : n ∈ p.symbols false ↔ n ∈ Program.names p := by
  rw [Program.symbols_eq_eraseDups, List.mem_eraseDups]

/-! ## Bindings -/

/-- The variables with a name bound. -/
def Variables.bind (vars : Variables) (name : String) (v : Value) : Variables :=
  fun other => if other = name then some v else vars other

/-- The variables with names bound from left to right. -/
def Variables.extend (vars : Variables) (entries : List (String × Value)) : Variables :=
  entries.foldl (fun vars e => vars.bind e.1 e.2) vars

theorem Variables.toVariables_insertAll (t : Bindings) (entries : List (String × Value)) :
    Bindings.toVariables (Table.insertAll t entries) = Variables.extend t.toVariables entries := by
  induction entries generalizing t with
  | nil => rfl
  | cons e entries ih =>
    have hinsert : Bindings.toVariables (Table.insert e.1 e.2 t) = Variables.bind t.toVariables e.1 e.2 := by
      funext name
      rw [Bindings.toVariables, Table.lookup_insert, Variables.bind]
      simp only [eq_comm, Bindings.toVariables]
    rw [Variables.extend, List.foldl_cons, ← hinsert]
    exact ih _

/-- A name that is bound has its last value, and any other name the one it had. -/
theorem Variables.extend_congr {vars vars' : Variables} {name : String} {entries : List (String × Value)}
    (h : name ∈ entries.map Prod.fst ∨ vars name = vars' name) :
    vars.extend entries name = vars'.extend entries name := by
  induction entries generalizing vars vars' with
  | nil => exact h.resolve_left nofun
  | cons e entries ih =>
    refine ih ?_
    by_cases he : name = e.1
    · exact .inr (by simp only [Variables.bind, if_pos he])
    · refine h.imp (fun hmem => (List.mem_cons.1 hmem).resolve_left he) fun heq => ?_
      simp only [Variables.bind, if_neg he, heq]

/-- A name that is not bound keeps its value. -/
theorem Variables.extend_of_not_mem {vars : Variables} {name : String} {entries : List (String × Value)}
    (h : name ∉ entries.map Prod.fst) : vars.extend entries name = vars name := by
  induction entries generalizing vars with
  | nil => rfl
  | cons e entries ih =>
    rw [List.map_cons, List.mem_cons, not_or] at h
    refine (@ih (vars.bind e.1 e.2) h.2).trans ?_
    rw [Variables.bind, if_neg h.1]

/-- Names that are bound to their values, where they have one. -/
theorem Variables.extend_filterMap (vars known : Variables) (names : List String) (name : String) :
    vars.extend (names.filterMap fun n => (known n).map fun v => (n, v)) name =
      if name ∈ names then (known name).or (vars name) else vars name := by
  induction names generalizing vars with
  | nil => rfl
  | cons n names ih =>
    cases hn : known n with
    | none =>
      rw [List.filterMap_cons_none (by rw [hn]; rfl), ih]
      by_cases he : name = n
      · subst he
        simp [hn]
      · simp [he]
    | some v =>
      rw [List.filterMap_cons_some (by rw [hn]; rfl)]
      refine (ih (vars.bind n v)).trans ?_
      by_cases he : name = n
      · subst he
        simp [hn, Variables.bind]
      · simp [Variables.bind, he]

/-- What a name stands for in a call is what it stands for with the bindings and the arguments. -/
theorem Formula.resolve?_bind {f : Formula} {params : List String} {bindings : Variables} {args : List Value}
    (hargs : args.length = params.length) {name : String} (hname : name ∈ Program.names f.program) :
    f.env.resolve? (Bindings.toVariables (Table.insertAll (f.captures params bindings) (params.zip args))) name =
      f.env.resolve? (bindings.extend (params.zip args)) name := by
  have hfst : (params.zip args).map Prod.fst = params := List.map_fst_zip (Nat.le_of_eq hargs.symm)
  simp only [Environment.resolve?]
  cases hf : Table.lookup name f.env.functions with
  | some _ => rfl
  | none =>
    have hvariable : Bindings.toVariables (Table.insertAll (f.captures params bindings) (params.zip args)) name =
        bindings.extend (params.zip args) name := by
      rw [Variables.toVariables_insertAll]
      refine Variables.extend_congr ?_
      rw [hfst]
      by_cases hparam : name ∈ params
      · exact .inl hparam
      · have hfree : name ∈ (f.freeVariables false).filter fun name => !params.contains name := by
          rw [List.mem_filter, Formula.freeVariables, List.mem_filter]
          refine ⟨⟨Program.mem_symbols_iff.2 hname, ?_⟩, ?_⟩
          · rw [Environment.isFunction, Table.has, hf]
            rfl
          · simpa using hparam
        right
        rw [Formula.captures, Table.ofEntries, Variables.toVariables_insertAll, Variables.extend_filterMap,
          if_pos hfree]
        cases bindings name <;> rfl
    rw [hvariable]

end Reckon
