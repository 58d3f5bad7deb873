import Reckon.Proofs.Evaluation.Parameters
import Reckon.Proofs.Rendering.Widening

/-!
# Constants

Simplification puts constants in place of their names before the variables are there, so variables with the names of
constants come too late: what is left of a formula has the value that the formula has without them
(`Program.exists_simplify_eq`). That makes a difference only where a program refers to a constant by its name. In a
program that has been read a field is taken there (`Program.takesFields_of_parse`), since anywhere else the name of a
constant is read as its value. So all other variables count after simplification as they did before
(`Formula.evaluate_simplify_constants`).
-/

namespace Reckon

variable {σ : Type}

/-- The variables without those that have the name of a constant. -/
def Variables.withoutConstants (vars : Variables) (env : Environment) : Variables :=
  fun name => if Table.has name env.constants then none else vars name

/-! ## Names that are left -/

section

variable {env : Environment} {vars : Variables} {n : String}

theorem Environment.determines_withoutConstants : env.Determines (fun _ => none) (vars.withoutConstants env) where
  agrees _ _ h := absurd h (by simp)
  constants _ hconstant _ := if_pos hconstant

/-- Variables that do not have the name of a constant stand for what they stood for. -/
theorem Environment.resolve?_withoutConstants (h : Table.has n env.constants = true → vars n = none) :
    env.resolve? (vars.withoutConstants env) n = env.resolve? vars n := by
  have hvars : vars.withoutConstants env n = vars n := by
    rw [Variables.withoutConstants]
    split
    · next hconstant => exact (h hconstant).symm
    · rfl
  rw [Environment.resolve?, Environment.resolve?, hvars]

/-- Constants that can be told from members can be written down with any options. -/
theorem Grammar.IsReadable.isWritable {g : Grammar} (hg : g.IsReadable) {l : Literal} (h : g.constant? n = some l)
    (o : Options) : l.isWritable o = true := by
  cases l with
  | string s => rfl
  | number v =>
    obtain ⟨hnan, hsign⟩ := hg.number n v h
    simp only [Literal.isWritable, hnan, hsign]
    rfl

/-- A name that simplification leaves where nothing is known is no constant, or it is a function. -/
theorem Simplifier.Keeps.resolve?_withoutConstants {host : Host σ} {o : Options} (hreadable : env.grammar.IsReadable)
    (hn : Simplifier.Keeps ⟨host, env, o, fun _ => none⟩ n) :
    env.resolve? (vars.withoutConstants env) n = env.resolve? vars n := by
  rcases env.resolve?_cases n with ⟨f, hf⟩ | hresolve
  · rw [hf, hf]
  · refine Environment.resolve?_withoutConstants fun hconstant => ?_
    obtain ⟨l, hl⟩ := Option.isSome_iff_exists.1 hconstant
    have hknown : env.resolve? (fun _ => none) n = some (.ofLiteral l) := by
      rw [hresolve, hl]
      rfl
    have hunwritable : l.isWritable o = false := hn l hknown
    rw [hreadable.isWritable hl o] at hunwritable
    cases hunwritable

end

/-- What is left of a program if nothing is known has the value of the program without the variables that have the
names of constants. -/
theorem Program.exists_simplify_eq {host : Host σ} {env : Environment}
    {meaning : Function → List Value → Except EvalError Value} (hhost : host.Computes env meaning)
    (hreadable : env.grammar.IsReadable) (o : Options) (p : Program) (s : σ) :
    ∃ q, (Program.simplify ⟨host, env, o, fun _ => none⟩ p).run s = (q, s) ∧ ∀ vars : Variables,
      q.evaluate ⟨host, env, vars⟩ = p.evaluate ⟨host, env, vars.withoutConstants env⟩ := by
  let m : Simplifier σ := ⟨host, env, o, fun _ => none⟩
  have hforesees (vars : Variables) : m.Foresees (⟨host, env, vars.withoutConstants env⟩ : Machine σ) meaning :=
    ⟨rfl, hhost, hhost, Environment.determines_withoutConstants⟩
  obtain ⟨q, hq, -⟩ := Program.simplify_sound (hforesees fun _ => none) p
  refine ⟨q, congrFun hq s, fun vars => ?_⟩
  obtain ⟨q', hq', hruns⟩ := Program.simplify_sound (hforesees vars) p
  obtain rfl : q' = q := congrArg Prod.fst (congrFun (hq'.symm.trans hq) s)
  have hkeeps : ∀ n ∈ Program.names q', m.Keeps n := by
    have hnames := Program.keeps_of_mem_simplify (m := m) p s
    rwa [hq] at hnames
  calc q'.evaluate ⟨host, env, vars⟩
      = q'.evaluate ⟨host, env, vars.withoutConstants env⟩ :=
        Program.evaluate_congr_vars fun n hn => ((hkeeps n hn).resolve?_withoutConstants hreadable).symm
    _ = p.evaluate ⟨host, env, vars.withoutConstants env⟩ := Program.evaluate_congr (hruns [])

/-! ## Names in front of members -/

mutual

/-- A step refers to a constant only if the next step takes a field, and so do the steps of suspended programs. -/
def Instruction.TakesFields (g : Grammar) (next : Option Instruction) : Instruction → Prop
  | .load n => IsConstant g n → ∃ field, next = some (.member field)
  | .suspend body => Program.TakesFields g body
  | _ => True

/-- Wherever a program, or one that is suspended in it, refers to a constant by its name, the next step takes a
field. -/
def Program.TakesFields (g : Grammar) : List Instruction → Prop
  | [] => True
  | i :: rest => i.TakesFields g rest.head? ∧ Program.TakesFields g rest

end

namespace Expr

variable {N : Float → Prop} {g : Grammar} {o : Options}

mutual

/-- In front of other steps, of which the first one takes a field if there is a dot behind the expression. -/
theorem PrintableWith.takesFields : (e : Expr) → ∀ {dotted : Bool} {rest : Program}, e.PrintableWith N g o dotted →
    dotted = false ∨ (∃ field, rest.head? = some (.member field)) → Program.TakesFields g rest →
      Program.TakesFields g (e.program ++ rest)
  | .number _, _, _, _, _, hrest | .string _, _, _, _, _, hrest => ⟨trivial, hrest⟩
  | .name _, _, _, ⟨_, hn⟩, hdot, hrest =>
    ⟨fun hconstant => hdot.resolve_left (ne_false_of_eq_true (hn hconstant)), hrest⟩
  | .unary op x, _, rest, ⟨_, _, hx⟩, _, hrest => by
    rw [program, List.append_assoc]
    exact PrintableWith.takesFields x hx (.inl rfl) ⟨trivial, hrest⟩
  | .binary op x y, _, rest, ⟨_, _, hx, hy⟩, _, hrest => by
    rw [program, List.append_assoc, List.append_assoc]
    refine PrintableWith.takesFields x hx (.inl rfl) ?_
    split
    · have hbody : Program.TakesFields g (y.program ++ []) := PrintableWith.takesFields y hy (.inl rfl) trivial
      rw [List.append_nil] at hbody
      exact ⟨hbody, trivial, hrest⟩
    · exact PrintableWith.takesFields y hy (.inl rfl) ⟨trivial, hrest⟩
  | .choice c x y, _, rest, ⟨_, _, hc, hx, hy⟩, _, hrest => by
    rw [program, List.append_assoc]
    have hyes : Program.TakesFields g (x.program ++ []) := PrintableWith.takesFields x hx (.inl rfl) trivial
    have hno : Program.TakesFields g (y.program ++ []) := PrintableWith.takesFields y hy (.inl rfl) trivial
    rw [List.append_nil] at hyes hno
    exact PrintableWith.takesFields c hc (.inl rfl) ⟨hyes, hno, trivial, hrest⟩
  | .call f args, _, rest, ⟨hf, hargs⟩, _, hrest => by
    rw [program, List.append_assoc, List.append_assoc]
    exact PrintableWith.takesFields f hf (.inl rfl) (AllPrintableWith.takesFields args hargs ⟨trivial, hrest⟩)
  | .member x field, _, rest, ⟨_, _, _, hx⟩, _, hrest => by
    rw [program, List.append_assoc]
    exact PrintableWith.takesFields x hx (.inr ⟨field, rfl⟩) ⟨trivial, hrest⟩

theorem AllPrintableWith.takesFields : (es : List Expr) → ∀ {rest : Program}, AllPrintableWith N g o es →
    Program.TakesFields g rest → Program.TakesFields g (programs es ++ rest)
  | [], _, _, hrest => hrest
  | x :: es, _, ⟨hx, hes⟩, hrest => by
    rw [programs, List.append_assoc]
    exact PrintableWith.takesFields x hx (.inl rfl) (AllPrintableWith.takesFields es hes hrest)

end

end Expr

/-- In a program that has been read, a field is taken of what a constant's name stands for. -/
theorem Program.takesFields_of_parse {g : Grammar} {o : Options} {code : String} {p : Program}
    (h : Program.parse g o code = .ok p) : Program.TakesFields g p := by
  obtain ⟨e, he, rfl⟩ := Program.parse_eq_ok_iff.1 h
  have hfields : Program.TakesFields g (e.program ++ []) :=
    Expr.PrintableWith.takesFields e (Expr.printableWith_of_parse he) (.inl rfl) trivial
  rwa [List.append_nil] at hfields

/-! ## The standard environment -/

/-- What has a place among the constants of the standard environment is read as a constant if it stands alone. -/
theorem Environment.isConstant_standard {o : Options} {n : String}
    (h : Table.has n (Environment.standard.withOptions o).constants = true) :
    IsConstant (Environment.standard.withOptions o).grammar n := by
  obtain ⟨l, hl⟩ := Option.isSome_iff_exists.1 h
  have hwords : ∀ entry ∈ standardConstants, IsWord entry.1.toList := by decide +kernel
  have hmem : (n, l) ∈ standardConstants := Table.mem_of_lookup_ofEntries hl
  have hsome : (Environment.standard.withOptions o).grammar.constant? n = some l := hl
  exact ⟨hwords (n, l) hmem, Option.isSome_iff_ne_none.1 (Option.isSome_iff_exists.2 ⟨l, hsome⟩)⟩

/-- What is left of a formula of the standard environment if nothing is known. -/
theorem Formula.exists_simplify_eq (chance : StateM σ Float) (run : String → List Value → Eval σ Value) (o : Options)
    {f : Formula} (hf : f.env = Environment.standard.withOptions o) (s : σ) :
    ∃ f', (f.simplify (.withBuiltins chance run) fun _ => none).run s = (f', s) ∧ ∀ vars : Variables,
      f'.evaluate (.withBuiltins chance run) vars =
        f.evaluate (.withBuiltins chance run) (vars.withoutConstants f.env) := by
  have hhost : (Host.withBuiltins chance run).Computes f.env Function.standardMeaning :=
    hf ▸ Host.computes_withBuiltins chance run o
  have hreadable : f.env.grammar.IsReadable := hf ▸ Environment.isReadable_standard o
  obtain ⟨q, hq, hvalue⟩ := Program.exists_simplify_eq hhost hreadable f.options f.program s
  refine ⟨{ f with program := q }, ?_, hvalue⟩
  rw [Formula.simplify, StateT.run_bind, hq]
  rfl

/-- The code of a field of a constant refers to the constant by its name. -/
theorem Formula.parseWith_member_constant :
    Formula.parseWith (Environment.standard.withOptions .standard) .standard "E.x" =
      .ok ⟨[.load "E", .member "x"], Environment.standard.withOptions .standard, .standard⟩ := by
  let g : Grammar := (Environment.standard.withOptions .standard).grammar
  have hE : (Expr.name "E").Printable g .standard true :=
    ⟨⟨.inl (by decide), fun _ hoperator => absurd hoperator (by decide +kernel)⟩, fun _ => rfl⟩
  have hx : Expr.IsField g .standard false "x" :=
    .inl (Expr.printable_name (by decide) (by decide +kernel) (by decide +kernel))
  have hmember : (Expr.member (.name "E") "x").Printable g .standard false := ⟨by decide, by decide, hx, hE⟩
  exact Formula.parseWith_render hmember rfl (by decide +kernel)

/-- What is left of a formula that was read in the standard environment, if nothing is known, has the value of the
formula without the variables that have the names of constants, whatever the variables are. So it has the same value
with the same variables unless they bind a constant that the formula refers to by its name, and where it does, it takes
a field. -/
theorem Formula.evaluate_simplify_constants (chance : StateM σ Float) (run : String → List Value → Eval σ Value)
    (o o' : Options) {code : String} {f : Formula}
    (hf : Formula.parseWith (Environment.standard.withOptions o) o' code = .ok f) (s : σ) :
    let host : Host σ := .withBuiltins chance run
    ∃ f' : Formula, (f.simplify host fun _ => none).run s = (f', s) ∧
      (∀ vars : Variables, f'.evaluate host vars = f.evaluate host (vars.withoutConstants f.env)) ∧
      (∀ vars : Variables, (∀ n ∈ Program.names f.program, IsConstant f.env.grammar n → vars n = none) →
        f'.evaluate host vars = f.evaluate host vars) ∧
      Program.TakesFields f.env.grammar f.program := by
  intro host
  obtain ⟨p, hp, rfl⟩ := Formula.exists_of_parseWith hf
  obtain ⟨f', hf', hvalue⟩ := Formula.exists_simplify_eq (f := ⟨p, _, o'⟩) chance run o rfl s
  refine ⟨f', hf', hvalue, fun vars hvars => ?_, Program.takesFields_of_parse hp⟩
  refine (hvalue vars).trans (Program.evaluate_congr_vars fun n hn => ?_)
  exact Environment.resolve?_withoutConstants fun hconstant => hvars n hn (Environment.isConstant_standard hconstant)

/-- `E.x`, with `E` bound and without. -/
theorem Formula.evaluate_simplify_constants_member :
    let host : Host Unit := .withBuiltins (pure 0) fun _ _ => pure .void
    let vars : Variables := fun name => if name = "x" then some .void else none
    let f : Formula := ⟨[.load "E", .member "x"], Environment.standard.withOptions .standard, .standard⟩
    Formula.parseWith (Environment.standard.withOptions .standard) .standard "E.x" = .ok f ∧
      ∃ f' : Formula, (f.simplify host fun _ => none).run () = (f', ()) ∧
        f'.evaluate host (vars.bind "E" .void) = f.evaluate host ((vars.bind "E" .void).withoutConstants f.env) ∧
        f'.evaluate host vars = f.evaluate host vars ∧ Program.TakesFields f.env.grammar f.program := by
  intro host vars f
  have hf : Formula.parseWith (Environment.standard.withOptions .standard) .standard "E.x" = .ok f :=
    Formula.parseWith_member_constant
  obtain ⟨f', hf', hwithout, hwith, hfields⟩ :=
    Formula.evaluate_simplify_constants (pure 0) (fun _ _ => pure .void) .standard .standard hf ()
  refine ⟨hf, f', hf', hwithout _, hwith vars fun n hn _ => ?_, hfields⟩
  obtain rfl : n = "E" := List.mem_singleton.1 hn
  rfl

/-- `E.x`, where `E` is bound to a record with the field: the constant comes first if the formula is simplified. -/
theorem Formula.not_evaluate_simplify_constants :
    let host : Host Unit := .withBuiltins (pure 0) fun _ _ => pure .void
    let vars : Variables := fun name => if name = "E" then some (.record [("x", .number 1)]) else none
    let f : Formula := ⟨[.load "E", .member "x"], .standard, .standard⟩
    Formula.parse .standard "E.x" = .ok f ∧
      ∃ f' : Formula, (f.simplify host fun _ => none).run () = (f', ()) ∧
        f.evaluate host vars = pure (.number 1) ∧ f'.evaluate host vars = pure .void ∧
        f'.evaluate host vars ≠ f.evaluate host vars := by
  intro host vars f
  have hresolve (vars : Variables) : f.env.resolve? vars "E" = (vars "E").or (some (.number Numeric.e)) := by
    have hconstant : Table.lookup "E" f.env.constants = some (.number Numeric.e) := by decide +kernel
    rw [Environment.resolve?_eq_or (by decide +kernel) (by decide +kernel), hconstant]
    rfl
  have hvalue (vars : Variables) {v : Value} (hv : f.env.resolve? vars "E" = some v) :
      f.evaluate host vars = pure (v.field "x") := by
    refine (Program.evaluate_expr _ (.member (.name "E") "x")).trans ?_
    rw [Expr.evaluate, Expr.evaluate, hv]
    rfl
  obtain ⟨f', hf', hsimplified⟩ := Formula.exists_simplify_eq (f := f) (pure 0) (fun _ _ => pure .void) .standard rfl ()
  have hfield : f.evaluate host vars = pure (.number 1) := hvalue vars (hresolve vars)
  have hvoid : f'.evaluate host vars = pure .void := by
    have hhidden : vars.withoutConstants f.env "E" = none := if_pos (by decide +kernel)
    have hE : f.env.resolve? (vars.withoutConstants f.env) "E" = some (.number Numeric.e) := by
      rw [hresolve, hhidden]
      rfl
    exact (hsimplified vars).trans (hvalue _ hE)
  refine ⟨Formula.parseWith_member_constant, f', hf', hfield, hvoid, fun h => ?_⟩
  have hresult : (Except.ok .void : Except EvalError Value) = .ok (.number 1) :=
    congrArg Prod.fst (congrFun (hvoid.symm.trans (h.trans hfield)) ())
  cases hresult

end Reckon
