import Reckon.Proofs.Evaluation.Compilation
import Reckon.Proofs.Rendering.Widening

/-!
# Formulas that can be read back

Simplification only writes numbers that the options let one write down, whatever the operators of the environment are;
they are read back unless one of them is negative and the environment has no sign
(`Program.exists_parse_render_simplify_iff`). In the standard environment, what is reached from codes by simplification
and substitution is the program of an expression that can be written with the options of the formula
(`Formula.Reachable.isWritten`), as long as what takes the place of a variable can be. So it is read back, and a literal
has to be one that these options let one write down (`Formula.Reachable.exists_parse_render`). A literal alone is read
back exactly if they do, and then with its value (`Literal.isWritable_iff_exists_parse`).
-/

namespace Reckon

variable {σ : Type} {g : Grammar} {o : Options}

/-! ## Codes that can be read -/

theorem Program.exists_parse_iff {code : String} :
    (∃ p, Program.parse g o code = .ok p) ↔ ∃ e, Expr.parse g o code = .ok e := by
  constructor
  · rintro ⟨p, hp⟩
    obtain ⟨e, he, -⟩ := Program.parse_eq_ok_iff.1 hp
    exact ⟨e, he⟩
  · rintro ⟨e, he⟩
    exact ⟨e.program, Program.parse_eq_ok_iff.2 ⟨e, he, rfl⟩⟩

theorem Formula.exists_parseWith_iff {env : Environment} {code : String} :
    (∃ f, Formula.parseWith env o code = .ok f) ↔ ∃ e, Expr.parse env.grammar o code = .ok e := by
  rw [← Program.exists_parse_iff]
  constructor
  · rintro ⟨f, hf⟩
    obtain ⟨p, hp, -⟩ := Formula.exists_of_parseWith hf
    exact ⟨p, hp⟩
  · rintro ⟨p, hp⟩
    exact ⟨⟨p, env, o⟩, by rw [Formula.parseWith, hp]; rfl⟩

/-- The code of a number is read exactly if the number can be written. -/
theorem Expr.exists_parse_number_iff (hg : g.IsDotless) {v : Float} :
    (∃ e, Expr.parse g o (Program.render [.number v]) = .ok e) ↔ Expr.CanSpell g o v :=
  Expr.exists_parse_render_iff hg (e := .number v) trivial

/-- A program that is read where it is written is that of an expression that can be written. -/
theorem Program.exists_printable_of_parse_render (hg : g.IsDotless) {p : Program}
    (hp : Program.parse g o p.render = .ok p) : ∃ e : Expr, p = e.program ∧ e.Printable g o false := by
  obtain ⟨e, he, rfl⟩ := Program.parse_eq_ok_iff.1 hp
  exact ⟨e, rfl, (Expr.exists_parse_render_iff hg (Expr.printableWith_of_parse he)).1 ⟨e, he⟩⟩

/-! ## Simplification -/

/-- What is left of a program that is read where it is written is read, too, exactly if the environment has the sign or
no negative number is left: simplification asks the options for the sign, but not the environment. -/
theorem Program.exists_parse_render_simplify_iff (host : Host σ) (env : Environment)
    (hdotless : env.grammar.IsDotless) (o : Options) (known : Variables) {p : Program}
    (hp : Program.parse env.grammar o p.render = .ok p) (s : σ) :
    ∃ q s', (Program.simplify ⟨host, env, o, known⟩ p).run s = (q, s') ∧
      ((∃ r, Program.parse env.grammar o q.render = .ok r) ↔
        Table.has "-" env.unary = true ∨
          ∀ v, .number v ∈ Program.nested q → v.isNaN = true ∨ isNegative v = false) := by
  obtain ⟨e, rfl, he⟩ := Program.exists_printable_of_parse_render hdotless hp
  let m : Simplifier σ := ⟨host, env, o, known⟩
  have hwritable : e.PrintableWith (fun v => (Literal.number v).isWritable o = true) env.grammar o false :=
    (e.printableWith_canSpell.2 he).imp fun _ _ hv => (Expr.canSpell_iff.1 hv).1
  obtain ⟨e', he', hq⟩ := Program.simplify_renders (m := m) (fun _ hv => hv) hwritable s
  refine ⟨e'.program, _, Prod.ext hq rfl, ?_⟩
  obtain ⟨hother, hnumbers⟩ := e'.printableWith_iff.1 he'
  rw [Program.exists_parse_iff, Expr.exists_parse_render_iff hdotless hother, ← e'.printableWith_canSpell,
    e'.printableWith_iff, and_iff_right hother]
  constructor
  · intro h
    by_cases hminus : Table.has "-" env.unary = true
    · exact .inl hminus
    · refine .inr fun v hv => ?_
      rcases (Expr.canSpell_iff.1 (h v hv)).2 with hnan | hsign | hunary
      · exact .inl hnan
      · exact .inr hsign
      · exact absurd hunary hminus
  · rintro (hminus | hsigns) v hv
    · exact Expr.canSpell_iff.2 ⟨hnumbers v hv, .inr (.inr hminus)⟩
    · exact Expr.canSpell_iff.2 ⟨hnumbers v hv, (hsigns v hv).imp_right .inl⟩

/-- `x - 2` in the standard environment, where `x` is known to be `1`. -/
theorem Program.exists_parse_render_simplify_iff_difference :
    let host : Host Unit := .withBuiltins (pure 0) fun _ _ => pure .void
    let known : Variables := fun name => if name = "x" then some (.number 1) else none
    let p : Program := [.load "x", .number 2, .binary "-"]
    Environment.standard.grammar.IsDotless ∧ Program.parse Environment.standard.grammar .standard p.render = .ok p ∧
      ∃ q s', (Program.simplify ⟨host, .standard, .standard, known⟩ p).run () = (q, s') ∧
        ((∃ r, Program.parse Environment.standard.grammar .standard q.render = .ok r) ↔
          Table.has "-" Environment.standard.unary = true ∨
            ∀ v, .number v ∈ Program.nested q → v.isNaN = true ∨ isNegative v = false) := by
  intro host known p
  let g : Grammar := (Environment.standard.withOptions .standard).grammar
  have hreadable : g.IsReadable := Environment.isReadable_standard .standard
  have hx : (Expr.name "x").Printable g .standard false :=
    Expr.printable_name (by decide) (by decide +kernel) (by decide +kernel)
  have htwo : Unsigned 2 := by decide
  have hdifference : (Expr.binary "-" (.name "x") (.number 2)).Printable g .standard false :=
    ⟨⟨by decide, .inl (by decide)⟩, .inr ⟨.sum, by decide⟩, hx, Expr.canSpell_of_unsigned htwo⟩
  have hp := Program.parse_render_program hreadable hdifference
    (by simp only [Expr.spelled, Expr.spellNumber_of_unsigned htwo])
  exact ⟨hreadable.dotless, hp,
    Program.exists_parse_render_simplify_iff host .standard hreadable.dotless .standard known hp ()⟩

/-- Where `-` only stands between operands, `1 - 2` is folded to a number that is not read back. -/
theorem Program.not_exists_parse_render_simplify :
    let host : Host Unit := .withBuiltins (pure 0) fun _ _ => pure .void
    let env : Environment := Environment.empty.insertBinary "-" (.builtin (.binary .subtract))
    let p : Program := [.number 1, .number 2, .binary "-"]
    env.grammar.IsDotless ∧ Program.parse env.grammar .standard p.render = .ok p ∧
      (Program.simplify ⟨host, env, .standard, fun _ => none⟩ p).run () = ([.number (-1)], ()) ∧
      ¬∃ r, Program.parse env.grammar .standard (Program.render [.number (-1)]) = .ok r := by
  intro host env p
  have hreadable : env.grammar.IsReadable := ⟨nofun, nofun⟩
  have hone : Unsigned 1 := by decide
  have htwo : Unsigned 2 := by decide
  have hdifference : (Expr.binary "-" (.number 1) (.number 2)).Printable env.grammar .standard false :=
    ⟨⟨by decide, .inl (by decide)⟩, .inr ⟨.sum, by decide⟩, Expr.canSpell_of_unsigned hone,
      Expr.canSpell_of_unsigned htwo⟩
  have hp := Program.parse_render_program hreadable hdifference
    (by simp only [Expr.spelled, Expr.spellNumber_of_unsigned hone, Expr.spellNumber_of_unsigned htwo])
  refine ⟨hreadable.dotless, hp, rfl, fun hread => ?_⟩
  have hnegative := (Expr.exists_parse_number_iff hreadable.dotless).1 (Program.exists_parse_iff.1 hread)
  have hminus : ¬((-1 : Float).isNaN = true ∨ isNegative (-1) = false ∨ env.grammar.isUnary "-" = true) := by
    decide +kernel
  exact hminus (Expr.canSpell_iff.1 hnegative).2

/-! ## Substitution -/

mutual

theorem Program.substituteStep_of_not_mem {name : String} {r : Program} : (i : Instruction) → name ∉ i.names →
    Program.substituteStep name r i = [i]
  | .load n, h => by
    rw [Instruction.names, List.mem_singleton] at h
    rw [Program.substituteStep, if_neg (Ne.symm h)]
  | .suspend body, h => by rw [Program.substituteStep, Program.substitute_of_not_mem body h]
  | .number _, _ | .string _, _ | .unary _, _ | .binary _, _ | .ternary _, _ | .call _, _ | .member _, _ => rfl

/-- A program that does not refer to a name stays as it is. -/
theorem Program.substitute_of_not_mem {name : String} {r : Program} : (p : List Instruction) →
    name ∉ Program.names p → Program.substitute name r p = p
  | [], _ => rfl
  | i :: rest, h => by
    rw [Program.names, List.mem_append, not_or] at h
    rw [Program.substitute, Program.substituteStep_of_not_mem i h.1, Program.substitute_of_not_mem rest h.2]
    rfl

end

mutual

theorem Program.mem_nested_substituteStep {name : String} {r : Program} {j : Instruction}
    (hj : j ∈ Program.nested r) : (i : Instruction) → name ∈ i.names →
    j ∈ Program.nested (Program.substituteStep name r i)
  | .load n, h => by
    rw [Instruction.names, List.mem_singleton] at h
    rwa [Program.substituteStep, if_pos h.symm]
  | .suspend body, h => by
    rw [Program.substituteStep, Program.nested, Program.nested, List.append_nil, Instruction.nested]
    exact List.mem_cons_of_mem _ (Program.mem_nested_substitute hj body h)
  | .number _, h | .string _, h | .unary _, h | .binary _, h | .ternary _, h | .call _, h | .member _, h => nomatch h

/-- The steps of what takes the place of a name are steps of the outcome, if there is a reference to the name. -/
theorem Program.mem_nested_substitute {name : String} {r : Program} {j : Instruction} (hj : j ∈ Program.nested r) :
    (p : List Instruction) → name ∈ Program.names p → j ∈ Program.nested (Program.substitute name r p)
  | i :: rest, h => by
    rw [Program.names, List.mem_append] at h
    rw [Program.substitute, Program.nested_append, List.mem_append]
    exact h.imp (Program.mem_nested_substituteStep hj i) (Program.mem_nested_substitute hj rest)

end

/-- The expression that is a literal. -/
def Literal.expr : Literal → Expr
  | .number v => .number v
  | .string s => .string s

theorem Literal.program_expr (l : Literal) : l.expr.program = [.ofLiteral l] := by
  cases l <;> rfl

theorem Literal.printableWith_expr (l : Literal) : l.expr.PrintableWith (fun _ => True) g o false := by
  cases l <;> trivial

/-- With the sign in the grammar, the literals that can be written are those that the options let one write down. -/
theorem Literal.printable_expr_iff (hminus : g.isUnary "-" = true) (l : Literal) :
    l.expr.Printable g o false ↔ l.isWritable o = true := by
  cases l with
  | number v => exact Expr.canSpell_iff.trans (and_iff_left (.inr (.inr hminus)))
  | string s => exact iff_of_true trivial rfl

/-! ## Reachable formulas -/

/-- The formulas of the standard environment that are reached from codes. What takes the place of a variable that is
there is an expression that the options of the formula let one write: another formula whose code is read with them as it
is with its own options, a literal that can be written down with them, or a code that is read with them. -/
inductive Formula.Reachable : Formula → Prop
  /-- A code, read with the options of the environment. -/
  | parse {code : String} {f : Formula} (h : Formula.parse .standard code = .ok f) : Reachable f
  /-- A code, read with any options. -/
  | parseWith {o : Options} {code : String} {f : Formula} (h : Formula.parseWith .standard o code = .ok f) :
    Reachable f
  /-- What is left of a formula when some variables are known. -/
  | simplify {τ : Type} {f : Formula} (hf : Reachable f) (host : Host τ) (known : Variables) (s : τ) :
    Reachable ((f.simplify host known).run s).1
  /-- A formula in place of a variable. -/
  | substitute {f r : Formula} (hf : Reachable f) (hr : Reachable r) (name : String)
    (h : name ∈ Program.names f.program → Expr.parse Environment.standard.grammar f.options r.render =
      Expr.parse Environment.standard.grammar r.options r.render) : Reachable (f.substitute name r)
  /-- A literal in place of a variable. -/
  | substituteLiteral {f : Formula} (hf : Reachable f) (name : String) (l : Literal)
    (h : name ∈ Program.names f.program → l.isWritable f.options = true) : Reachable (f.substituteLiteral name l)
  /-- A code in place of a variable. -/
  | substituteCode {f f' : Formula} (hf : Reachable f) (name code : String)
    (h : f.substituteCode name code = .ok f') : Reachable f'

/-- The program is that of an expression that can be written with the options of the formula. -/
def Formula.IsWritten (f : Formula) : Prop :=
  f.env = .standard ∧ ∃ e : Expr, f.program = e.program ∧ e.Printable Environment.standard.grammar f.options false

theorem Environment.isUnary_minus_standard : Environment.standard.grammar.isUnary "-" = true := by
  decide +kernel

theorem Environment.isDotless_standard : Environment.standard.grammar.IsDotless :=
  (Environment.isReadable_standard .standard).dotless

namespace Formula.IsWritten

variable {f r : Formula}

theorem of_parseWith {code : String} (h : Formula.parseWith .standard o code = .ok f) : f.IsWritten := by
  obtain ⟨p, hp, rfl⟩ := Formula.exists_of_parseWith h
  obtain ⟨e, rfl, he, -⟩ := Program.exists_printable (Environment.isReadable_standard .standard) hp
  exact ⟨rfl, e, rfl, he⟩

theorem simplify (hf : f.IsWritten) (host : Host σ) (known : Variables) (s : σ) :
    ((f.simplify host known).run s).1.IsWritten := by
  obtain ⟨henv, e, hprogram, he⟩ := hf
  have hwrites := Options.writes_canSpell Environment.isUnary_minus_standard f.options
  obtain ⟨e', he', hq⟩ := Program.simplify_renders (m := ⟨host, f.env, f.options, known⟩) hwrites
    (e.printableWith_canSpell.2 he) s
  refine ⟨henv, e', ?_, e'.printableWith_canSpell.1 he'⟩
  rw [← hprogram] at hq
  exact hq

/-- An expression that can be written with the options of a formula may take the place of a variable. -/
theorem substitute_expr (hf : f.IsWritten) {name : String} {e' : Expr}
    (he' : name ∈ Program.names f.program → e'.Printable Environment.standard.grammar f.options false) :
    IsWritten { f with program := Program.substitute name e'.program f.program } := by
  obtain ⟨henv, e, hprogram, he⟩ := hf
  by_cases hname : name ∈ Program.names f.program
  · refine ⟨henv, Expr.substitute name e' e, ?_, (he' hname).substitute e he⟩
    rw [Expr.program_substitute, ← hprogram]
  · rw [Program.substitute_of_not_mem _ hname]
    exact ⟨henv, e, hprogram, he⟩

theorem substitute (hf : f.IsWritten) (hr : r.IsWritten) {name : String}
    (h : name ∈ Program.names f.program → Expr.parse Environment.standard.grammar f.options r.render =
      Expr.parse Environment.standard.grammar r.options r.render) : (f.substitute name r).IsWritten := by
  obtain ⟨-, e', hprogram, he'⟩ := hr
  rw [Formula.substitute, hprogram]
  refine hf.substitute_expr fun hname => ?_
  have hread := h hname
  rw [Formula.render, hprogram, Expr.parse_rendered Environment.isDotless_standard he'] at hread
  exact e'.printable_of_spelled (Expr.printableWith_of_parse hread)

theorem substituteLiteral (hf : f.IsWritten) {name : String} {l : Literal}
    (h : name ∈ Program.names f.program → l.isWritable f.options = true) : (f.substituteLiteral name l).IsWritten := by
  rw [Formula.substituteLiteral, ← l.program_expr]
  exact hf.substitute_expr fun hname => (l.printable_expr_iff Environment.isUnary_minus_standard).2 (h hname)

theorem substituteCode (hf : f.IsWritten) {name code : String} {f' : Formula}
    (h : f.substituteCode name code = .ok f') : f'.IsWritten := by
  rw [Formula.substituteCode, hf.1] at h
  cases hr : Formula.parseWith .standard f.options code with
  | error e =>
    rw [hr] at h
    cases h
  | ok r =>
    rw [hr] at h
    cases h
    obtain ⟨p, hp, rfl⟩ := Formula.exists_of_parseWith hr
    exact hf.substitute (of_parseWith hr) fun _ => rfl

end Formula.IsWritten

/-- Every transformation leaves a formula whose program is that of an expression that can be written. -/
theorem Formula.Reachable.isWritten {f : Formula} (h : f.Reachable) : f.IsWritten := by
  induction h with
  | parse h => exact .of_parseWith h
  | parseWith h => exact .of_parseWith h
  | simplify _ host known s ih => exact ih.simplify host known s
  | substitute _ _ _ h ihf ihr => exact ihf.substitute ihr h
  | substituteLiteral _ _ _ h ih => exact ih.substituteLiteral h
  | substituteCode _ _ _ h ih => exact ih.substituteCode h

/-- A reachable formula is read with its own options where it is written, and with a literal in place of one of its
variables it is exactly if these options let one write the literal down. -/
theorem Formula.Reachable.exists_parse_render {f : Formula} (h : f.Reachable) :
    (∃ f', Formula.parseWith .standard f.options f.render = .ok f') ∧
      ∀ name ∈ Program.names f.program, ∀ l : Literal,
        (∃ f', Formula.parseWith .standard f.options (f.substituteLiteral name l).render = .ok f') ↔
          l.isWritable f.options = true := by
  obtain ⟨henv, e, hprogram, he⟩ := h.isWritten
  have hdotless := Environment.isDotless_standard
  constructor
  · rw [Formula.exists_parseWith_iff, Formula.render, hprogram]
    exact ⟨_, Expr.parse_rendered hdotless he⟩
  · intro name hname l
    have hsubstitute : (f.substituteLiteral name l).program = (Expr.substitute name l.expr e).program := by
      rw [Expr.program_substitute, l.program_expr, ← hprogram]
      rfl
    have hother : (Expr.substitute name l.expr e).PrintableWith (fun _ => True) Environment.standard.grammar f.options
        false :=
      l.printableWith_expr.substitute e (e.printableWith_iff.1 (e.printableWith_canSpell.2 he)).1
    rw [Formula.exists_parseWith_iff, Formula.render, hsubstitute, Expr.exists_parse_render_iff hdotless hother]
    rw [← l.printable_expr_iff Environment.isUnary_minus_standard]
    refine ⟨fun hwhole => ?_, fun hl => hl.substitute e he⟩
    cases l with
    | string s => trivial
    | number v =>
      obtain ⟨-, hnumbers⟩ := (Expr.printableWith_iff _).1 ((Expr.printableWith_canSpell _).2 hwhole)
      refine hnumbers v ?_
      rw [← hsubstitute]
      exact Program.mem_nested_substitute (.head _) f.program hname

/-- `x - y` with a negative number in place of `y`. -/
theorem Formula.Reachable.exists_parse_render_difference :
    let f : Formula := ⟨[.load "x", .load "y", .binary "-"], .standard, .standard⟩
    f.Reachable ∧ "y" ∈ Program.names f.program ∧ (Literal.number (-1)).isWritable .standard = true ∧
      (∃ f', Formula.parseWith .standard .standard f.render = .ok f') ∧
      ∃ f', Formula.parseWith .standard .standard (f.substituteLiteral "y" (.number (-1))).render = .ok f' := by
  intro f
  let g : Grammar := (Environment.standard.withOptions .standard).grammar
  have hx : (Expr.name "x").Printable g .standard false :=
    Expr.printable_name (by decide) (by decide +kernel) (by decide +kernel)
  have hy : (Expr.name "y").Printable g .standard false :=
    Expr.printable_name (by decide) (by decide +kernel) (by decide +kernel)
  have hdifference : (Expr.binary "-" (.name "x") (.name "y")).Printable g .standard false :=
    ⟨⟨by decide, .inl (by decide)⟩, .inr ⟨.sum, by decide⟩, hx, hy⟩
  have hf : Formula.parse .standard "x - y" = .ok f :=
    Formula.parseWith_render (o := .standard) hdifference rfl (by decide +kernel)
  have hname : "y" ∈ Program.names f.program := by decide
  have hwritable : (Literal.number (-1)).isWritable .standard = true := by decide +kernel
  obtain ⟨hread, hliterals⟩ := Formula.Reachable.exists_parse_render (.parse hf)
  exact ⟨.parse hf, hname, hwritable, hread, (hliterals "y" hname (.number (-1))).2 hwritable⟩

/-- Without subtraction a negative number may not take the place of a variable, but it does. -/
theorem Formula.not_exists_parse_render_negative :
    let o : Options := Options.standard.set "subtract" false
    let f : Formula := ⟨[.load "x"], .standard, o⟩
    Formula.parseWith .standard o "x" = .ok f ∧ (f.substituteLiteral "x" (.number (-1))).render = "-1" ∧
      ¬∃ f', Formula.parseWith .standard o (f.substituteLiteral "x" (.number (-1))).render = .ok f' := by
  intro o f
  have hx : (Expr.name "x").Printable (Environment.standard.withOptions .standard).grammar o false :=
    Expr.printable_name (by decide) (by decide +kernel) (by decide +kernel)
  have hf : Formula.parseWith .standard o "x" = .ok f :=
    Formula.parseWith_render (o := .standard) hx rfl (by decide +kernel)
  refine ⟨hf, by decide +kernel, ?_⟩
  intro hread
  have hnegative :=
    (Expr.exists_parse_number_iff Environment.isDotless_standard).1 (Formula.exists_parseWith_iff.1 hread)
  have hoff : (Literal.number (-1)).isWritable o = false := by decide +kernel
  rw [(Expr.canSpell_iff.1 hnegative).1] at hoff
  cases hoff

/-! ## Literals -/

/-- A literal can be written down with some options exactly if what is written for it is read with them, and then what
is read has the literal as its value in the standard environment: NaN comes back as a quotient, and a negative number,
the negative zero among them, as the negative of its absolute value. -/
theorem Literal.isWritable_iff_exists_parse (chance : StateM σ Float) (run : String → List Value → Eval σ Value)
    (o : Options) (vars : Variables) (l : Literal) :
    (l.isWritable o = true ↔ ∃ p, Program.parse Grammar.standard o (Program.render [.ofLiteral l]) = .ok p) ∧
      ∀ p, Program.parse Grammar.standard o (Program.render [.ofLiteral l]) = .ok p →
        p.evaluate ⟨.withBuiltins chance run, Environment.standard, vars⟩ = pure (.ofLiteral l) := by
  have hdotless : Grammar.standard.IsDotless := Grammar.isReadable_standard.dotless
  have hread : (∃ p, Program.parse Grammar.standard o (Program.render [.ofLiteral l]) = .ok p) ↔
      l.expr.Printable Grammar.standard o false := by
    rw [Program.exists_parse_iff, ← l.program_expr]
    exact Expr.exists_parse_render_iff hdotless l.printableWith_expr
  refine ⟨?_, fun p hp => ?_⟩
  · rw [hread]
    exact (l.printable_expr_iff (by decide)).symm
  · obtain ⟨e, he, rfl⟩ := Program.parse_eq_ok_iff.1 hp
    rw [← l.program_expr, Expr.parse_rendered hdotless (hread.1 ⟨_, hp⟩)] at he
    obtain rfl : l.expr.spelled = e := Except.ok.inj he
    have hsigns := Machine.computesSigns_standard chance run .standard vars
    calc l.expr.spelled.program.evaluate ⟨.withBuiltins chance run, Environment.standard, vars⟩
        = l.expr.program.evaluate ⟨.withBuiltins chance run, Environment.standard, vars⟩ :=
          Program.evaluate_congr (Machine.run_spelled hsigns l.expr [])
      _ = pure (.ofLiteral l) := by cases l <;> rfl

/-- Without subtraction the negative zero is not read back, but NaN is. -/
theorem Literal.isWritable_iff_exists_parse_zero :
    let run : String → List Value → Eval Unit Value := fun _ _ => pure .void
    let o : Options := Options.standard.set "subtract" false
    let zero : Literal := .number (-0)
    let nan : Literal := .number (0 / 0)
    (¬∃ p, Program.parse Grammar.standard o (Program.render [.ofLiteral zero]) = .ok p) ∧
      ∃ p, Program.parse Grammar.standard o (Program.render [.ofLiteral nan]) = .ok p ∧
        p.evaluate ⟨.withBuiltins (pure 0) run, Environment.standard, fun _ => none⟩ = pure (.ofLiteral nan) := by
  intro run o zero nan
  constructor
  · rw [← (Literal.isWritable_iff_exists_parse (pure 0) run o (fun _ => none) zero).1]
    decide +kernel
  · obtain ⟨hread, hvalue⟩ := Literal.isWritable_iff_exists_parse (pure 0) run o (fun _ => none) nan
    obtain ⟨p, hp⟩ := hread.1 (by decide +kernel)
    exact ⟨p, hp, hvalue p hp⟩

end Reckon
