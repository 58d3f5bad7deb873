import Reckon.Expr.Derivation
import Reckon.Program.Nested
import Reckon.Program.Render
import Reckon.Proofs.Rendering.Scanning

/-!
# Rendering expressions

The text of an expression by its structure (`Expr.rendered`), which is the one that its program is written as
(`renderOn_program`), and substitution in an expression, which is the one in its program (`program_substitute`). An
expression that can be written (`Expr.Printable`) is read back as `Expr.spelled` says: NaN and negative numbers come
back as operations. Substitution keeps expressions printable (`Expr.Printable.substitute`).
-/

namespace Reckon

variable {g : Grammar} {o : Options}

namespace Expr

/-! ## Programs of expressions -/

mutual

/-- The text of an expression. -/
def rendered : Expr → Rendered
  | .number v => .ofNumber v
  | .string s => ⟨Text.Quoted.encode s.toList, .atom, false⟩
  | .name n => ⟨n.toList, .atom, false⟩
  | .unary op x => .unary op x.rendered
  | .binary op x y => .binary op x.rendered y.rendered
  | .choice c x y => .ternary "?" c.rendered x.rendered y.rendered
  | .call f args => f.rendered.call (allRendered args)
  | .member x field => x.rendered.member field

/-- The texts of expressions. -/
def allRendered : List Expr → List Rendered
  | [] => []
  | x :: rest => x.rendered :: allRendered rest

end

theorem length_allRendered (args : List Expr) : (allRendered args).length = args.length := by
  induction args with
  | nil => rfl
  | cons x rest ih => rw [allRendered, List.length_cons, List.length_cons, ih]

mutual

/-- The program of an expression writes the text of the expression. -/
theorem renderOn_program : (e : Expr) → ∀ stack, Program.renderOn stack e.program = e.rendered :: stack
  | .number _, _ | .string _, _ | .name _, _ => rfl
  | .unary op x, stack => by
    rw [program, Program.renderOn_append, x.renderOn_program]
    rfl
  | .binary op x y, stack => by
    rw [program, Program.renderOn_append, Program.renderOn_append, x.renderOn_program]
    split
    · simp only [Program.renderOn, Program.renderStep, y.renderOn_program []]
      rfl
    · rw [y.renderOn_program]
      rfl
  | .choice c x y, stack => by
    rw [program, Program.renderOn_append, c.renderOn_program]
    simp only [Program.renderOn, Program.renderStep, x.renderOn_program [], y.renderOn_program []]
    rfl
  | .call f args, stack => by
    rw [program, Program.renderOn_append, Program.renderOn_append, f.renderOn_program, renderOn_programs args]
    have hlength : args.length = (allRendered args).reverse.length := by
      rw [List.length_reverse, length_allRendered]
    simp only [Program.renderOn, Program.renderStep]
    rw [hlength, List.take_left, List.drop_left, List.reverse_reverse]
    rfl
  | .member x field, stack => by
    rw [program, Program.renderOn_append, x.renderOn_program]
    rfl

theorem renderOn_programs : (es : List Expr) → ∀ stack,
    Program.renderOn stack (programs es) = (allRendered es).reverse ++ stack
  | [], _ => rfl
  | x :: rest, stack => by
    rw [programs, Program.renderOn_append, x.renderOn_program, renderOn_programs rest, allRendered,
      List.reverse_cons, List.append_assoc]
    rfl

end

/-- What is written for the program of an expression. -/
theorem render_program (e : Expr) : e.program.render = String.ofList e.rendered.text := by
  rw [Program.render, renderOn_program]
  rfl

/-! ## Substitution -/

mutual

/-- Replaces every reference to a variable by an expression. -/
def substitute (name : String) (replacement : Expr) : Expr → Expr
  | .number v => .number v
  | .string s => .string s
  | .name n => if n = name then replacement else .name n
  | .unary op x => .unary op (substitute name replacement x)
  | .binary op x y => .binary op (substitute name replacement x) (substitute name replacement y)
  | .choice c x y =>
    .choice (substitute name replacement c) (substitute name replacement x) (substitute name replacement y)
  | .call f args => .call (substitute name replacement f) (substituteAll name replacement args)
  | .member x field => .member (substitute name replacement x) field

/-- The same in a list of expressions. -/
def substituteAll (name : String) (replacement : Expr) : List Expr → List Expr
  | [] => []
  | x :: rest => substitute name replacement x :: substituteAll name replacement rest

end

section

variable {name : String} {r : Expr}

theorem length_substituteAll (args : List Expr) : (substituteAll name r args).length = args.length := by
  induction args with
  | nil => rfl
  | cons x rest ih => rw [substituteAll, List.length_cons, List.length_cons, ih]

mutual

/-- Substitution in the program of an expression is substitution in the expression. -/
theorem program_substitute : (e : Expr) → (substitute name r e).program = Program.substitute name r.program e.program
  | .number _ | .string _ => rfl
  | .name n => by
    simp only [substitute, program, Program.substitute, Program.substituteStep, List.append_nil]
    split <;> rfl
  | .unary op x => by
    rw [substitute, program, program, Program.substitute_append, x.program_substitute]
    rfl
  | .binary op x y => by
    rw [substitute, program, program, Program.substitute_append, Program.substitute_append, x.program_substitute,
      y.program_substitute]
    split <;> rfl
  | .choice c x y => by
    rw [substitute, program, program, Program.substitute_append, c.program_substitute, x.program_substitute,
      y.program_substitute]
    rfl
  | .call f args => by
    rw [substitute, program, program, Program.substitute_append, Program.substitute_append, f.program_substitute,
      programs_substituteAll args, length_substituteAll]
    rfl
  | .member x field => by
    rw [substitute, program, program, Program.substitute_append, x.program_substitute]
    rfl

theorem programs_substituteAll : (es : List Expr) →
    programs (substituteAll name r es) = Program.substitute name r.program (programs es)
  | [] => rfl
  | x :: rest => by
    rw [substituteAll, programs, programs, Program.substitute_append, x.program_substitute, programs_substituteAll rest]

end

end

/-! ## What can be written -/

/-- A number can be written: NaN as a quotient, and a negative number as the negative of its absolute value. -/
def CanSpell (g : Grammar) (o : Options) (v : Float) : Prop :=
  if v.isNaN then IsOperator g o "/" else if isNegative v then IsOperator g o "-" ∧ g.isUnary "-" = true else True

/-- The expression that is read where a number is written. -/
def spellNumber (v : Float) : Expr :=
  if v.isNaN then .binary "/" (.number 0) (.number 0)
  else if isNegative v then .unary "-" (.number (absolute v))
  else .number v

theorem spellNumber_of_unsigned {v : Float} (hv : Unsigned v) : spellNumber v = .number v := by
  obtain ⟨hnan, hsign⟩ := unsigned_iff.1 hv
  rw [spellNumber, hnan, hsign]
  rfl

theorem canSpell_of_unsigned {v : Float} (hv : Unsigned v) : CanSpell g o v := by
  obtain ⟨hnan, hsign⟩ := unsigned_iff.1 hv
  rw [CanSpell, hnan, hsign]
  trivial

/-- The name of a field: a name, or an operator that is a word. -/
def IsField (g : Grammar) (o : Options) (dotted : Bool) (field : String) : Prop :=
  IsVariable g o field ∧ (IsConstant g field → dotted = true) ∨
    IsWord field.toList ∧ g.isOperator field = true ∧ o.enables field = true

mutual

/-- What is read where an expression is written. -/
def spelled : Expr → Expr
  | .number v => spellNumber v
  | .string s => .string s
  | .name n => .name n
  | .unary op x => .unary op x.spelled
  | .binary op x y => .binary op x.spelled y.spelled
  | .choice c x y => .choice c.spelled x.spelled y.spelled
  | .call f args => .call f.spelled (allSpelled args)
  | .member x field => .member x.spelled field

/-- What is read where expressions are written. -/
def allSpelled : List Expr → List Expr
  | [] => []
  | x :: rest => x.spelled :: allSpelled rest

end

theorem length_allSpelled (args : List Expr) : (allSpelled args).length = args.length := by
  induction args with
  | nil => rfl
  | cons x rest ih => rw [allSpelled, List.length_cons, List.length_cons, ih]

mutual

/-- An expression whose parts can be written, in front of a dot if that is asked for. A name that is also a constant
can only be written in front of a dot. -/
def Printable (g : Grammar) (o : Options) (dotted : Bool) : Expr → Prop
  | .number v => CanSpell g o v
  | .string _ => True
  | .name n => IsVariable g o n ∧ (IsConstant g n → dotted = true)
  | .unary op x => IsOperator g o op ∧ (op = "!" ∨ g.isUnary op = true) ∧ x.Printable g o false
  | .binary op x y =>
    IsOperator g o op ∧ (op = "^" ∨ ∃ l : Level, op ∈ l.operators) ∧ x.Printable g o false ∧ y.Printable g o false
  | .choice c x y =>
    IsOperator g o "?" ∧ IsOperator g o ":" ∧ c.Printable g o false ∧ x.Printable g o false ∧ y.Printable g o false
  | .call f args => f.Printable g o false ∧ AllPrintable g o args
  | .member x field =>
    o.memberAccess = true ∧ o.enables "." = true ∧ IsField g o dotted field ∧ x.Printable g o true

/-- Expressions that can be written. -/
def AllPrintable (g : Grammar) (o : Options) : List Expr → Prop
  | [] => True
  | x :: rest => x.Printable g o false ∧ AllPrintable g o rest

end

mutual

/-- An expression whose numbers are of a kind and whose other parts can be written. -/
def PrintableWith (N : Float → Prop) (g : Grammar) (o : Options) (dotted : Bool) : Expr → Prop
  | .number v => N v
  | .string _ => True
  | .name n => IsVariable g o n ∧ (IsConstant g n → dotted = true)
  | .unary op x => IsOperator g o op ∧ (op = "!" ∨ g.isUnary op = true) ∧ x.PrintableWith N g o false
  | .binary op x y =>
    IsOperator g o op ∧ (op = "^" ∨ ∃ l : Level, op ∈ l.operators) ∧ x.PrintableWith N g o false ∧
      y.PrintableWith N g o false
  | .choice c x y =>
    IsOperator g o "?" ∧ IsOperator g o ":" ∧ c.PrintableWith N g o false ∧ x.PrintableWith N g o false ∧
      y.PrintableWith N g o false
  | .call f args => f.PrintableWith N g o false ∧ AllPrintableWith N g o args
  | .member x field =>
    o.memberAccess = true ∧ o.enables "." = true ∧ IsField g o dotted field ∧ x.PrintableWith N g o true

/-- Expressions with numbers of a kind that can be written otherwise. -/
def AllPrintableWith (N : Float → Prop) (g : Grammar) (o : Options) : List Expr → Prop
  | [] => True
  | x :: rest => x.PrintableWith N g o false ∧ AllPrintableWith N g o rest

end

mutual

/-- What can be written is what can be written apart from its numbers, with numbers that can be written. -/
theorem printableWith_canSpell : (e : Expr) → ∀ {dotted : Bool},
    e.PrintableWith (CanSpell g o) g o dotted ↔ e.Printable g o dotted
  | .number _, _ | .string _, _ | .name _, _ => Iff.rfl
  | .unary _ x, _ => by rw [PrintableWith, Printable, x.printableWith_canSpell]
  | .binary _ x y, _ => by rw [PrintableWith, Printable, x.printableWith_canSpell, y.printableWith_canSpell]
  | .choice c x y, _ => by
    rw [PrintableWith, Printable, c.printableWith_canSpell, x.printableWith_canSpell, y.printableWith_canSpell]
  | .call f args, _ => by rw [PrintableWith, Printable, f.printableWith_canSpell, allPrintableWith_canSpell args]
  | .member x _, _ => by rw [PrintableWith, Printable, x.printableWith_canSpell]

theorem allPrintableWith_canSpell : (es : List Expr) →
    (AllPrintableWith (CanSpell g o) g o es ↔ AllPrintable g o es)
  | [] => Iff.rfl
  | x :: rest => by rw [AllPrintableWith, AllPrintable, x.printableWith_canSpell, allPrintableWith_canSpell rest]

end

section

variable {N M : Float → Prop}

theorem forall_number_append {p q : Program} : (∀ v, .number v ∈ p ++ q → N v) ↔
    (∀ v, .number v ∈ p → N v) ∧ ∀ v, .number v ∈ q → N v := by
  simp only [List.mem_append, or_imp, forall_and]

mutual

/-- The numbers of an expression are those of its program. -/
theorem printableWith_iff : (e : Expr) → ∀ {dotted : Bool}, e.PrintableWith N g o dotted ↔
    e.PrintableWith (fun _ => True) g o dotted ∧ ∀ v, .number v ∈ Program.nested e.program → N v
  | .number v, _ => by simp [PrintableWith, program, Program.nested, Instruction.nested]
  | .string _, _ | .name _, _ => by simp [PrintableWith, program, Program.nested, Instruction.nested]
  | .unary op x, _ => by
    have hop : ∀ v, .number v ∈ Program.nested [.unary op] → N v := by simp [Program.nested, Instruction.nested]
    rw [PrintableWith, PrintableWith, x.printableWith_iff, program, Program.nested_append, forall_number_append,
      and_iff_left hop]
    simp only [and_assoc]
  | .binary op x y, _ => by
    have hop : ∀ v, .number v ∈ Program.nested [.binary op] → N v := by simp [Program.nested, Instruction.nested]
    have hright : (∀ v, .number v ∈ Program.nested
        (if isShortCircuit op then [.suspend y.program] else y.program) → N v) ↔
        ∀ v, .number v ∈ Program.nested y.program → N v := by
      split <;> simp [Program.nested, Instruction.nested]
    rw [PrintableWith, PrintableWith, x.printableWith_iff, y.printableWith_iff, program, Program.nested_append,
      Program.nested_append, forall_number_append, forall_number_append, and_iff_left hop, hright]
    tauto
  | .choice c x y, _ => by
    have hbodies : (∀ v, .number v ∈ Program.nested [.suspend x.program, .suspend y.program, .ternary "?"] → N v) ↔
        (∀ v, .number v ∈ Program.nested x.program → N v) ∧ ∀ v, .number v ∈ Program.nested y.program → N v := by
      simp [Program.nested, Instruction.nested, or_imp, forall_and]
    rw [PrintableWith, PrintableWith, c.printableWith_iff, x.printableWith_iff, y.printableWith_iff, program,
      Program.nested_append, forall_number_append, hbodies]
    tauto
  | .call f args, _ => by
    have hcall : ∀ v, .number v ∈ Program.nested [.call args.length] → N v := by
      simp [Program.nested, Instruction.nested]
    rw [PrintableWith, PrintableWith, f.printableWith_iff, allPrintableWith_iff args, program, Program.nested_append,
      Program.nested_append, forall_number_append, forall_number_append, and_iff_left hcall]
    tauto
  | .member x field, _ => by
    have hfield : ∀ v, .number v ∈ Program.nested [.member field] → N v := by
      simp [Program.nested, Instruction.nested]
    rw [PrintableWith, PrintableWith, x.printableWith_iff, program, Program.nested_append, forall_number_append,
      and_iff_left hfield]
    simp only [and_assoc]

theorem allPrintableWith_iff : (es : List Expr) → (AllPrintableWith N g o es ↔
    AllPrintableWith (fun _ => True) g o es ∧ ∀ v, .number v ∈ Program.nested (programs es) → N v)
  | [] => by simp [AllPrintableWith, programs, Program.nested]
  | x :: rest => by
    rw [AllPrintableWith, AllPrintableWith, x.printableWith_iff, allPrintableWith_iff rest, programs,
      Program.nested_append, forall_number_append]
    tauto

end

mutual

/-- Without signed numbers an expression is read as it is. -/
theorem PrintableWith.spelled_eq : (e : Expr) → ∀ {dotted : Bool}, e.PrintableWith Unsigned g o dotted → e.spelled = e
  | .number _, _, hv => spellNumber_of_unsigned hv
  | .string _, _, _ | .name _, _, _ => rfl
  | .unary op x, _, ⟨_, _, hx⟩ => by rw [spelled, PrintableWith.spelled_eq x hx]
  | .binary op x y, _, ⟨_, _, hx, hy⟩ => by
    rw [spelled, PrintableWith.spelled_eq x hx, PrintableWith.spelled_eq y hy]
  | .choice c x y, _, ⟨_, _, hc, hx, hy⟩ => by
    rw [spelled, PrintableWith.spelled_eq c hc, PrintableWith.spelled_eq x hx, PrintableWith.spelled_eq y hy]
  | .call f args, _, ⟨hf, hargs⟩ => by
    rw [spelled, PrintableWith.spelled_eq f hf, AllPrintableWith.allSpelled_eq args hargs]
  | .member x field, _, ⟨_, _, _, hx⟩ => by rw [spelled, PrintableWith.spelled_eq x hx]

theorem AllPrintableWith.allSpelled_eq : (es : List Expr) → AllPrintableWith Unsigned g o es → allSpelled es = es
  | [], _ => rfl
  | x :: rest, ⟨hx, hrest⟩ => by
    rw [allSpelled, PrintableWith.spelled_eq x hx, AllPrintableWith.allSpelled_eq rest hrest]

end

/-- A step of the program of an expression that can be written apart from its numbers. -/
def PrintableStep (g : Grammar) (o : Options) : Instruction → Prop
  | .load n => IsVariable g o n
  | .unary op | .binary op | .ternary op => IsOperator g o op
  | .member field => IsField g o true field
  | _ => True

mutual

/-- The names, operators and fields of the program of an expression that can be written can be written, in suspended
programs too. -/
theorem PrintableWith.forall_nested : (e : Expr) → ∀ {dotted : Bool}, e.PrintableWith N g o dotted →
    ∀ i ∈ Program.nested e.program, PrintableStep g o i
  | .number _, _, _ | .string _, _, _ => by simp [program, Program.nested, Instruction.nested, PrintableStep]
  | .name _, _, ⟨hn, _⟩ => by simpa [program, Program.nested, Instruction.nested, PrintableStep] using hn
  | .unary op x, _, ⟨hop, _, hx⟩ => by
    rw [program, Program.nested_append, List.forall_mem_append]
    refine ⟨PrintableWith.forall_nested x hx, ?_⟩
    simpa [Program.nested, Instruction.nested, PrintableStep] using hop
  | .binary op x y, _, ⟨hop, _, hx, hy⟩ => by
    have hright := PrintableWith.forall_nested y hy
    simp only [program, Program.nested_append, List.forall_mem_append]
    refine ⟨⟨PrintableWith.forall_nested x hx, ?_⟩, ?_⟩
    · split
      · simpa [Program.nested, Instruction.nested, PrintableStep] using hright
      · exact hright
    · simpa [Program.nested, Instruction.nested, PrintableStep] using hop
  | .choice c x y, _, ⟨hquestion, _, hc, hx, hy⟩ => by
    have hyes := PrintableWith.forall_nested x hx
    have hno := PrintableWith.forall_nested y hy
    rw [program, Program.nested_append, List.forall_mem_append]
    refine ⟨PrintableWith.forall_nested c hc, ?_⟩
    simp only [Program.nested, Instruction.nested, List.forall_mem_append, List.forall_mem_cons]
    exact ⟨⟨trivial, hyes⟩, ⟨trivial, hno⟩, ⟨hquestion, nofun⟩, nofun⟩
  | .call f args, _, ⟨hf, hargs⟩ => by
    simp only [program, Program.nested_append, List.forall_mem_append]
    refine ⟨⟨PrintableWith.forall_nested f hf, AllPrintableWith.forall_nested args hargs⟩, ?_⟩
    simp [Program.nested, Instruction.nested, PrintableStep]
  | .member x _, _, ⟨_, _, hfield, hx⟩ => by
    rw [program, Program.nested_append, List.forall_mem_append]
    refine ⟨PrintableWith.forall_nested x hx, ?_⟩
    simpa [Program.nested, Instruction.nested, PrintableStep, IsField] using hfield.imp_left And.left

theorem AllPrintableWith.forall_nested : (es : List Expr) → AllPrintableWith N g o es →
    ∀ i ∈ Program.nested (programs es), PrintableStep g o i
  | [], _ => by simp [programs, Program.nested]
  | x :: rest, ⟨hx, hrest⟩ => by
    rw [programs, Program.nested_append, List.forall_mem_append]
    exact ⟨PrintableWith.forall_nested x hx, AllPrintableWith.forall_nested rest hrest⟩

end

/-- Numbers may be said to be of another kind if all of them are. -/
theorem PrintableWith.imp {e : Expr} {dotted : Bool} (h : e.PrintableWith N g o dotted)
    (himp : ∀ v, .number v ∈ Program.nested e.program → N v → M v) : e.PrintableWith M g o dotted := by
  obtain ⟨hother, hnumbers⟩ := e.printableWith_iff.1 h
  exact e.printableWith_iff.2 ⟨hother, fun v hv => himp v hv (hnumbers v hv)⟩

/-- In front of a dot nothing more is asked for. -/
theorem PrintableWith.mono {e : Expr} (dotted : Bool) (h : e.PrintableWith N g o false) :
    e.PrintableWith N g o dotted := by
  cases dotted with
  | false => exact h
  | true =>
    cases e with
    | name n => exact ⟨h.1, fun _ => rfl⟩
    | member x field =>
      obtain ⟨haccess, hdot, hfield, hx⟩ := h
      exact ⟨haccess, hdot, hfield.imp_left fun hv => ⟨hv.1, fun _ => rfl⟩, hx⟩
    | _ => exact h

end

/-- A word that is neither an operator nor a constant can be written. -/
theorem printable_name {n : String} (hword : IsWord n.toList) (hoperator : g.isOperator n = false)
    (hconstant : g.constant? n = none) : (Expr.name n).Printable g o false := by
  refine ⟨⟨.inl hword, fun _ h => ?_⟩, fun h => absurd hconstant h.2⟩
  rw [hoperator] at h
  cases h

section

variable {name : String} {r : Expr}

mutual

/-- Substitution leaves what can be written apart from its numbers. -/
theorem PrintableWith.substitute {N : Float → Prop} (hr : r.PrintableWith N g o false) : (e : Expr) → ∀ {dotted},
    e.PrintableWith N g o dotted → (substitute name r e).PrintableWith N g o dotted
  | .number _, _, h | .string _, _, h => h
  | .name n, dotted, h => by
    rw [Expr.substitute]
    split
    · exact hr.mono dotted
    · exact h
  | .unary op x, _, ⟨hop, hunary, hx⟩ => ⟨hop, hunary, PrintableWith.substitute hr x hx⟩
  | .binary op x y, _, ⟨hop, hbinary, hx, hy⟩ =>
    ⟨hop, hbinary, PrintableWith.substitute hr x hx, PrintableWith.substitute hr y hy⟩
  | .choice c x y, _, ⟨hquestion, hcolon, hc, hx, hy⟩ =>
    ⟨hquestion, hcolon, PrintableWith.substitute hr c hc, PrintableWith.substitute hr x hx,
      PrintableWith.substitute hr y hy⟩
  | .call f args, _, ⟨hf, hargs⟩ => ⟨PrintableWith.substitute hr f hf, AllPrintableWith.substitute hr args hargs⟩
  | .member x field, _, ⟨haccess, hdot, hfield, hx⟩ => ⟨haccess, hdot, hfield, PrintableWith.substitute hr x hx⟩

theorem AllPrintableWith.substitute {N : Float → Prop} (hr : r.PrintableWith N g o false) : (es : List Expr) →
    AllPrintableWith N g o es → AllPrintableWith N g o (substituteAll name r es)
  | [], _ => trivial
  | x :: rest, ⟨hx, hrest⟩ => ⟨PrintableWith.substitute hr x hx, AllPrintableWith.substitute hr rest hrest⟩

end

/-- Substitution leaves what can be written. -/
theorem Printable.substitute (hr : r.Printable g o false) (e : Expr) {dotted : Bool} (he : e.Printable g o dotted) :
    (substitute name r e).Printable g o dotted :=
  (Expr.substitute name r e).printableWith_canSpell.1
    (PrintableWith.substitute (r.printableWith_canSpell.2 hr) e (e.printableWith_canSpell.2 he))

mutual

/-- Substitution of expressions without signed numbers leaves no signed numbers. -/
theorem spelled_substitute (hr : r.spelled = r) : (e : Expr) → e.spelled = e →
    (Expr.substitute name r e).spelled = Expr.substitute name r e
  | .number _, h | .string _, h => h
  | .name n, h => by
    rw [Expr.substitute]
    split
    · exact hr
    · rfl
  | .unary op x, h => by
    rw [spelled, unary.injEq] at h
    rw [Expr.substitute, spelled, spelled_substitute hr x h.2]
  | .binary op x y, h => by
    rw [spelled, binary.injEq] at h
    rw [Expr.substitute, spelled, spelled_substitute hr x h.2.1, spelled_substitute hr y h.2.2]
  | .choice c x y, h => by
    rw [spelled, choice.injEq] at h
    rw [Expr.substitute, spelled, spelled_substitute hr c h.1, spelled_substitute hr x h.2.1,
      spelled_substitute hr y h.2.2]
  | .call f args, h => by
    rw [spelled, call.injEq] at h
    rw [Expr.substitute, spelled, spelled_substitute hr f h.1, allSpelled_substituteAll hr args h.2]
  | .member x field, h => by
    rw [spelled, member.injEq] at h
    rw [Expr.substitute, spelled, spelled_substitute hr x h.1]

theorem allSpelled_substituteAll (hr : r.spelled = r) : (es : List Expr) → allSpelled es = es →
    allSpelled (substituteAll name r es) = substituteAll name r es
  | [], _ => rfl
  | x :: rest, h => by
    rw [allSpelled, List.cons.injEq] at h
    rw [substituteAll, allSpelled, spelled_substitute hr x h.1, allSpelled_substituteAll hr rest h.2]

end

end

end Expr

namespace Rendered

theorem ofNumber_nan {v : Float} (h : v.isNaN = true) : ofNumber v = ⟨"(0/0)".toList, .atom, false⟩ :=
  if_pos h

theorem ofNumber_unsigned {v : Float} (hv : Unsigned v) : ofNumber v = ⟨(ofNumber v).text, .atom, true⟩ := by
  obtain ⟨hnan, hsign⟩ := unsigned_iff.1 hv
  simp only [ofNumber, hnan, hsign, Bool.false_eq_true, if_false]

/-- A negative number is written as its absolute value behind the sign. -/
theorem ofNumber_negative {v : Float} (hnan : v.isNaN = false) (hsign : isNegative v = true) :
    ofNumber v = ⟨'-' :: (ofNumber (absolute v)).text, .sign, false⟩ := by
  obtain ⟨hnan', hsign'⟩ := unsigned_iff.1 (unsigned_absolute hnan)
  have hinf : (absolute v).isInf = v.isInf := by
    rw [Bool.eq_iff_iff, isInf_iff, isInf_iff, toNat_toBits_absolute hnan, Nat.mod_mod]
  have hwrite : (Numeral.write v).toList = '-' :: (Numeral.write (absolute v)).toList := by
    rcases ofFloat_absolute hnan hsign with ⟨m, h, h'⟩ | ⟨h, h'⟩
    · simp [Numeral.write, h, h', Numeral.sign]
    · simp [Numeral.write, h, h', Numeral.sign]
  simp only [ofNumber, hnan, hsign, hnan', hsign', hinf, hwrite, Numeral.sign]
  cases v.isInf <;> rfl

end Rendered

end Reckon
