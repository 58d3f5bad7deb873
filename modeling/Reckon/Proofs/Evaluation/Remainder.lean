import Reckon.Proofs.Evaluation.Staging
import Reckon.Proofs.Evaluation.Variables

/-!
# What simplification leaves

Whatever the operators of the environment do, simplification does one of three things with a step: it keeps the step,
it simplifies the program that the step suspends, or it puts a literal in place of the step and of what is left of
steps in front of it (`Simplifier.Reduces`). What a literal takes the place of has no open steps: no calls, and no names
of which nothing is known. That an operand with a value has none is what every step keeps
(`Simplifier.step_simplified`, `Simplifier.run_simplified`). So calls stay, in their order
(`Program.callCounts_simplify`), and so do the names of which nothing is known, while those of which something is known
that can be written down are gone (`Program.symbols_simplify`).
-/

namespace Reckon

variable {σ : Type}

/-! ## Open steps -/

namespace Simplifier

/-- What is known of the name cannot be written down. -/
def Keeps (m : Simplifier σ) (name : String) : Prop :=
  ∀ l : Literal, m.env.resolve? m.known name = some (.ofLiteral l) → l.isWritable m.options = false

/-- What is known does not determine what comes of the step: it is a call, or nothing is known of the name that it
refers to. -/
def isOpen (m : Simplifier σ) : Instruction → Bool
  | .call _ => true
  | .load name => (m.env.resolve? m.known name).isNone
  | _ => false

/-- The open steps of a program, in suspended programs too. -/
def openSteps (m : Simplifier σ) (p : Program) : List Instruction :=
  (Program.nested p).filter m.isOpen

/-- What may be left of a program. -/
inductive Reduces (m : Simplifier σ) : Program → Program → Prop
  /-- Nothing is left of nothing. -/
  | nil : Reduces m [] []
  /-- A step stays, but no name does of which something is known that can be written down. -/
  | keep {p q : Program} {i : Instruction} (before : Reduces m p q) (names : ∀ n ∈ i.names, m.Keeps n) :
    Reduces m (p ++ [i]) (q ++ [i])
  /-- A step suspends what is left of a program. -/
  | suspend {p q body body' : Program} (before : Reduces m p q) (inside : Reduces m body body') :
    Reduces m (p ++ [.suspend body]) (q ++ [.suspend body'])
  /-- A literal takes the place of a step and of what is left of steps in front of it. -/
  | fold {p q r : Program} {i : Instruction} (before : Reduces m p (q ++ r)) (closed : m.openSteps (r ++ [i]) = [])
    (l : Literal) : Reduces m (p ++ [i]) (q ++ [.ofLiteral l])

section

variable {m : Simplifier σ}

theorem openSteps_append (p q : Program) : m.openSteps (p ++ q) = m.openSteps p ++ m.openSteps q := by
  rw [openSteps, Program.nested_append, List.filter_append]
  rfl

theorem openSteps_ofLiteral (l : Literal) : m.openSteps [.ofLiteral l] = [] := by
  cases l <;> rfl

theorem openSteps_suspend (body : Program) : m.openSteps [.suspend body] = m.openSteps body := by
  simp [openSteps, Program.nested, Instruction.nested, isOpen]

end

end Simplifier

theorem Program.names_ofLiteral (l : Literal) : Program.names [.ofLiteral l] = [] := by
  cases l <;> rfl

namespace Simplifier.Reduces

variable {m : Simplifier σ} {p q : Program}

/-- The open steps of a program stay, in their order. -/
theorem openSteps_eq (h : m.Reduces p q) : m.openSteps q = m.openSteps p := by
  induction h with
  | nil => rfl
  | keep _ _ ih => rw [openSteps_append, openSteps_append, ih]
  | suspend _ _ ih ih' => rw [openSteps_append, openSteps_append, ih, openSteps_suspend, openSteps_suspend, ih']
  | fold _ closed l ih =>
    rw [openSteps_append] at closed ih
    obtain ⟨hr, hi⟩ := List.append_eq_nil_iff.1 closed
    rw [openSteps_append, openSteps_append, openSteps_ofLiteral, hi, ← ih, hr, List.append_nil,
      List.append_nil]

/-- What is known of the names that are left cannot be written down. -/
theorem keeps (h : m.Reduces p q) : ∀ n ∈ Program.names q, m.Keeps n := by
  induction h with
  | nil => exact nofun
  | keep _ names ih =>
    rw [Program.names_append, List.forall_mem_append]
    refine ⟨ih, ?_⟩
    rwa [Program.names, Program.names, List.append_nil]
  | suspend _ _ ih ih' =>
    rw [Program.names_append, List.forall_mem_append]
    refine ⟨ih, ?_⟩
    rwa [Program.names, Program.names, List.append_nil]
  | fold _ _ l ih =>
    rw [Program.names_append, List.forall_mem_append] at ih
    rw [Program.names_append, Program.names_ofLiteral, List.append_nil]
    exact ih.1

/-- The names that are left are names of the program, in their order. -/
theorem names_sublist (h : m.Reduces p q) : (Program.names q).Sublist (Program.names p) := by
  induction h with
  | nil => exact .refl _
  | keep _ _ ih =>
    rw [Program.names_append, Program.names_append]
    exact ih.append (.refl _)
  | suspend _ _ ih ih' =>
    rw [Program.names_append, Program.names_append]
    refine ih.append ?_
    rwa [Program.names, Program.names, Program.names, Program.names, List.append_nil, List.append_nil]
  | fold _ _ l ih =>
    rw [Program.names_append] at ih
    rw [Program.names_append, Program.names_append, Program.names_ofLiteral, List.append_nil]
    exact (List.sublist_append_left _ _).trans (ih.trans (List.sublist_append_left _ _))

end Simplifier.Reduces

/-! ## Operands -/

/-- An operand has no open steps if it has a value. -/
def Operand.IsClosed (m : Simplifier σ) (x : Operand) : Prop :=
  x.value.isSome = true → m.openSteps x.steps = []

/-- The operand is made of steps and one more step: they stay, or a literal takes their place. -/
structure Operand.Replaces (m : Simplifier σ) (steps : Program) (i : Instruction) (x : Operand) : Prop where
  stays : x.steps = steps ++ [i] ∧ (∀ n ∈ i.names, m.Keeps n) ∨
    m.openSteps (steps ++ [i]) = [] ∧ ∃ l : Literal, x.steps = [.ofLiteral l]
  closed : x.IsClosed m

/-- The operands of a stack are what is left of a program, and those with values have no open steps. -/
structure Simplifier.Simplified (m : Simplifier σ) (p : Program) (stack : List Operand) : Prop where
  reduces : m.Reduces p (Operand.allSteps stack.reverse)
  closed : ∀ x ∈ stack, x.IsClosed m

section

variable {m : Simplifier σ} {p steps : Program} {i : Instruction} {stack operands : List Operand} {x : Operand}

theorem Operand.openSteps_allSteps (hclosed : ∀ x ∈ operands, x.IsClosed m) {vs : List Value}
    (hvs : operands.mapM Operand.value = some vs) : m.openSteps (Operand.allSteps operands) = [] := by
  induction operands generalizing vs with
  | nil => rfl
  | cons x operands ih =>
    rw [List.mapM_cons] at hvs
    obtain ⟨v, hv, hvs⟩ := Option.bind_eq_some_iff.1 hvs
    obtain ⟨ws, hws, -⟩ := Option.bind_eq_some_iff.1 hvs
    obtain ⟨hx, hxs⟩ := List.forall_mem_cons.1 hclosed
    rw [Operand.allSteps_cons, Simplifier.openSteps_append, hx (by rw [hv]; rfl), ih hxs hws]
    rfl

theorem Operand.replaces_unknown (hi : ∀ n ∈ i.names, m.Keeps n) :
    (Operand.unknown (steps ++ [i])).Replaces m steps i :=
  ⟨.inl ⟨rfl, hi⟩, nofun⟩

theorem Operand.replaces_known {v : Value} (hopen : m.openSteps (steps ++ [i]) = [])
    (hi : ∀ n ∈ i.names, m.env.resolve? m.known n = some v) :
    (Operand.known m.options v (steps ++ [i])).Replaces m steps i := by
  rw [Operand.known]
  split
  · next l _ => exact ⟨.inr ⟨hopen, l, rfl⟩, fun _ => Simplifier.openSteps_ofLiteral l⟩
  · next hliteral =>
    refine ⟨.inl ⟨rfl, fun n hn l hl => ?_⟩, fun _ => hopen⟩
    obtain rfl : v = .ofLiteral l := Option.some.inj ((hi n hn).symm.trans hl)
    simpa using hliteral

/-- An operation is folded only if its operands have values. -/
theorem Simplifier.fold_replaces (hclosed : ∀ x ∈ operands, x.IsClosed m) (hopen : m.openSteps [i] = [])
    (hi : i.names = []) : Always (Operand.Replaces m (Operand.allSteps operands) i) (m.fold i operands) := by
  have hnames : ∀ n ∈ i.names, m.Keeps n := by
    rw [hi]
    exact List.forall_mem_nil _
  rw [Simplifier.fold]
  cases hoperation : (operands.mapM Operand.value).bind (m.operation? i) with
  | none => exact .pure (Operand.replaces_unknown hnames)
  | some result =>
    obtain ⟨vs, hvs, -⟩ := Option.bind_eq_some_iff.1 hoperation
    -- all operands have values, so a literal that takes their place takes the place of no open step
    have hsteps : m.openSteps (Operand.allSteps operands ++ [i]) = [] := by
      rw [Simplifier.openSteps_append, Operand.openSteps_allSteps hclosed hvs, hopen]
      rfl
    refine Always.bind (P := fun _ => True) (fun _ => trivial) fun r _ => ?_
    cases r with
    | ok v =>
      refine .pure (Operand.replaces_known hsteps ?_)
      rw [hi]
      exact List.forall_mem_nil _
    | error e => exact .pure (Operand.replaces_unknown hnames)

namespace Simplifier.Simplified

theorem nil : m.Simplified [] [] :=
  ⟨.nil, fun _ hx => nomatch hx⟩

/-- An operand takes the place of the topmost ones and a step. -/
theorem replace (h : m.Simplified p stack) {n : Nat}
    (hx : x.Replaces m (Operand.allSteps (stack.take n).reverse) i) : m.Simplified (p ++ [i]) (x :: stack.drop n) where
  reduces := by
    have hreduces := h.reduces
    rw [Operand.allSteps_reverse stack n] at hreduces
    rw [Operand.allSteps_push]
    rcases hx.stays with ⟨hsteps, hnames⟩ | ⟨hopen, l, hsteps⟩
    · rw [hsteps, ← List.append_assoc]
      exact .keep hreduces hnames
    · rw [hsteps]
      exact .fold hreduces hopen l
  closed := List.forall_mem_cons.2 ⟨hx.closed, fun y hy => h.closed y (List.mem_of_mem_drop hy)⟩

/-- An operand that is made of one step is put on top. -/
theorem push (h : m.Simplified p stack) (hx : x.Replaces m [] i) : m.Simplified (p ++ [i]) (x :: stack) :=
  h.replace (n := 0) hx

theorem foldTop (h : m.Simplified p stack) (hopen : m.openSteps [i] = []) (hi : i.names = []) (n : Nat) :
    Always (m.Simplified (p ++ [i])) (m.foldTop i n stack) := by
  have htop : ∀ x ∈ (stack.take n).reverse, x.IsClosed m :=
    fun x hx => h.closed x (List.mem_of_mem_take (List.mem_reverse.1 hx))
  exact (Simplifier.fold_replaces htop hopen hi).bind fun _ hx => .pure (h.replace hx)

/-- What is left of a suspended program is suspended. -/
theorem suspend (h : m.Simplified p stack) {body : Program} (hbody : m.Simplified body operands) :
    m.Simplified (p ++ [.suspend body]) (.suspended operands :: stack) where
  reduces := by
    rw [Operand.allSteps_push]
    exact .suspend h.reduces hbody.reduces
  closed := by
    refine List.forall_mem_cons.2 ⟨fun hvalue => ?_, h.closed⟩
    obtain ⟨v, hv⟩ := Option.isSome_iff_exists.1 hvalue
    obtain ⟨l, hl, -⟩ := Option.map_eq_some_iff.1 hv
    rw [Operand.suspended, Program.literal?_eq_some_iff.1 hl, Simplifier.openSteps_suspend,
      Simplifier.openSteps_ofLiteral]

end Simplifier.Simplified

/-! ## Steps -/

mutual

/-- One more step leaves what may be left of the program with that step. -/
theorem Simplifier.step_simplified : (i : Instruction) → ∀ {p : Program} {stack : List Operand},
    m.Simplified p stack → Always (m.Simplified (p ++ [i])) (m.step stack i)
  | .number v, _, _, h | .string v, _, _, h => by
    rw [Simplifier.step]
    exact .pure (h.push (Operand.replaces_known rfl nofun))
  | .load name, _, _, h => by
    rw [Simplifier.step]
    cases hv : m.env.resolve? m.known name with
    | none =>
      refine .pure (h.push (Operand.replaces_unknown fun n hn l hl => ?_))
      obtain rfl : n = name := List.mem_singleton.1 hn
      cases hv.symm.trans hl
    | some v =>
      have hopen : m.openSteps [.load name] = [] := by
        simp [Simplifier.openSteps, Program.nested, Instruction.nested, Simplifier.isOpen, hv]
      refine .pure (h.push (Operand.replaces_known hopen fun n hn => ?_))
      obtain rfl : n = name := List.mem_singleton.1 hn
      exact hv
  | .unary op, _, _, h => by
    rw [Simplifier.step]
    exact h.foldTop (i := .unary op) rfl rfl 1
  | .binary op, _, _, h => by
    rw [Simplifier.step]
    exact h.foldTop (i := .binary op) rfl rfl 2
  | .ternary op, _, _, h => by
    rw [Simplifier.step]
    exact h.foldTop (i := .ternary op) rfl rfl 3
  | .member field, _, _, h => by
    rw [Simplifier.step]
    exact h.foldTop (i := .member field) rfl rfl 1
  | .call argCount, _, _, h => by
    rw [Simplifier.step]
    exact .pure (h.replace (Operand.replaces_unknown nofun))
  | .suspend body, _, _, h => by
    rw [Simplifier.step]
    have hbody : Always (m.Simplified body) (m.run [] body) := Simplifier.run_simplified body .nil
    exact hbody.bind fun _ hoperands => .pure (h.suspend hoperands)

/-- More steps leave what may be left of the program with those steps. -/
theorem Simplifier.run_simplified : (p' : List Instruction) → ∀ {p : Program} {stack : List Operand},
    m.Simplified p stack → Always (m.Simplified (p ++ p')) (m.run stack p')
  | [], _, _, h => by
    rw [Simplifier.run, List.append_nil]
    exact .pure h
  | i :: rest, p, _, h => by
    rw [Simplifier.run, List.append_cons]
    exact (Simplifier.step_simplified i h).bind fun _ ht => Simplifier.run_simplified rest ht

end

end

/-! ## Programs -/

section

variable {m : Simplifier σ}

/-- What simplification leaves may be left of the program. -/
theorem Program.simplify_reduces (p : Program) : Always (m.Reduces p) (Program.simplify m p) := by
  have hrun : Always (m.Simplified p) (m.run [] p) := Simplifier.run_simplified p .nil
  exact hrun.bind fun _ h => .pure h.reduces

/-- What is known of the names of a simplified program cannot be written down. -/
theorem Program.keeps_of_mem_simplify (p : Program) :
    Always (fun q => ∀ n ∈ Program.names q, m.Keeps n) (Program.simplify m p) :=
  (Program.simplify_reduces p).imp fun _ h => h.keeps

end

/-- The number of arguments, if the step is a call. -/
def Instruction.argCount? : Instruction → Option Nat
  | .call argCount => some argCount
  | _ => none

/-- The numbers of arguments of the calls of a program, from left to right, in suspended programs too. -/
def Program.callCounts (p : Program) : List Nat :=
  (Program.nested p).filterMap Instruction.argCount?

/-- Calls are open steps. -/
theorem Simplifier.callCounts_eq (m : Simplifier σ) (p : Program) :
    Program.callCounts p = (m.openSteps p).filterMap Instruction.argCount? := by
  rw [Program.callCounts, Simplifier.openSteps, List.filterMap_filter]
  refine List.filterMap_congr fun i _ => ?_
  cases i <;> simp [Instruction.argCount?, Simplifier.isOpen]

/-- Simplification leaves every call, in the order of the calls, whether or not evaluation makes it. Numbers of arguments
have no limit (`Simplifier.operandCount`): with 64 bits a call of the greatest number is not left but fails, as
`Reckon.Sizes` treats it. -/
theorem Program.callCounts_simplify (m : Simplifier σ) (p : Program) (s : σ) :
    Program.callCounts ((p.simplify m).run s).1 = Program.callCounts p := by
  have hreduces : m.Reduces p ((p.simplify m).run s).1 := Program.simplify_reduces p s
  rw [m.callCounts_eq, m.callCounts_eq, hreduces.openSteps_eq]

/-- Of the symbols of a program simplification leaves all those of which nothing is known, and none of which something
is known that can be written down; and it leaves no others. Here too numbers of arguments have no limit, and those of
64 bits are treated in `Reckon.Sizes`. -/
theorem Program.symbols_simplify (m : Simplifier σ) (p : Program) (s : σ) :
    (∀ name ∈ p.symbols false, m.env.resolve? m.known name = none →
      name ∈ Program.symbols false ((p.simplify m).run s).1) ∧
    (∀ name v l, m.env.resolve? m.known name = some v → v.literal? = some l → l.isWritable m.options = true →
      name ∉ Program.symbols false ((p.simplify m).run s).1) ∧
    ∀ name ∈ Program.symbols false ((p.simplify m).run s).1, name ∈ p.symbols false := by
  have hreduces : m.Reduces p ((p.simplify m).run s).1 := Program.simplify_reduces p s
  simp only [Program.mem_symbols_iff]
  refine ⟨fun name hname hnone => ?_, fun name v l hv hl hwritable hname => ?_, fun name hname => ?_⟩
  · have hopen : .load name ∈ m.openSteps p :=
      List.mem_filter.2 ⟨(Program.mem_names_iff p).1 hname, by rw [Simplifier.isOpen, hnone]; rfl⟩
    rw [← hreduces.openSteps_eq] at hopen
    exact (Program.mem_names_iff _).2 (List.mem_filter.1 hopen).1
  · have hkeeps : l.isWritable m.options = false :=
      hreduces.keeps name hname l (by rw [hv, Value.ofLiteral_of_literal? hl])
    rw [hkeeps] at hwritable
    cases hwritable
  · exact hreduces.names_sublist.subset hname

/-- In `x * z + y.a` the number `x` is folded, and nothing is known of `z`. -/
theorem Program.symbols_simplify_sum :
    let host : Host Unit := .withBuiltins (pure 0) fun _ _ => pure .void
    let known : Variables := fun name =>
      if name = "x" then some (.number 2) else if name = "y" then some (.record []) else none
    let m : Simplifier Unit := ⟨host, .standard, .standard, known⟩
    let p : Program := [.load "x", .load "z", .binary "*", .load "y", .member "a", .binary "+"]
    p.symbols false = ["x", "z", "y"] ∧
      m.env.resolve? known "z" = none ∧ "z" ∈ Program.symbols false ((p.simplify m).run ()).1 ∧
      m.env.resolve? known "x" = some (.number 2) ∧ "x" ∉ Program.symbols false ((p.simplify m).run ()).1 ∧
      ∀ name ∈ Program.symbols false ((p.simplify m).run ()).1, name ∈ ["x", "z", "y"] := by
  intro host known m p
  have hsymbols : p.symbols false = ["x", "z", "y"] := by decide
  have hz : Environment.standard.resolve? known "z" = none := by
    have hconstant : Table.lookup "z" Environment.standard.constants = none := by decide +kernel
    rw [Environment.resolve?_eq_or (by decide +kernel) (by decide +kernel), hconstant]
    rfl
  have hx : Environment.standard.resolve? known "x" = some (.number 2) := by
    rw [Environment.resolve?_eq_or (by decide +kernel) (by decide +kernel)]
    rfl
  obtain ⟨hstay, hgo, hno⟩ := Program.symbols_simplify m p ()
  have hzmem : "z" ∈ p.symbols false := by rw [hsymbols]; decide
  exact ⟨hsymbols, hz, hstay "z" hzmem hz, hx, hgo "x" (.number 2) (.number 2) hx rfl (by decide +kernel),
    hsymbols ▸ hno⟩

end Reckon
