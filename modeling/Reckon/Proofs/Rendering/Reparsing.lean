import Reckon.Grammar.Standard
import Reckon.Proofs.Parsing.Completeness
import Reckon.Proofs.Rendering.Expressions
import Reckon.Proofs.Rendering.Spelling

/-!
# Rendered programs are read back

What is written for an expression is derived as the category of its priority (`Written`, `Expr.written`), one lemma for
each form of expression: a looser category derives it as well (`Written.loosen`), and parentheses make it an atom
(`Written.parenthesize`). So the parser reads an expression that can be written (`Expr.parse_rendered`). The tree of a
code can be written (`Derivation.printable`), and what is written for the program of a code, and for a program that
takes the place of a variable in it, is read as these programs (`Program.parse_render_program`,
`Program.parse_render_substitute`).
-/

namespace Reckon

variable {g : Grammar} {o : Options}

/-! ## Texts and categories -/

/-- What a text of a priority is derived as. -/
def Priority.category : Priority → Category
  | conditional => .expression
  | disjunction => .level .disjunction
  | conjunction => .level .conjunction
  | comparison => .level .comparison
  | sum => .level .sum
  | product => .level .product
  | sign => .factor
  | power => .power
  | factorial => .postfixed
  | call => .callee
  | member => .fields
  | atom => .atom

/-- A text has these tokens in front of everything that may follow. -/
def Spells (g : Grammar) (o : Options) (dotted : Bool) (text : List Char) (ks : List TokenKind) : Prop :=
  ∀ rest later, Follows dotted rest → Scans g o rest later → Scans g o (text ++ rest) (ks ++ later)

/-- A text spells the tokens of a derivation of an expression. -/
def Written (g : Grammar) (o : Options) (dotted : Bool) (c : Category) (text : List Char) (e : Expr) : Prop :=
  ∃ d : Derivation c, d.Proper g o ∧ d.expr = e ∧ Spells g o dotted text d.tokens

/-- An operand without any operator, as a factor. -/
def Derivation.ofAtom (x : Derivation .atom) : Derivation .factor :=
  .unsigned (.base (.applied (.called (.uncalled (.whole x)))))

/-- A sum alone, as an expression. -/
def Derivation.ofSum (x : Derivation (.level .sum)) : Derivation .expression :=
  .simple (.operand (l := .disjunction) (.operand (l := .conjunction) (.operand (l := .comparison) x)))

namespace Written

variable {dotted : Bool} {text : List Char} {e : Expr}

/-- A unit rule derives the same text. -/
theorem unit {c c' : Category} (rule : Derivation c → Derivation c')
    (hrule : ∀ d, (rule d).tokens = d.tokens ∧ (rule d).expr = d.expr ∧ (d.Proper g o → (rule d).Proper g o))
    (h : Written g o dotted c text e) : Written g o dotted c' text e := by
  obtain ⟨d, hproper, hexpr, hspells⟩ := h
  obtain ⟨htokens, hexpr', hproper'⟩ := hrule d
  exact ⟨rule d, hproper' hproper, hexpr'.trans hexpr, htokens ▸ hspells⟩

/-- The next looser priority derives the same text. -/
theorem loosen_one {p : Priority} (h : Written g o dotted p.category text e) : ∃ q : Priority,
    (q.rank + 1 = p.rank ∨ p.rank = 0 ∧ q = p) ∧ Written g o dotted q.category text e := by
  cases p with
  | conditional => exact ⟨.conditional, .inr ⟨rfl, rfl⟩, h⟩
  | disjunction => exact ⟨.conditional, .inl rfl, h.unit .simple fun _ => ⟨rfl, rfl, id⟩⟩
  | conjunction => exact ⟨.disjunction, .inl rfl, h.unit (.operand (l := .disjunction)) fun _ => ⟨rfl, rfl, id⟩⟩
  | comparison => exact ⟨.conjunction, .inl rfl, h.unit (.operand (l := .conjunction)) fun _ => ⟨rfl, rfl, id⟩⟩
  | sum => exact ⟨.comparison, .inl rfl, h.unit (.operand (l := .comparison)) fun _ => ⟨rfl, rfl, id⟩⟩
  | product => exact ⟨.sum, .inl rfl, h.unit (.operand (l := .sum)) fun _ => ⟨rfl, rfl, id⟩⟩
  | sign => exact ⟨.product, .inl rfl, h.unit (.operand (l := .product)) fun _ => ⟨rfl, rfl, id⟩⟩
  | power => exact ⟨.sign, .inl rfl, h.unit .unsigned fun _ => ⟨rfl, rfl, id⟩⟩
  | factorial => exact ⟨.power, .inl rfl, h.unit .base fun _ => ⟨rfl, rfl, id⟩⟩
  | call =>
    have happlication := h.unit Derivation.called fun _ => ⟨rfl, rfl, id⟩
    exact ⟨.factorial, .inl rfl, happlication.unit .applied fun _ => ⟨rfl, rfl, id⟩⟩
  | member => exact ⟨.call, .inl rfl, h.unit .uncalled fun _ => ⟨rfl, rfl, id⟩⟩
  | atom => exact ⟨.member, .inl rfl, h.unit .whole fun _ => ⟨rfl, rfl, id⟩⟩

/-- Every looser priority derives the same text. -/
theorem loosen {p q : Priority} (hq : q.rank ≤ p.rank) (h : Written g o dotted p.category text e) :
    Written g o dotted q.category text e := by
  have hinj : ∀ p q : Priority, p.rank = q.rank → p = q := by
    intro p q
    cases p <;> cases q <;> decide
  generalize hn : p.rank = n at hq
  induction n generalizing p with
  | zero =>
    obtain rfl := hinj p q (by omega)
    exact h
  | succ n ih =>
    by_cases heq : q.rank = n + 1
    · obtain rfl := hinj p q (by omega)
      exact h
    · obtain ⟨p', hp' | ⟨hzero, _⟩, h'⟩ := h.loosen_one
      · exact ih h' (by omega) (by omega)
      · omega

/-- Parentheses make an atom of any text, whatever follows. -/
theorem parenthesize (h : Written g o false .expression text e) (dotted : Bool) :
    Written g o dotted .atom (Rendered.parenthesize text) e := by
  obtain ⟨d, hproper, hexpr, hspells⟩ := h
  refine ⟨.inner (.group d), hproper, hexpr, fun rest later _ hlater => ?_⟩
  have hgroup := hspells _ _ (.of_mem (by decide)) (Begins.rightParen.scans hlater)
  simpa [Rendered.parenthesize, Derivation.tokens] using Begins.leftParen.scans hgroup

/-- A text is put into parentheses if it is too loose. -/
theorem atLeast {r : Rendered} (h : Written g o false r.priority.category r.text e) (p : Priority) :
    Written g o false p.category (r.atLeast p) e := by
  have hatom : p.rank ≤ Priority.atom.rank := by cases p <;> decide
  rw [Rendered.atLeast]
  split
  · exact loosen (p := .atom) hatom (parenthesize (h.loosen (q := .conditional) (Nat.zero_le _)) false)
  · exact h.loosen (by omega)

/-! ## Forms of expressions -/

variable {x y z : Expr} {tx ty tz : List Char}

theorem name (hg : g.IsDotless) {n : String} (hn : IsVariable g o n) (hconstant : IsConstant g n → dotted = true) :
    Written g o dotted .atom n.toList (.name n) :=
  ⟨.name n, trivial, rfl, fun _ _ hrest => (Begins.name hg hn hconstant hrest).scans⟩

theorem string (s : String) : Written g o dotted .atom (Text.Quoted.encode s.toList) (.string s) :=
  ⟨.string s, trivial, rfl, fun _ _ _ => (Begins.string s).scans⟩

theorem number {v : Float} (hv : Unsigned v) : Written g o false .atom (Rendered.ofNumber v).text (.number v) :=
  ⟨.number v, trivial, rfl, fun _ _ hrest => (Begins.number hv hrest nofun).scans⟩

theorem signed {op : String} (hop : IsOperator g o op) (hunary : g.isUnary op = true) (hsign : op = "-" ∨ op = "+")
    (h : Written g o false .factor tx x) : Written g o false .factor (op.toList ++ tx) (.unary op x) := by
  obtain ⟨d, hproper, rfl, hspells⟩ := h
  refine ⟨.signed op d, ⟨hunary, ?_, hproper⟩, rfl, fun rest later hrest hlater => ?_⟩
  · exact hsign.imp_right .inl
  · rw [List.append_assoc]
    exact (Begins.sign hsign hop.enabled).scans (hspells rest later hrest hlater)

theorem operation {op : String} (hop : IsOperator g o op) (hunary : g.isUnary op = true) (hminus : op ≠ "-")
    (hplus : op ≠ "+") (h : Written g o false .expression tx x) :
    Written g o false .postfixed (op.toList ++ Rendered.parenthesize tx) (.unary op x) := by
  obtain ⟨d, hproper, rfl, hspells⟩ := h
  refine ⟨.applied (.operation op (.group d)), ⟨hunary, hminus, hplus, hproper⟩, rfl, fun rest later _ hlater => ?_⟩
  have hgroup := Begins.leftParen.scans (hspells _ _ (.of_mem (by decide)) (Begins.rightParen.scans hlater))
  have hscans := (Begins.operator hop (.of_mem (by decide))).scans hgroup
  simpa [Rendered.parenthesize, Derivation.tokens] using hscans

theorem factorial (hop : IsOperator g o "!") (h : Written g o false .postfixed tx x) :
    Written g o false .postfixed (tx ++ ['!']) (.unary "!" x) := by
  obtain ⟨d, hproper, rfl, hspells⟩ := h
  refine ⟨.factorial d, hproper, rfl, fun rest later hrest hlater => ?_⟩
  have hbang : Scans g o ('!' :: rest) (.operator "!" :: later) := (Begins.operator hop hrest).scans hlater
  have hscans := hspells _ _ (.of_mem (by decide)) hbang
  simpa [Derivation.tokens] using hscans

/-- The texts of two operands with an operator and blanks between them. -/
theorem spells_binary {op : String} {kx ky : List TokenKind} (hop : IsOperator g o op)
    (hx : Spells g o false tx kx) (hy : Spells g o false ty ky) :
    Spells g o false (tx ++ ' ' :: op.toList ++ ' ' :: ty) (kx ++ .operator op :: ky) := by
  intro rest later hrest hlater
  have hright := (hy rest later hrest hlater).blank
  have hoperator := (Begins.operator hop (.of_mem (by decide))).scans hright
  have hscans := hx _ _ (.of_mem (by decide)) hoperator.blank
  simpa using hscans

theorem binary {l : Level} {op : String} (hop : IsOperator g o op) (hl : op ∈ l.operators)
    (hx : Written g o false (.level l) tx x) (hy : Written g o false l.operand ty y) :
    Written g o false (.level l) (tx ++ ' ' :: op.toList ++ ' ' :: ty) (.binary op x y) := by
  obtain ⟨dx, hxproper, rfl, hxspells⟩ := hx
  obtain ⟨dy, hyproper, rfl, hyspells⟩ := hy
  exact ⟨.binary dx op dy, ⟨hxproper, hl, hyproper⟩, rfl, spells_binary hop hxspells hyspells⟩

theorem power (hop : IsOperator g o "^") (hx : Written g o false .postfixed tx x)
    (hy : Written g o false .factor ty y) :
    Written g o false .power (tx ++ ' ' :: "^".toList ++ ' ' :: ty) (.binary "^" x y) := by
  obtain ⟨dx, hxproper, rfl, hxspells⟩ := hx
  obtain ⟨dy, hyproper, rfl, hyspells⟩ := hy
  exact ⟨.power dx dy, ⟨hxproper, hyproper⟩, rfl, spells_binary hop hxspells hyspells⟩

theorem choice (hquestion : IsOperator g o "?") (hcolon : IsOperator g o ":")
    (hx : Written g o false (.level .disjunction) tx x) (hy : Written g o false .expression ty y)
    (hz : Written g o false .expression tz z) :
    Written g o false .expression (tx ++ [' ', '?', ' '] ++ ty ++ [' ', ':', ' '] ++ tz) (.choice x y z) := by
  obtain ⟨dx, hxproper, rfl, hxspells⟩ := hx
  obtain ⟨dy, hyproper, rfl, hyspells⟩ := hy
  obtain ⟨dz, hzproper, rfl, hzspells⟩ := hz
  refine ⟨.choice dx dy dz, ⟨hxproper, hyproper, hzproper⟩, rfl, fun rest later hrest hlater => ?_⟩
  have hscans := spells_binary hquestion hxspells (spells_binary hcolon hyspells hzspells) rest later hrest hlater
  simpa [Derivation.tokens] using hscans

/-- Expressions with commas between them, as the arguments of a call. -/
theorem exists_arguments {xs : List Rendered} {es : List Expr} (hne : es ≠ [])
    (h : List.Forall₂ (fun r e => Written g o false .expression r.text e) xs es) :
    ∃ args : Arguments, args.Proper g o ∧ args.exprs = es ∧ Spells g o false (Rendered.list xs) args.tokens := by
  induction h with
  | nil => exact absurd rfl hne
  | @cons r e xs es hr h ih =>
    obtain ⟨d, hproper, rfl, hspells⟩ := hr
    cases h with
    | nil =>
      refine ⟨.last d, hproper, rfl, ?_⟩
      simpa [Rendered.list, Arguments.tokens] using hspells
    | @cons r' e' xs es hr' h =>
      obtain ⟨args, hargs, hexprs, hlist⟩ := ih (List.cons_ne_nil e' es)
      refine ⟨.more d args, ⟨hproper, hargs⟩, congrArg (d.expr :: ·) hexprs, fun rest later hrest hlater => ?_⟩
      have hcomma := Begins.comma.scans (hlist rest later hrest hlater).blank
      have hscans := hspells _ _ (.of_mem (by decide)) hcomma
      simpa [Rendered.list, Arguments.tokens, List.intercalate_cons_cons] using hscans

theorem call {f : Expr} {tf : List Char} {xs : List Rendered} {es : List Expr}
    (hf : Written g o false .callee tf f)
    (h : List.Forall₂ (fun r e => Written g o false .expression r.text e) xs es) :
    Written g o false .callee (tf ++ Rendered.parenthesize (Rendered.list xs)) (.call f es) := by
  obtain ⟨d, hproper, rfl, hspells⟩ := hf
  cases hes : es with
  | nil =>
    subst hes
    cases h
    refine ⟨.invocation d, hproper, rfl, fun rest later _ hlater => ?_⟩
    have hparens := Begins.leftParen.scans (Begins.rightParen.scans hlater)
    have hscans := hspells _ _ (.of_mem (by decide)) hparens
    simpa [Rendered.parenthesize, Rendered.list, Derivation.tokens] using hscans
  | cons e es' =>
    obtain ⟨args, hargs, hexprs, hlist⟩ := exists_arguments (by rw [hes]; nofun) h
    refine ⟨.call d args, ⟨hproper, hargs⟩, by rw [Derivation.expr, hexprs, hes], fun rest later _ hlater => ?_⟩
    have hgroup := Begins.leftParen.scans (hlist _ _ (.of_mem (by decide)) (Begins.rightParen.scans hlater))
    have hscans := hspells _ _ (.of_mem (by decide)) hgroup
    simpa [Rendered.parenthesize, Derivation.tokens] using hscans

/-- The token of a field, and what is behind it. -/
theorem exists_fieldToken (hg : g.IsDotless) {field : String} (h : Expr.IsField g o dotted field) :
    ∃ f : FieldToken, f.text = field ∧ f.isWord = true ∧ IsName field.toList ∧
      Spells g o dotted field.toList [f.kind] := by
  rcases h with ⟨hvariable, hconstant⟩ | ⟨hword, hoperator, henabled⟩
  · exact ⟨.name field, rfl, rfl, hvariable.name, fun _ _ hrest => (Begins.name hg hvariable hconstant hrest).scans⟩
  · refine ⟨.operator field, rfl, ?_, .inl hword, fun _ _ hrest =>
      (Begins.wordOperator hword hoperator henabled hrest.not_isWordChar_false).scans⟩
    obtain ⟨c, hc, halphabetic⟩ := hword.1
    rw [FieldToken.isWord, Option.mem_def.1 hc]
    exact halphabetic

theorem member (hg : g.IsDotless) (haccess : o.memberAccess = true) (hdot : o.enables "." = true) {field : String}
    (hfield : Expr.IsField g o dotted field) (hx : Written g o true .fields tx x) :
    Written g o dotted .fields (tx ++ '.' :: field.toList) (.member x field) := by
  obtain ⟨d, hproper, rfl, hspells⟩ := hx
  obtain ⟨f, rfl, hword, hname, hfieldSpells⟩ := exists_fieldToken hg hfield
  refine ⟨.member d f, ⟨hproper, haccess, hword⟩, rfl, fun rest later hrest hlater => ?_⟩
  have hfirst := (hname.startsPlain.append rest).isDigit_eq_false
  have htail := (Begins.dot hdot hfirst).scans (hfieldSpells rest later hrest hlater)
  have hscans := hspells _ _ (.dot _) htail
  simpa [Derivation.tokens] using hscans

/-- NaN is a quotient of zeros in parentheses. -/
theorem nan (hop : IsOperator g o "/") :
    Written g o dotted .atom "(0/0)".toList (.binary "/" (.number 0) (.number 0)) := by
  let zero : Derivation .factor := .ofAtom (.number 0)
  let quotient : Derivation (.level .product) := .binary (l := .product) (.operand (l := .product) zero) "/" zero
  have hproper : quotient.Proper g o := ⟨trivial, by decide, trivial⟩
  refine ⟨.inner (.group (.ofSum (.operand (l := .sum) quotient))), hproper, rfl, ?_⟩
  intro rest later _ hlater
  have hvalue : (Numeral.decimal ['0']).toFloat false = 0 := by decide +kernel
  have hright : Scans g o ('0' :: ')' :: rest) (.number 0 :: .rightParen :: later) :=
    (Begins.of_numeral (by decide) rfl rfl hvalue).scans (Begins.rightParen.scans hlater)
  have hsymbol : "/" ∈ symbols := by decide
  have hslash : Scans g o ('/' :: '0' :: ')' :: rest) (.operator "/" :: .number 0 :: .rightParen :: later) :=
    (Begins.of_symbol hsymbol hop.enabled rfl (fun _ => by simp) (fun h => absurd h (by decide))).scans hright
  have hleft : Scans g o ('0' :: '/' :: '0' :: ')' :: rest)
      (.number 0 :: .operator "/" :: .number 0 :: .rightParen :: later) :=
    (Begins.of_numeral (by decide) rfl rfl hvalue).scans hslash
  exact Begins.leftParen.scans hleft

end Written

/-! ## Expressions -/

/-- The priority of a level. -/
def Level.priority : Level → Priority
  | disjunction => .disjunction
  | conjunction => .conjunction
  | comparison => .comparison
  | sum => .sum
  | product => .product

/-- The least priority of the right operand of a level. -/
def Level.operandPriority : Level → Priority
  | disjunction => .conjunction
  | conjunction => .comparison
  | comparison => .sum
  | sum => .product
  | product => .sign

theorem Level.category_priority (l : Level) : l.priority.category = .level l := by
  cases l <;> rfl

theorem Level.category_operandPriority (l : Level) : l.operandPriority.category = l.operand := by
  cases l <;> rfl

/-- The priorities that an operator is written with are those of its level. -/
theorem Level.ofBinary_of_mem {l : Level} {op : String} (h : op ∈ l.operators) :
    Priority.ofBinary op = (l.priority, l.priority, l.operandPriority) := by
  cases l <;> simp only [Level.operators, List.mem_cons, List.not_mem_nil, or_false] at h <;>
    rcases h with rfl | rfl | rfl | rfl | rfl | rfl | rfl <;> decide

/-- A text that a dot may follow without parentheses. -/
def Rendered.Bare (r : Rendered) : Prop :=
  r.isNumeral = false ∧ Priority.member.rank ≤ r.priority.rank

theorem Rendered.not_bare_of_priority {r : Rendered} {p : Priority} (hr : r.priority = p)
    (hp : p.rank < Priority.member.rank) : ¬r.Bare := by
  rintro ⟨_, hrank⟩
  rw [hr] at hrank
  omega

/-- No dot follows a text that is not bare. -/
theorem eq_false_of_not_bare {r : Rendered} {dotted : Bool} (hr : ¬r.Bare) (h : dotted = true → r.Bare) :
    dotted = false := by
  cases dotted with
  | false => rfl
  | true => exact absurd (h rfl) hr

namespace Expr

/-- What can be written in front of a dot can be written in parentheses if it has to be. -/
theorem PrintableWith.of_not_bare {N : Float → Prop} {e : Expr} (h : e.PrintableWith N g o true)
    (hloose : ¬e.rendered.Bare) : e.PrintableWith N g o false := by
  cases e with
  | name n => exact absurd ⟨rfl, Nat.le_succ _⟩ hloose
  | member x field => exact absurd ⟨rfl, Nat.le_refl _⟩ hloose
  | _ => exact h

theorem Printable.of_not_bare {e : Expr} (h : e.Printable g o true) (hloose : ¬e.rendered.Bare) :
    e.Printable g o false :=
  e.printableWith_canSpell.1 ((e.printableWith_canSpell.2 h).of_not_bare hloose)

theorem written_number {dotted : Bool} {v : Float} (h : CanSpell g o v)
    (hdotted : dotted = true → (Rendered.ofNumber v).Bare) :
    Written g o dotted (Rendered.ofNumber v).priority.category (Rendered.ofNumber v).text (spellNumber v) := by
  cases hnan : v.isNaN with
  | true =>
    rw [CanSpell, if_pos hnan] at h
    rw [Rendered.ofNumber_nan hnan, spellNumber, if_pos hnan]
    exact .nan h
  | false =>
    cases hsign : isNegative v with
    | true =>
      rw [CanSpell, hnan, hsign] at h
      rw [Rendered.ofNumber_negative hnan hsign] at hdotted ⊢
      obtain rfl := eq_false_of_not_bare (Rendered.not_bare_of_priority (p := .sign) rfl (by decide)) hdotted
      have hnumber : Written g o false Priority.atom.category _ _ := .number (unsigned_absolute hnan)
      rw [spellNumber, hnan, hsign]
      exact .signed h.1 h.2 (.inl rfl) (hnumber.loosen (q := .sign) (by decide))
    | false =>
      have hv := unsigned_iff.2 ⟨hnan, hsign⟩
      rw [Rendered.ofNumber_unsigned hv] at hdotted ⊢
      obtain rfl := eq_false_of_not_bare (fun hbare => Bool.noConfusion hbare.1) hdotted
      rw [spellNumber_of_unsigned hv]
      exact .number hv

theorem written_unary {op : String} {x : Expr} (hop : IsOperator g o op) (hunary : op = "!" ∨ g.isUnary op = true)
    (hx : Written g o false x.rendered.priority.category x.rendered.text x.spelled) {dotted : Bool}
    (hdotted : dotted = true → (Rendered.unary op x.rendered).Bare) :
    Written g o dotted (Rendered.unary op x.rendered).priority.category (Rendered.unary op x.rendered).text
      (.unary op x.spelled) := by
  rw [Rendered.unary] at hdotted ⊢
  by_cases hsign : op = "-" ∨ op = "+"
  · rw [if_pos hsign] at hdotted ⊢
    obtain rfl := eq_false_of_not_bare (Rendered.not_bare_of_priority (p := .sign) rfl (by decide)) hdotted
    have hunary' : g.isUnary op = true := by
      rcases hunary with rfl | hunary
      · exact absurd hsign (by decide)
      · exact hunary
    exact .signed hop hunary' hsign (hx.atLeast .sign)
  · rw [if_neg hsign] at hdotted ⊢
    by_cases hbang : op = "!"
    · rw [if_pos hbang] at hdotted ⊢
      obtain rfl := eq_false_of_not_bare (Rendered.not_bare_of_priority (p := .factorial) rfl (by decide)) hdotted
      subst hbang
      exact .factorial hop (hx.atLeast .factorial)
    · rw [if_neg hbang] at hdotted ⊢
      obtain rfl := eq_false_of_not_bare (Rendered.not_bare_of_priority (p := .factorial) rfl (by decide)) hdotted
      obtain ⟨hminus, hplus⟩ := not_or.1 hsign
      exact .operation hop (hunary.resolve_left hbang) hminus hplus (hx.loosen (q := .conditional) (Nat.zero_le _))

theorem written_binary {op : String} {x y : Expr} (hop : IsOperator g o op)
    (hbinary : op = "^" ∨ ∃ l : Level, op ∈ l.operators)
    (hx : Written g o false x.rendered.priority.category x.rendered.text x.spelled)
    (hy : Written g o false y.rendered.priority.category y.rendered.text y.spelled) {dotted : Bool}
    (hdotted : dotted = true → (Rendered.binary op x.rendered y.rendered).Bare) :
    Written g o dotted (Rendered.binary op x.rendered y.rendered).priority.category
      (Rendered.binary op x.rendered y.rendered).text (.binary op x.spelled y.spelled) := by
  rcases hbinary with rfl | ⟨l, hl⟩
  · obtain rfl := eq_false_of_not_bare (Rendered.not_bare_of_priority (p := .power) rfl (by decide)) hdotted
    exact .power hop (hx.atLeast .factorial) (hy.atLeast .sign)
  · have hpriorities := Level.ofBinary_of_mem hl
    simp only [Rendered.binary, hpriorities] at hdotted ⊢
    have hrank : l.priority.rank < Priority.member.rank := by cases l <;> decide
    obtain rfl := eq_false_of_not_bare (Rendered.not_bare_of_priority rfl hrank) hdotted
    have hleft := hx.atLeast l.priority
    have hright := hy.atLeast l.operandPriority
    rw [l.category_priority] at hleft ⊢
    rw [l.category_operandPriority] at hright
    exact .binary hop hl hleft hright

theorem written_member (hg : g.IsDotless) {x : Expr} {field : String} {dotted : Bool} (haccess : o.memberAccess = true)
    (hdot : o.enables "." = true) (hfield : IsField g o dotted field)
    (hbare : x.rendered.Bare → Written g o true x.rendered.priority.category x.rendered.text x.spelled)
    (hloose : ¬x.rendered.Bare → Written g o false x.rendered.priority.category x.rendered.text x.spelled) :
    Written g o dotted .fields (x.rendered.member field).text (.member x.spelled field) := by
  by_cases h : x.rendered.Bare
  · have hfields := (hbare h).loosen (q := .member) h.2
    have htext : (x.rendered.member field).text = x.rendered.text ++ '.' :: field.toList := by
      simp [Rendered.member, Rendered.atLeast, h.1, Nat.not_lt.2 h.2]
    rw [htext]
    exact .member hg haccess hdot hfield hfields
  · have hgroup := Written.parenthesize ((hloose h).loosen (q := .conditional) (Nat.zero_le _)) true
    have hfields := Written.loosen (p := .atom) (q := .member) (by decide) hgroup
    have htext : (x.rendered.member field).text = Rendered.parenthesize x.rendered.text ++ '.' :: field.toList := by
      rw [Rendered.Bare, not_and_or, Bool.not_eq_false, Nat.not_le] at h
      simp only [Rendered.member, Rendered.atLeast]
      rcases h with h | h
      · rw [if_pos h]
      · split
        · rfl
        · rfl
    rw [htext]
    exact .member hg haccess hdot hfield hfields

mutual

/-- What is written for an expression is derived as its priority says. -/
theorem written (hg : g.IsDotless) : (e : Expr) → ∀ {dotted : Bool}, e.Printable g o dotted →
    (dotted = true → e.rendered.Bare) →
    Written g o dotted e.rendered.priority.category e.rendered.text e.spelled
  | .number v, _, h, hdotted => written_number h hdotted
  | .string s, _, _, _ => .string s
  | .name n, _, ⟨hn, hconstant⟩, _ => .name hg hn hconstant
  | .unary op x, _, ⟨hop, hunary, hx⟩, hdotted => written_unary hop hunary (written hg x hx nofun) hdotted
  | .binary op x y, _, ⟨hop, hbinary, hx, hy⟩, hdotted =>
    written_binary hop hbinary (written hg x hx nofun) (written hg y hy nofun) hdotted
  | .choice c x y, dotted, ⟨hquestion, hcolon, hc, hx, hy⟩, hdotted => by
    obtain rfl := eq_false_of_not_bare (Rendered.not_bare_of_priority (p := .conditional) rfl (by decide)) hdotted
    have hcondition := (written hg c hc nofun).atLeast .disjunction
    have hyes := (written hg x hx nofun).loosen (q := .conditional) (Nat.zero_le _)
    have hno := (written hg y hy nofun).loosen (q := .conditional) (Nat.zero_le _)
    exact .choice hquestion hcolon hcondition hyes hno
  | .call f args, dotted, ⟨hf, hargs⟩, hdotted => by
    obtain rfl := eq_false_of_not_bare (Rendered.not_bare_of_priority (p := .call) rfl (by decide)) hdotted
    exact .call ((written hg f hf nofun).atLeast .call) (allWritten hg args hargs)
  | .member x field, _, ⟨haccess, hdot, hfield, hx⟩, _ =>
    written_member hg haccess hdot hfield (fun hbare => written hg x hx fun _ => hbare)
      fun hloose => written hg x (hx.of_not_bare hloose) nofun

theorem allWritten (hg : g.IsDotless) : (es : List Expr) → AllPrintable g o es →
    List.Forall₂ (fun r e => Written g o false .expression r.text e) (allRendered es) (allSpelled es)
  | [], _ => .nil
  | x :: rest, ⟨hx, hrest⟩ =>
    .cons ((written hg x hx nofun).loosen (q := .conditional) (Nat.zero_le _)) (allWritten hg rest hrest)

end

/-- An expression that can be written is read as what it is spelled as. -/
theorem parse_rendered (hg : g.IsDotless) {e : Expr} (h : e.Printable g o false) :
    Expr.parse g o e.program.render = .ok e.spelled := by
  have hwritten := (e.written hg h nofun).loosen (q := .conditional) (Nat.zero_le _)
  obtain ⟨d, hproper, hexpr, hspells⟩ := hwritten
  have hscans := hspells [] [] .nil (.finish rfl)
  rw [List.append_nil, List.append_nil] at hscans
  have htext : e.program.render.toList = e.rendered.text := by rw [render_program, String.toList_ofList]
  rw [← htext] at hscans
  obtain ⟨hends, hkinds⟩ := scans_iff.1 hscans
  have hparse : Derivation.parse g o e.program.render = .ok d :=
    Derivation.parse_eq_ok_iff.2 ⟨hends, hkinds.symm, hproper⟩
  rw [Expr.parse, hparse, ← hexpr]
  rfl

end Expr

/-! ## Codes -/

/-- Only behind an atom or a member there may be a dot, and no number follows either. -/
def Closes (c : Category) (r : List TokenKind) : Prop :=
  ∀ k ∈ r.head?, k.IsDotted → k = .operator "." ∧ c.rank ≤ Category.fields.rank

namespace Closes

variable {c c' : Category} {r : List TokenKind}

theorem nil : Closes c [] := fun _ h => nomatch h

theorem cons {k : TokenKind} (hk : ¬k.IsDotted) : Closes c (k :: r) := by
  rintro _ ⟨⟩ hdotted
  exact absurd hdotted hk

theorem operator {op : String} (hop : op ≠ ".") : Closes c (.operator op :: r) := by
  refine cons ?_
  rintro (h | ⟨v, h⟩)
  · cases h
    exact hop rfl
  · cases h

theorem leftParen : Closes c (.leftParen :: r) := cons (by rintro (h | ⟨_, h⟩) <;> cases h)

theorem rightParen : Closes c (.rightParen :: r) := cons (by rintro (h | ⟨_, h⟩) <;> cases h)

theorem comma : Closes c (.comma :: r) := cons (by rintro (h | ⟨_, h⟩) <;> cases h)

theorem of_lt (h : Closes c r) (hc : Category.fields.rank < c.rank) : Closes c' r := by
  intro k hk hdotted
  obtain ⟨_, hrank⟩ := h k hk hdotted
  omega

theorem mono (h : Closes c r) (hc : c'.rank ≤ c.rank) : Closes c' r := by
  intro k hk hdotted
  obtain ⟨heq, hrank⟩ := h k hk hdotted
  exact ⟨heq, Nat.le_trans hc hrank⟩

theorem eq_false (h : Closes c r) (hc : Category.fields.rank < c.rank) :
    decide (r.head? = some (.operator ".")) = false := by
  rw [decide_eq_false_iff_not]
  intro hdot
  obtain ⟨_, hrank⟩ := h _ hdot (.inl rfl)
  omega

/-- What is only asked for in front of a dot is only asked for there. -/
theorem eq_true (h : Closes c r) (hdotted : ∃ k ∈ r.head?, k.IsDotted) :
    decide (r.head? = some (.operator ".")) = true := by
  obtain ⟨k, hk, hdotted⟩ := hdotted
  obtain ⟨rfl, _⟩ := h k hk hdotted
  exact decide_eq_true hk

end Closes

theorem AllLexed.append_right {N : Float → Prop} {ks ks' : List TokenKind} (h : AllLexed N g o (ks ++ ks')) :
    AllLexed N g o ks' := by
  induction ks with
  | nil => exact h
  | cons k ks ih => exact ih h.2

theorem Level.ne_dot_of_mem {l : Level} {op : String} (h : op ∈ l.operators) : op ≠ "." := by
  rintro rfl
  cases l <;> exact absurd h (by decide)

/-- The token of a field is one that can be written for it. -/
theorem isField_of_lexed {N : Float → Prop} {f : FieldToken} {dotted : Prop} {b : Bool} (hword : f.isWord = true)
    (h : f.kind.Lexed N g o dotted) (hb : dotted → b = true) : Expr.IsField g o b f.text := by
  cases f with
  | name n => exact .inl ⟨h.1, fun hconstant => hb (h.2 hconstant)⟩
  | operator op =>
    have hop : IsOperator g o op := h
    rcases hop.spelling with hsymbol | ⟨hword', hoperator⟩
    · have hnone : ∀ op ∈ symbols, (FieldToken.operator op).isWord = false := by decide +kernel
      rw [hnone op hsymbol] at hword
      cases hword
    · exact .inr ⟨hword', hoperator, hop.enabled⟩

mutual

/-- The expression of a derivation of tokens of a code can be written, its numbers apart. -/
theorem Derivation.printable {N : Float → Prop} : {c : Category} → (d : Derivation c) → d.Proper g o →
    ∀ {r : List TokenKind}, Closes c r → AllLexed N g o (d.tokens ++ r) →
    d.expr.PrintableWith N g o (decide (r.head? = some (.operator ".")))
  | _, .simple x, hd, _, hr, h => x.printable hd (hr.mono (by decide)) h
  | _, .choice c x y, ⟨hc, hx, hy⟩, r, hr, h => by
    simp only [Derivation.tokens, List.append_assoc, List.cons_append] at h
    have hquestion := h.append_right
    have hcolon := hquestion.2.append_right
    have hyp := y.printable hy hr hcolon.2
    rw [hr.eq_false (by decide)] at hyp ⊢
    exact ⟨hquestion.1, hcolon.1, c.printable hc (.operator (by decide)) h,
      x.printable hx (.operator (by decide)) hquestion.2, hyp⟩
  | _, .operand (l := l) x, hd, _, hr, h => x.printable hd (hr.mono l.rank_operand_lt.le) h
  | _, .binary (l := l) x op y, ⟨hx, hop, hy⟩, r, hr, h => by
    simp only [Derivation.tokens, List.append_assoc, List.cons_append] at h
    have hrank : Category.fields.rank < (Category.level l).rank := by cases l <;> decide
    have hcloses : Closes (.level l) (.operator op :: (y.tokens ++ r)) := .operator (Level.ne_dot_of_mem hop)
    have hxp := x.printable hx hcloses h
    have hoperator := h.append_right
    have hyp := y.printable hy (hr.mono l.rank_operand_lt.le) hoperator.2
    rw [hcloses.eq_false hrank] at hxp
    rw [hr.eq_false hrank] at hyp ⊢
    exact ⟨hoperator.1, .inr ⟨l, hop⟩, hxp, hyp⟩
  | _, .unsigned x, hd, _, hr, h => x.printable hd (hr.mono (by decide)) h
  | _, .signed op x, ⟨hop, _, hx⟩, r, hr, h => by
    have hxp := x.printable hx hr h.2
    rw [hr.eq_false (by decide)] at hxp ⊢
    exact ⟨h.1, .inr hop, hxp⟩
  | _, .base x, hd, _, hr, h => x.printable hd (hr.mono (by decide)) h
  | _, .power x y, ⟨hx, hy⟩, r, hr, h => by
    simp only [Derivation.tokens, List.append_assoc, List.cons_append] at h
    have hoperator := h.append_right
    have hyp := y.printable hy (hr.of_lt (by decide)) hoperator.2
    rw [hr.eq_false (by decide)] at hyp ⊢
    exact ⟨hoperator.1, .inl rfl, x.printable hx (.operator (by decide)) h, hyp⟩
  | _, .applied x, hd, _, hr, h => x.printable hd (hr.mono (by decide)) h
  | _, .factorial x, hx, r, hr, h => by
    simp only [Derivation.tokens, List.append_assoc, List.cons_append, List.nil_append] at h
    exact ⟨h.append_right.1, .inl rfl, x.printable hx (.operator (by decide)) h⟩
  | _, .operation op (.group x), ⟨hop, _, _, hx⟩, r, hr, h => by
    simp only [Derivation.tokens, List.append_assoc, List.cons_append, List.nil_append] at h
    exact ⟨h.1, .inr hop, x.printable hx .rightParen h.2.2⟩
  | _, .called x, hd, _, hr, h => x.printable hd (hr.mono (by decide)) h
  | _, .uncalled x, hd, _, hr, h => x.printable hd (hr.mono (by decide)) h
  | _, .invocation f, hf, r, hr, h => by
    simp only [Derivation.tokens, List.append_assoc, List.cons_append, List.nil_append] at h
    exact ⟨f.printable hf .leftParen h, trivial⟩
  | _, .call f args, ⟨hf, hargs⟩, r, hr, h => by
    simp only [Derivation.tokens, List.append_assoc, List.cons_append, List.nil_append] at h
    exact ⟨f.printable hf .leftParen h, args.printable hargs h.append_right.2⟩
  | _, .whole x, hd, _, hr, h => x.printable hd (hr.mono (by decide)) h
  | _, .member x field, ⟨hx, haccess, hword⟩, r, hr, h => by
    simp only [Derivation.tokens, List.append_assoc, List.cons_append, List.nil_append] at h
    have hxp := x.printable hx (fun k hk _ => by cases hk; exact ⟨rfl, by decide⟩) h
    have hdot := h.append_right
    have hop : IsOperator g o "." := hdot.1
    exact ⟨haccess, hop.enabled, isField_of_lexed hword hdot.2.1 hr.eq_true, hxp⟩
  | _, .name n, _, r, hr, h => by
    obtain ⟨hn, hconstant⟩ := h.1
    exact ⟨hn, fun hc => hr.eq_true (hconstant hc)⟩
  | _, .number v, _, r, hr, h => h.1
  | _, .string s, _, r, hr, h => trivial
  | _, .inner (.group x), hx, r, _, h | _, .group x, hx, r, _, h => by
    simp only [Derivation.tokens, List.append_assoc, List.cons_append, List.nil_append] at h
    exact (x.printable hx .rightParen h.2).mono _

/-- The same for arguments, in front of the parenthesis that closes them. -/
theorem Arguments.printable {N : Float → Prop} : (args : Arguments) → args.Proper g o → ∀ {r : List TokenKind},
    AllLexed N g o (args.tokens ++ .rightParen :: r) → Expr.AllPrintableWith N g o args.exprs
  | .last x, hx, r, h => ⟨x.printable hx .rightParen h, trivial⟩
  | .more x rest, ⟨hx, hrest⟩, r, h => by
    simp only [Arguments.tokens, List.append_assoc, List.cons_append] at h
    exact ⟨x.printable hx .comma h, rest.printable hrest h.append_right.2⟩

end

/-- The tree of a code can be written, its numbers apart, and these are numbers that the grammar reads. -/
theorem Derivation.printable_of_parse {N : Float → Prop} (hN : g.Reads N) {code : String}
    {d : Derivation .expression} (h : Derivation.parse g o code = .ok d) : d.expr.PrintableWith N g o false := by
  obtain ⟨hends, hderives⟩ := Derivation.parse_eq_ok_iff.1 h
  have hscans : Scans g o code.toList d.tokens := scans_iff.2 ⟨hends, hderives.tokens.symm⟩
  exact d.printable hderives.proper .nil (by rw [List.append_nil]; exact hscans.allLexed hN)

/-- The expression that a code is read as. -/
theorem Expr.parse_eq_ok_iff {code : String} {e : Expr} :
    Expr.parse g o code = .ok e ↔ ∃ d, Derivation.parse g o code = .ok d ∧ d.expr = e := by
  rw [Expr.parse]
  cases Derivation.parse g o code with
  | error e =>
    constructor
    · intro h
      cases h
    · rintro ⟨_, h, -⟩
      cases h
  | ok d =>
    constructor
    · exact fun h => ⟨d, rfl, Except.ok.inj h⟩
    · rintro ⟨_, h, rfl⟩
      cases h
      rfl

/-- The program that a code is read as. -/
theorem Program.parse_eq_ok_iff {code : String} {p : Program} :
    Program.parse g o code = .ok p ↔ ∃ e, Expr.parse g o code = .ok e ∧ e.program = p := by
  rw [Program.parse]
  cases Expr.parse g o code with
  | error e =>
    constructor
    · intro h
      cases h
    · rintro ⟨_, h, -⟩
      cases h
  | ok e =>
    constructor
    · exact fun h => ⟨e, rfl, Except.ok.inj h⟩
    · rintro ⟨_, h, rfl⟩
      cases h
      rfl

/-- The program of a code is that of an expression that can be written, without signed numbers. -/
theorem Program.exists_printable (hg : g.IsReadable) {code : String} {p : Program}
    (h : Program.parse g o code = .ok p) :
    ∃ e : Expr, e.program = p ∧ e.Printable g o false ∧ e.spelled = e := by
  obtain ⟨e, he, hp⟩ := Program.parse_eq_ok_iff.1 h
  obtain ⟨d, hd, rfl⟩ := Expr.parse_eq_ok_iff.1 he
  have hunsigned := Derivation.printable_of_parse hg.reads hd
  refine ⟨d.expr, hp, ?_, hunsigned.spelled_eq⟩
  exact d.expr.printableWith_canSpell.1 (hunsigned.imp fun _ _ hv => Expr.canSpell_of_unsigned hv)

/-- What is written for an expression without signed numbers is read as its program. -/
theorem Program.parse_render_program (hg : g.IsReadable) {e : Expr} (h : e.Printable g o false) (hs : e.spelled = e) :
    Program.parse g o e.program.render = .ok e.program := by
  rw [Program.parse, Expr.parse_rendered hg.dotless h, hs]
  rfl

/-- The standard constants are numbers without signs. -/
theorem Grammar.IsReadable.of_standardConstants (h : ∀ n l, g.constant? n = some l → (n, l) ∈ standardConstants) :
    g.IsReadable := by
  have hall : ∀ p ∈ standardConstants, '.' ∉ p.1.toList ∧ (p.2 = .number Numeric.e ∨ p.2 = .number Numeric.pi ∨
      p.2 = .number 1 ∨ p.2 = .number 0) := by
    decide
  constructor
  · intro n v hv
    rcases (hall _ (h n _ hv)).2 with h | h | h | h <;> cases h <;> decide +kernel
  · exact fun n l hl => (hall _ (h n l hl)).1

theorem Grammar.isReadable_standard : Grammar.standard.IsReadable := by
  refine .of_standardConstants fun n l h => ?_
  obtain ⟨before, after, heq, _⟩ := List.lookup_eq_some_iff.1 h
  rw [heq]
  exact List.mem_append_right _ (.head _)

/-- What is written for the program of a code is read as this program, and so is what is written for it after a
variable has been replaced by the program of another code. -/
theorem Program.parse_render_substitute {g : Grammar} (hg : g.IsReadable) (o : Options) {code code' : String}
    {s r : Program} (hs : Program.parse g o code = .ok s) (hr : Program.parse g o code' = .ok r) (x : String) :
    Program.parse g o s.render = .ok s ∧
      Program.parse g o (Program.substitute x r s).render = .ok (Program.substitute x r s) := by
  obtain ⟨e, rfl, he, hes⟩ := Program.exists_printable hg hs
  obtain ⟨e', rfl, he', hes'⟩ := Program.exists_printable hg hr
  refine ⟨Program.parse_render_program hg he hes, ?_⟩
  rw [← Expr.program_substitute]
  exact Program.parse_render_program hg (he'.substitute e he) (Expr.spelled_substitute hes' e hes)

/-- A sum that takes the place of a variable is put into parentheses. -/
theorem Program.parse_render_substitute_sum :
    Program.parse Grammar.standard .standard "x ^ x" = .ok [.load "x", .load "x", .binary "^"] ∧
      Program.parse Grammar.standard .standard "y + 1" = .ok [.load "y", .number 1, .binary "+"] ∧
      Program.parse Grammar.standard .standard "(y + 1) ^ (y + 1)" =
        .ok [.load "y", .number 1, .binary "+", .load "y", .number 1, .binary "+", .binary "^"] := by
  have hx : (Expr.name "x").Printable Grammar.standard .standard false :=
    Expr.printable_name (by decide) (by decide) (by decide)
  have hy : (Expr.name "y").Printable Grammar.standard .standard false :=
    Expr.printable_name (by decide) (by decide) (by decide)
  have hpower : (Expr.binary "^" (.name "x") (.name "x")).Printable Grammar.standard .standard false :=
    ⟨⟨by decide, .inl (by decide)⟩, .inl rfl, hx, hx⟩
  have hone : Unsigned 1 := by decide
  have hsum : (Expr.binary "+" (.name "y") (.number 1)).Printable Grammar.standard .standard false :=
    ⟨⟨by decide, .inl (by decide)⟩, .inr ⟨.sum, by decide⟩, hy, Expr.canSpell_of_unsigned hone⟩
  have hs : Program.parse Grammar.standard .standard "x ^ x" = .ok [.load "x", .load "x", .binary "^"] := by
    have h := Program.parse_render_program Grammar.isReadable_standard hpower rfl
    have hrender : (Expr.binary "^" (.name "x") (.name "x")).program.render = "x ^ x" := by decide +kernel
    rwa [hrender] at h
  have hr : Program.parse Grammar.standard .standard "y + 1" = .ok [.load "y", .number 1, .binary "+"] := by
    have h := Program.parse_render_program Grammar.isReadable_standard hsum
      (by simp only [Expr.spelled, Expr.spellNumber_of_unsigned hone])
    have hrender : (Expr.binary "+" (.name "y") (.number 1)).program.render = "y + 1" := by decide +kernel
    rwa [hrender] at h
  have h := (Program.parse_render_substitute Grammar.isReadable_standard .standard hs hr "x").2
  have hsubstitute : Program.substitute "x" [.load "y", .number 1, .binary "+"] [.load "x", .load "x", .binary "^"] =
      [.load "y", .number 1, .binary "+", .load "y", .number 1, .binary "+", .binary "^"] := by
    simp [Program.substitute, Program.substituteStep]
  have hrender : Program.render [.load "y", .number 1, .binary "+", .load "y", .number 1, .binary "+", .binary "^"] =
      "(y + 1) ^ (y + 1)" := by
    decide +kernel
  rw [hsubstitute, hrender] at h
  exact ⟨hs, hr, h⟩

end Reckon
