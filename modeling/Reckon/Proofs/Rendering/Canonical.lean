import Reckon.Proofs.Rendering.Reparsing
import Reckon.Proofs.Rendering.Spacing

/-!
# The tokens of what is written

What is written for an expression are its tokens, with parentheses around operands of too low a priority and around
numbers that a dot follows (`Expr.kinds`), with their blanks (`Expr.write_kinds`). Every token fits where it stands, and
no number is in front of a dot (`Expr.spaced_kinds`), so these are the tokens that are read (`Expr.scans_rendered`).
-/

namespace Reckon

variable {g : Grammar} {o : Options}

/-- Tokens, in parentheses if that is asked for. -/
def enclose (parens : Bool) (ks : List TokenKind) : List TokenKind :=
  if parens then .leftParen :: ks ++ [.rightParen] else ks

section

variable {N : Float → Prop} {parens : Bool} {next : Option TokenKind} {ks : List TokenKind}

theorem Phase.run_enclose (h : operand.run ks = .operator) : operand.run (enclose parens ks) = .operator := by
  unfold enclose
  split
  · simp
  · exact h

theorem Phase.write_enclose : operand.write (enclose parens ks) =
    if parens then Rendered.parenthesize (operand.write ks) else operand.write ks := by
  unfold enclose
  split
  · simp [write_append, Rendered.parenthesize]
  · rfl

/-- What is put into parentheses is in front of the one that closes them. -/
theorem Spaced.enclose (hrun : Phase.operand.run ks = .operator)
    (h : Spaced N g o (if parens then some .rightParen else next) .operand ks) :
    Spaced N g o next .operand (enclose parens ks) := by
  unfold Reckon.enclose
  cases parens with
  | false => exact h
  | true =>
    refine ⟨nofun, append_iff.2 ⟨h, ?_, trivial⟩⟩
    rw [Phase.next_leftParen, hrun]
    exact .inr rfl

end

/-- The token that a field is read as. -/
def FieldToken.ofText (g : Grammar) (o : Options) (field : String) : FieldToken :=
  if IsWord field.toList ∧ g.isOperator field = true ∧ o.enables field = true then .operator field else .name field

@[simp] theorem FieldToken.text_ofText (field : String) : (ofText g o field).text = field := by
  unfold ofText
  split <;> rfl

/-- The token that a field is read as fits behind a dot. -/
theorem Expr.IsField.fits {N : Float → Prop} {dotted : Bool} {field : String} (h : IsField g o dotted field)
    {next : Option TokenKind} (hnext : dotted = true → next = some (.operator ".")) :
    (FieldToken.ofText g o field).kind.Fits N g o .field next := by
  unfold FieldToken.ofText
  split
  · next hoperator => exact ⟨⟨hoperator.2.2, .inr ⟨hoperator.1, hoperator.2.1⟩⟩, nofun, fun _ => hoperator.1⟩
  · next hname =>
    obtain ⟨hvariable, hconstant⟩ := h.resolve_right hname
    exact ⟨.inr rfl, hvariable, fun h => hnext (hconstant h)⟩

namespace Expr

/-- Is an expression put into parentheses where an operand of this priority is asked for? -/
def isLooser (p : Priority) (e : Expr) : Bool :=
  decide (e.rendered.priority.rank < p.rank)

/-- May a dot stand behind an expression without parentheses? -/
def isBare (e : Expr) : Bool :=
  !e.rendered.isNumeral && !e.isLooser .member

theorem isBare_iff {e : Expr} : e.isBare = true ↔ e.rendered.Bare := by
  simp [isBare, isLooser, Rendered.Bare]

mutual

/-- The tokens that are written for an expression. -/
def kinds (g : Grammar) (o : Options) : Expr → List TokenKind
  | .number v => [.number v]
  | .string s => [.string s]
  | .name n => [.name n]
  | .unary op x =>
    if op = "-" ∨ op = "+" then .operator op :: enclose (x.isLooser .sign) (x.kinds g o)
    else if op = "!" then enclose (x.isLooser .factorial) (x.kinds g o) ++ [.operator "!"]
    else .operator op :: enclose true (x.kinds g o)
  | .binary op x y =>
    let (_, left, right) := Priority.ofBinary op
    enclose (x.isLooser left) (x.kinds g o) ++ .operator op :: enclose (y.isLooser right) (y.kinds g o)
  | .choice c x y =>
    enclose (c.isLooser .disjunction) (c.kinds g o) ++ .operator "?" :: x.kinds g o ++ .operator ":" :: y.kinds g o
  | .call f args =>
    enclose (f.isLooser .call) (f.kinds g o) ++ enclose true ([.comma].intercalate (allKinds g o args))
  | .member x field =>
    enclose (!x.isBare) (x.kinds g o) ++ [.operator ".", (FieldToken.ofText g o field).kind]

/-- The tokens that are written for expressions. -/
def allKinds (g : Grammar) (o : Options) : List Expr → List (List TokenKind)
  | [] => []
  | x :: rest => x.kinds g o :: allKinds g o rest

end

/-! ## Phases and texts -/

theorem not_dot_of_binary {op : String} (h : op = "^" ∨ ∃ l : Level, op ∈ l.operators) : ¬(op = "." ∨ op = "!") := by
  have hall : ∀ l : Level, ∀ op ∈ l.operators, ¬(op = "." ∨ op = "!") := by
    intro l
    cases l <;> decide
  rcases h with rfl | ⟨l, hl⟩
  · decide
  · exact hall l op hl

variable {N : Float → Prop}

/-- Behind an expression an operator may stand. -/
theorem run_kinds : (e : Expr) → ∀ {dotted : Bool}, e.PrintableWith N g o dotted →
    Phase.operand.run (e.kinds g o) = .operator
  | .number _, _, _ | .string _, _, _ | .name _, _, _ => rfl
  | .unary op x, _, ⟨_, _, hx⟩ => by
    have hrun := x.run_kinds hx
    unfold kinds
    split
    · next hsign => rw [Phase.run_cons, Phase.next_sign hsign, Phase.run_enclose hrun]
    · next hsign =>
      split
      · rw [Phase.run_append, Phase.run_enclose hrun]
        rfl
      · simp [enclose]
  | .binary op x y, _, ⟨_, hop, hx, hy⟩ => by
    rw [kinds, Phase.run_append, Phase.run_enclose (x.run_kinds hx), Phase.run_cons,
      Phase.next_infix (not_dot_of_binary hop), Phase.run_enclose (y.run_kinds hy)]
  | .choice c x y, _, ⟨_, _, hc, hx, hy⟩ => by
    simp only [kinds, Phase.run_append, Phase.run_cons, Phase.run_enclose (c.run_kinds hc), Phase.next_question,
      x.run_kinds hx, Phase.next_colon, y.run_kinds hy]
  | .call f args, _, _ => by simp [kinds, enclose]
  | .member x field, _, ⟨_, _, _, hx⟩ => by
    rw [kinds, Phase.run_append, Phase.run_enclose (x.run_kinds hx)]
    exact Phase.next_field _

/-- Operands are put into parentheses as their texts are. -/
theorem write_atLeast {x : Expr} (h : Phase.operand.write (x.kinds g o) = x.rendered.text) (p : Priority) :
    Phase.operand.write (enclose (x.isLooser p) (x.kinds g o)) = x.rendered.atLeast p := by
  rw [Phase.write_enclose, h, Rendered.atLeast, isLooser]
  simp only [decide_eq_true_eq]

/-- In front of a field, an expression that is not bare is put into parentheses. -/
theorem text_member (x : Expr) (field : String) : (x.rendered.member field).text =
    (if !x.isBare then Rendered.parenthesize x.rendered.text else x.rendered.text) ++ '.' :: field.toList := by
  unfold Rendered.member Rendered.atLeast isBare isLooser
  cases x.rendered.isNumeral with
  | true => rfl
  | false => simp only [Bool.false_eq_true, if_false, Bool.not_false, Bool.true_and, Bool.not_not, decide_eq_true_eq]

mutual

/-- What is written for the tokens of an expression is what is written for the expression. -/
theorem write_kinds : (e : Expr) → ∀ {dotted : Bool}, e.PrintableWith N g o dotted →
    Phase.operand.write (e.kinds g o) = e.rendered.text
  | .number _, _, _ | .string _, _, _ | .name _, _, _ => by
    simp [kinds, Phase.write, Phase.before, Phase.behind, TokenKind.spelling, rendered]
  | .unary op x, _, ⟨_, _, hx⟩ => by
    have htext := write_atLeast (x.write_kinds hx)
    rw [kinds, rendered, Rendered.unary]
    split
    · next hsign => rw [Phase.write_prefix, Phase.next_sign hsign, htext]
    · next hsign =>
      split
      · rw [Phase.write_append, Phase.run_enclose (x.run_kinds hx), htext]
        rfl
      · rw [Phase.write_prefix, Phase.next_applied hsign, enclose, if_pos rfl, List.cons_append,
          Phase.write_leftParen, Phase.write_append, x.write_kinds hx, Phase.write_rightParen]
        rfl
  | .binary op x y, _, ⟨_, hop, hx, hy⟩ => by
    rw [kinds, Phase.write_append, Phase.run_enclose (x.run_kinds hx), Phase.write_infix (not_dot_of_binary hop),
      write_atLeast (x.write_kinds hx), write_atLeast (y.write_kinds hy)]
    simp [rendered, Rendered.binary]
  | .choice c x y, _, ⟨_, _, hc, hx, hy⟩ => by
    have hquestion : ∀ ks, Phase.operator.write (.operator "?" :: ks) = " ? ".toList ++ Phase.operand.write ks :=
      Phase.write_infix (by decide)
    have hcolon : ∀ ks, Phase.operator.write (.operator ":" :: ks) = " : ".toList ++ Phase.operand.write ks :=
      Phase.write_infix (by decide)
    rw [kinds, List.append_assoc, List.cons_append, Phase.write_append, Phase.run_enclose (c.run_kinds hc), hquestion,
      Phase.write_append, x.run_kinds hx, hcolon, write_atLeast (c.write_kinds hc), x.write_kinds hx,
      y.write_kinds hy]
    simp [rendered, Rendered.ternary]
  | .call f args, _, ⟨hf, hargs⟩ => by
    rw [kinds, Phase.write_append, Phase.run_enclose (f.run_kinds hf), write_atLeast (f.write_kinds hf), enclose,
      if_pos rfl, List.cons_append, Phase.write_leftParen, Phase.write_append, writeAll_kinds args hargs,
      Phase.write_rightParen]
    rfl
  | .member x field, _, ⟨_, _, _, hx⟩ => by
    rw [kinds, Phase.write_append, Phase.run_enclose (x.run_kinds hx), Phase.write_enclose, x.write_kinds hx,
      Phase.write_dot, Phase.write_field, FieldToken.text_ofText, Phase.write_nil, List.append_nil, rendered,
      text_member]

theorem writeAll_kinds : (es : List Expr) → AllPrintableWith N g o es →
    Phase.operand.write ([.comma].intercalate (allKinds g o es)) = Rendered.list (allRendered es)
  | [], _ => rfl
  | [x], ⟨hx, _⟩ => by
    simpa [allKinds, allRendered, Rendered.list] using x.write_kinds hx
  | x :: y :: rest, ⟨hx, hrest⟩ => by
    have hlater := writeAll_kinds (y :: rest) hrest
    simp only [allKinds, allRendered, Rendered.list, List.map_cons, List.intercalate_cons_cons] at hlater ⊢
    rw [List.append_assoc, Phase.write_append, x.write_kinds hx, x.run_kinds hx, List.singleton_append,
      Phase.write_comma, hlater, List.append_assoc]
    rfl

end

/-! ## Where tokens stand -/

/-- A dot is behind no tokens but those of a bare expression. -/
theorem ne_dot_of_priority {e : Expr} {p : Priority} {next : Option TokenKind}
    (hbare : next = some (.operator ".") → e.isBare = true) (he : e.rendered.priority = p)
    (hp : p.rank < Priority.member.rank) : next ≠ some (.operator ".") :=
  fun hdot => Rendered.not_bare_of_priority he hp (isBare_iff.1 (hbare hdot))

theorem rank_ofBinary_lt (op : String) : (Priority.ofBinary op).1.rank < Priority.member.rank := by
  unfold Priority.ofBinary
  split_ifs <;> decide

/-- The tokens of an operand fit in front of anything but a dot, with or without parentheses. -/
theorem spaced_operand {x : Expr} {next : Option TokenKind} {p : Priority}
    (h : ∀ {next : Option TokenKind}, (next = some (.operator ".") → x.isBare = true) →
      Spaced N g o next .operand (x.kinds g o))
    (hrun : Phase.operand.run (x.kinds g o) = .operator) (hnext : next ≠ some (.operator ".")) :
    Spaced N g o next .operand (enclose (x.isLooser p) (x.kinds g o)) := by
  refine .enclose hrun (h ?_)
  split
  · simp
  · exact fun hdot => absurd hdot hnext

mutual

/-- The tokens of an expression fit, and no number among them is in front of a dot. -/
theorem spaced_kinds : (e : Expr) → ∀ {dotted : Bool} {next : Option TokenKind},
    e.PrintableWith Unsigned g o dotted → (dotted = true → next = some (.operator ".")) →
    (next = some (.operator ".") → e.isBare = true) → Spaced (fun _ => False) g o next .operand (e.kinds g o)
  | .number v, _, next, hv, _, hbare => by
    refine ⟨⟨rfl, hv, fun hdot => ?_⟩, trivial⟩
    have hnumeral := (isBare_iff.1 (hbare hdot)).1
    rw [rendered, Rendered.ofNumber_unsigned hv] at hnumeral
    cases hnumeral
  | .string s, _, _, _, _, _ => ⟨rfl, trivial⟩
  | .name n, _, _, ⟨hn, hconstant⟩, hdotted, _ => ⟨⟨.inl rfl, hn, fun h => hdotted (hconstant h)⟩, trivial⟩
  | .unary op x, _, next, ⟨hop, _, hx⟩, _, hbare => by
    have hrun := x.run_kinds hx
    unfold kinds
    split
    · next hsign =>
      have hnext := ne_dot_of_priority hbare (p := .sign) (by simp [rendered, Rendered.unary, hsign]) (by decide)
      refine ⟨⟨hop, nofun, nofun⟩, ?_⟩
      rw [Phase.next_sign hsign]
      exact spaced_operand (x.spaced_kinds hx nofun) hrun hnext
    · next hsign =>
      split
      · next hbang =>
        subst hbang
        refine Spaced.append_iff.2 ⟨spaced_operand (x.spaced_kinds hx nofun) hrun (by simp), ?_⟩
        rw [Phase.run_enclose hrun]
        exact ⟨⟨hop, nofun, nofun⟩, trivial⟩
      · refine ⟨⟨hop, nofun, nofun⟩, ?_⟩
        rw [Phase.next_applied hsign]
        refine ⟨nofun, Spaced.append_iff.2 ⟨x.spaced_kinds hx nofun (by simp), ?_⟩⟩
        rw [Phase.next_leftParen, hrun]
        exact ⟨.inr rfl, trivial⟩
  | .binary op x y, _, next, ⟨hop, hbinary, hx, hy⟩, _, hbare => by
    have hinfix := not_dot_of_binary hbinary
    have hnext := ne_dot_of_priority hbare rfl (rank_ofBinary_lt op)
    have hdot : some (TokenKind.operator op) ≠ some (.operator ".") := by simpa using (not_or.1 hinfix).1
    refine Spaced.append_iff.2 ⟨spaced_operand (x.spaced_kinds hx nofun) (x.run_kinds hx) hdot, ?_⟩
    rw [Phase.run_enclose (x.run_kinds hx)]
    refine ⟨⟨hop, nofun, nofun⟩, ?_⟩
    rw [Phase.next_infix hinfix]
    exact spaced_operand (y.spaced_kinds hy nofun) (y.run_kinds hy) hnext
  | .choice c x y, _, next, ⟨hquestion, hcolon, hc, hx, hy⟩, _, hbare => by
    have hnext := ne_dot_of_priority hbare (p := .conditional) rfl (by decide)
    rw [kinds, List.append_assoc]
    refine Spaced.append_iff.2 ⟨spaced_operand (c.spaced_kinds hc nofun) (c.run_kinds hc) (by simp), ?_⟩
    rw [Phase.run_enclose (c.run_kinds hc)]
    refine ⟨⟨hquestion, nofun, nofun⟩, Spaced.append_iff.2 ⟨x.spaced_kinds hx nofun (by simp), ?_⟩⟩
    rw [Phase.next_question, x.run_kinds hx]
    refine ⟨⟨hcolon, nofun, nofun⟩, ?_⟩
    rw [Phase.next_colon]
    exact y.spaced_kinds hy nofun fun hdot => absurd hdot hnext
  | .call f args, _, _, ⟨hf, hargs⟩, _, _ => by
    refine Spaced.append_iff.2 ⟨spaced_operand (f.spaced_kinds hf nofun) (f.run_kinds hf) (by simp [enclose]), ?_⟩
    rw [Phase.run_enclose (f.run_kinds hf)]
    obtain ⟨hspaced, hrun⟩ := spacedAll_kinds args hargs
    refine ⟨nofun, Spaced.append_iff.2 ⟨hspaced, ?_, trivial⟩⟩
    rw [Phase.next_leftParen]
    exact hrun
  | .member x field, _, next, ⟨_, hdot, hfield, hx⟩, hdotted, _ => by
    have hspaced : Spaced (fun _ => False) g o (some (.operator ".")) .operand (enclose (!x.isBare) (x.kinds g o)) := by
      refine .enclose (x.run_kinds hx) ?_
      cases hbare : x.isBare with
      | true => exact x.spaced_kinds hx (fun _ => rfl) fun _ => hbare
      | false =>
        have hloose : ¬x.rendered.Bare := fun h => Bool.false_ne_true (hbare.symm.trans (isBare_iff.2 h))
        exact x.spaced_kinds (hx.of_not_bare hloose) nofun (by simp)
    refine Spaced.append_iff.2 ⟨hspaced, ?_⟩
    rw [Phase.run_enclose (x.run_kinds hx)]
    exact ⟨⟨⟨hdot, .inl (by decide)⟩, nofun, nofun⟩, hfield.fits hdotted, trivial⟩

/-- The same for arguments, in front of the parenthesis that closes them. -/
theorem spacedAll_kinds : (es : List Expr) → AllPrintableWith Unsigned g o es →
    Spaced (fun _ => False) g o (some .rightParen) .operand ([.comma].intercalate (allKinds g o es)) ∧
      (Phase.operand.run ([.comma].intercalate (allKinds g o es)) = .operand ∨
        Phase.operand.run ([.comma].intercalate (allKinds g o es)) = .operator)
  | [], _ => ⟨trivial, .inl rfl⟩
  | [x], ⟨hx, _⟩ => by
    rw [allKinds, allKinds, List.intercalate_singleton]
    exact ⟨x.spaced_kinds hx nofun (by simp), .inr (x.run_kinds hx)⟩
  | x :: y :: rest, ⟨hx, hrest⟩ => by
    obtain ⟨hlater, hlater'⟩ := spacedAll_kinds (y :: rest) hrest
    simp only [allKinds, List.intercalate_cons_cons, List.append_assoc, List.singleton_append] at hlater hlater' ⊢
    have hrun := x.run_kinds hx
    rw [Spaced.append_iff, Phase.run_append, hrun]
    exact ⟨⟨x.spaced_kinds hx nofun (by simp), rfl, hlater⟩, hlater'⟩

end

/-- Where nothing stands behind it, the tokens of an expression fit. -/
theorem PrintableWith.spaced {e : Expr} (h : e.PrintableWith Unsigned g o false) :
    Spaced (fun _ => False) g o none .operand (e.kinds g o) :=
  e.spaced_kinds h nofun (by simp)

theorem toList_render {e : Expr} (h : e.PrintableWith N g o false) :
    e.program.render.toList = Phase.operand.write (e.kinds g o) := by
  rw [render_program, String.toList_ofList, e.write_kinds h]

/-- The tokens of what is written for an expression. -/
theorem scans_rendered (hg : g.IsDotless) {e : Expr} (h : e.PrintableWith Unsigned g o false) :
    Scans g o e.program.render.toList (e.kinds g o) :=
  (h.spaced.mono fun _ => False.elim).scans hg (toList_render h)

end Expr

end Reckon
