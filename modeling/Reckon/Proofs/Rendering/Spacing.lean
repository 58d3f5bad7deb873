import Reckon.Expr.Derivation
import Reckon.Proofs.Rendering.Spelling

/-!
# Writing tokens with blanks

Tokens are written one after the other with a blank on each side of an operator between operands and behind a comma
(`Phase.write`). Which operators these are is told by a machine with four states that passes over the tokens
(`Phase.next`). Where every token fits in its state (`Spaced`), the lexer finds the tokens again, each in its place
(`Tokens.ofCursor_write`). What a token asks of the text behind it depends on the state that it leads to
(`Phase.Heads`), and the next token that fits there meets it (`Spaced.heads`).
-/

namespace Reckon

open Lexeme

variable {g : Grammar} {o : Options}

/-! ## Phases -/

/-- What stands next in a formula. -/
inductive Phase
  /-- An operand, or an operator in front of one. -/
  | operand
  /-- The parenthesis behind an operator that is applied as a function is. -/
  | application
  /-- What may stand behind an operand. -/
  | operator
  /-- The name of a field. -/
  | field
  deriving DecidableEq

namespace Phase

/-- The phase behind a token. -/
def next : Phase → TokenKind → Phase
  | operand, .operator op => if op = "-" ∨ op = "+" then operand else application
  | operator, .operator op => if op = "." then field else if op = "!" then operator else operand
  | _, .leftParen | _, .comma => operand
  | _, _ => operator

/-- The phase behind tokens. -/
def run (ph : Phase) (ks : List TokenKind) : Phase :=
  ks.foldl next ph

@[simp] theorem run_nil (ph : Phase) : ph.run [] = ph := rfl

@[simp] theorem run_cons (ph : Phase) (k : TokenKind) (ks : List TokenKind) :
    ph.run (k :: ks) = (ph.next k).run ks := rfl

@[simp] theorem run_append (ph : Phase) (ks ls : List TokenKind) : ph.run (ks ++ ls) = (ph.run ks).run ls :=
  List.foldl_append

@[simp] theorem next_leftParen (ph : Phase) : ph.next .leftParen = .operand := by cases ph <;> rfl

@[simp] theorem next_rightParen (ph : Phase) : ph.next .rightParen = .operator := by cases ph <;> rfl

@[simp] theorem next_comma (ph : Phase) : ph.next .comma = .operand := by cases ph <;> rfl

@[simp] theorem next_number (ph : Phase) (v : Float) : ph.next (.number v) = .operator := by cases ph <;> rfl

@[simp] theorem next_name (ph : Phase) (n : String) : ph.next (.name n) = .operator := by cases ph <;> rfl

theorem next_sign {op : String} (h : op = "-" ∨ op = "+") : operand.next (.operator op) = .operand :=
  if_pos h

theorem next_applied {op : String} (h : ¬(op = "-" ∨ op = "+")) : operand.next (.operator op) = .application :=
  if_neg h

theorem next_infix {op : String} (h : ¬(op = "." ∨ op = "!")) : operator.next (.operator op) = .operand := by
  rw [not_or] at h
  rw [next, if_neg h.1, if_neg h.2]

theorem next_question : operator.next (.operator "?") = .operand := next_infix (by decide)

theorem next_colon : operator.next (.operator ":") = .operand := next_infix (by decide)

theorem next_power : operator.next (.operator "^") = .operand := next_infix (by decide)

theorem next_field (f : FieldToken) : field.next f.kind = .operator := by cases f <;> rfl

/-- What is written in front of a token: a blank, if it is an operator between operands. -/
def before : Phase → TokenKind → List Char
  | operator, .operator op => if op = "." ∨ op = "!" then [] else [' ']
  | _, _ => []

/-- What is written behind a token: a blank, if it is an operator between operands or a comma. -/
def behind (ph : Phase) : TokenKind → List Char
  | .comma => [' ']
  | k => ph.before k

end Phase

/-- What is written for a token itself. -/
def TokenKind.spelling : TokenKind → List Char
  | finish => []
  | operator op => op.toList
  | number v => (Rendered.ofNumber v).text
  | string s => Text.Quoted.encode s.toList
  | leftParen => ['(']
  | rightParen => [')']
  | comma => [',']
  | name n => n.toList

namespace Phase

/-- What is written for tokens. -/
def write (ph : Phase) : List TokenKind → List Char
  | [] => []
  | k :: ks => ph.before k ++ k.spelling ++ ph.behind k ++ (ph.next k).write ks

@[simp] theorem write_nil (ph : Phase) : ph.write [] = [] := rfl

theorem write_append (ph : Phase) (ks ls : List TokenKind) :
    ph.write (ks ++ ls) = ph.write ks ++ (ph.run ks).write ls := by
  induction ks generalizing ph with
  | nil => rfl
  | cons k ks ih => rw [List.cons_append, write, ih, write, run_cons, List.append_assoc _ _ ((run _ _).write ls)]

@[simp] theorem write_leftParen (ph : Phase) (ks : List TokenKind) :
    ph.write (.leftParen :: ks) = '(' :: operand.write ks := by
  cases ph <;> rfl

@[simp] theorem write_rightParen (ph : Phase) (ks : List TokenKind) :
    ph.write (.rightParen :: ks) = ')' :: operator.write ks := by
  cases ph <;> rfl

@[simp] theorem write_comma (ph : Phase) (ks : List TokenKind) :
    ph.write (.comma :: ks) = ',' :: ' ' :: operand.write ks := by
  cases ph <;> rfl

/-- An operator in front of its operand. -/
theorem write_prefix (op : String) (ks : List TokenKind) :
    operand.write (.operator op :: ks) = op.toList ++ (operand.next (.operator op)).write ks := by
  simp only [write, before, behind, TokenKind.spelling, List.nil_append, List.append_nil]

/-- An operator between operands. -/
theorem write_infix {op : String} (h : ¬(op = "." ∨ op = "!")) (ks : List TokenKind) :
    operator.write (.operator op :: ks) = ' ' :: op.toList ++ ' ' :: operand.write ks := by
  rw [write, next_infix h]
  simp [before, behind, if_neg h, TokenKind.spelling]

theorem write_dot (ks : List TokenKind) : operator.write (.operator "." :: ks) = '.' :: field.write ks := rfl

theorem write_field (f : FieldToken) (ks : List TokenKind) :
    field.write (f.kind :: ks) = f.text.toList ++ operator.write ks := by
  cases f <;> simp [write, before, behind, FieldToken.kind, FieldToken.text, TokenKind.spelling, next]

end Phase

/-! ## Tokens that fit -/

/-- A token can be written in this phase and in front of the token `next`. A number in front of a dot is of a kind. -/
def TokenKind.Fits (N : Float → Prop) (g : Grammar) (o : Options) (ph : Phase) (next : Option TokenKind) :
    TokenKind → Prop
  | finish => False
  | operator op => IsOperator g o op ∧ ph ≠ .application ∧ (ph = .field → IsWord op.toList)
  | number v => ph = .operand ∧ Unsigned v ∧ (next = some (.operator ".") → N v)
  | string _ => ph = .operand
  | leftParen => ph ≠ .field
  | rightParen => ph = .operand ∨ ph = .operator
  | comma => ph = .operator
  | name n => (ph = .operand ∨ ph = .field) ∧ IsVariable g o n ∧ (IsConstant g n → next = some (.operator "."))

/-- Every token can be written in its phase. Behind the last one there is the token `next`, if any. -/
def Spaced (N : Float → Prop) (g : Grammar) (o : Options) (next : Option TokenKind) :
    Phase → List TokenKind → Prop
  | _, [] => True
  | ph, k :: ks => k.Fits N g o ph (ks.head?.or next) ∧ Spaced N g o next (ph.next k) ks

namespace Spaced

variable {N M : Float → Prop} {next : Option TokenKind} {ph : Phase} {ks ls : List TokenKind}

theorem append_iff : Spaced N g o next ph (ks ++ ls) ↔
    Spaced N g o (ls.head?.or next) ph ks ∧ Spaced N g o next (ph.run ks) ls := by
  induction ks generalizing ph with
  | nil => simp [Spaced]
  | cons k ks ih =>
    rw [List.cons_append, Spaced, ih, Spaced, List.head?_append, Option.or_assoc, and_assoc, Phase.run_cons]

/-- Numbers in front of a dot may be of a wider kind. -/
theorem mono (hNM : ∀ v, N v → M v) (h : Spaced N g o next ph ks) : Spaced M g o next ph ks := by
  induction ks generalizing ph with
  | nil => trivial
  | cons k ks ih =>
    refine ⟨?_, ih h.2⟩
    have hk := h.1
    cases k with
    | number v => exact ⟨hk.1, hk.2.1, fun hdot => hNM v (hk.2.2 hdot)⟩
    | _ => exact hk

/-- What stands behind the tokens matters only to a number and to a name, and what is not a dot does not matter. -/
theorem change_next {next' : Option TokenKind} (h : Spaced N g o next ph ks) (hnext : next ≠ some (.operator "."))
    (hnumber : ∀ v ∈ ks.getLast?, ∀ x, v = .number x → next' = some (.operator ".") → N x) :
    Spaced N g o next' ph ks := by
  induction ks generalizing ph with
  | nil => trivial
  | cons k ks ih =>
    cases ks with
    | cons k' ks =>
      exact ⟨h.1, ih h.2 fun v hv => hnumber v (by rw [List.getLast?_cons_cons]; exact hv)⟩
    | nil =>
      refine ⟨?_, trivial⟩
      have hk := h.1
      cases k with
      | number v => exact ⟨hk.1, hk.2.1, fun hdot => hnumber _ rfl v rfl hdot⟩
      | name n => exact ⟨hk.1, hk.2.1, fun hconstant => absurd (hk.2.2 hconstant) hnext⟩
      | _ => exact hk

end Spaced

/-! ## The text behind a token -/

/-- What the text behind tokens that lead to a phase starts with. -/
def Phase.Heads (ph : Phase) (next : Option TokenKind) (rest : List Char) : Prop :=
  match ph with
  | operand => True
  | application => Follows false rest
  | operator => Follows (decide (next = some (.operator "."))) rest
  | field => ∀ c ∈ rest.head?, Numeral.isDigit c = false

theorem Phase.heads_nil (ph : Phase) : ph.Heads none [] := by
  cases ph with
  | operand => trivial
  | field => nofun
  | application | operator => exact .nil

/-- The number of this value is written so that a dot does not go on with it. -/
def WritesClosed (v : Float) : Prop :=
  Numeral.IsClosed (Rendered.ofNumber v).text

section

variable {N : Float → Prop} {ph : Phase} {next : Option TokenKind} {k : TokenKind} {ks : List TokenKind}
  {rest : List Char}

/-- Behind an operator that is applied there is a parenthesis. -/
theorem TokenKind.Fits.eq_leftParen (hk : k.Fits N g o .application next) : k = .leftParen := by
  cases k with
  | leftParen => rfl
  | operator op => exact absurd rfl hk.2.1
  | number v => cases hk.1
  | name n => rcases hk.1 with h | h <;> cases h
  | rightParen => rcases hk with h | h <;> cases h
  | finish | string | comma => cases hk

/-- Behind a field an operator may stand. -/
theorem TokenKind.Fits.next_field (hk : k.Fits N g o .field next) : Phase.field.next k = .operator := by
  cases k with
  | leftParen => exact absurd rfl hk
  | comma => cases hk
  | _ => rfl

/-- The text of a token that fits in a phase is what the phase asks for. -/
theorem TokenKind.Fits.heads (hk : k.Fits N g o ph next) (rest : List Char) :
    ph.Heads (some k) (ph.before k ++ k.spelling ++ rest) := by
  cases ph with
  | operand => trivial
  | application =>
    cases hk.eq_leftParen
    exact .of_mem (by decide)
  | operator =>
    cases k with
    | leftParen | rightParen | comma => exact Follows.of_mem (by decide)
    | operator op =>
      by_cases hdot : op = "."
      · subst hdot
        exact Follows.dot _
      · have hnext : some (TokenKind.operator op) ≠ some (.operator ".") := by simpa using hdot
        simp only [Phase.Heads, decide_eq_false hnext]
        by_cases hbang : op = "!"
        · subst hbang
          exact .of_mem (by decide)
        · have hbefore : Phase.operator.before (.operator op) = [' '] := if_neg (not_or.2 ⟨hdot, hbang⟩)
          rw [hbefore]
          exact .of_mem (by decide)
    | number v => cases hk.1
    | name n => rcases hk.1 with h | h <;> cases h
    | finish | string => cases hk
  | field =>
    have hplain : ∀ {cs : List Char}, StartsPlain cs → Phase.field.Heads (some k) ([] ++ cs ++ rest) :=
      fun h => (h.append rest).isDigit_eq_false
    cases k with
    | operator op => exact hplain (hk.2.2 rfl).1.startsPlain
    | name n => exact hplain hk.2.1.name.startsPlain
    | leftParen => exact absurd rfl hk
    | rightParen => rcases hk with h | h <;> cases h
    | number v => cases hk.1
    | finish | string | comma => cases hk

/-- What is written for tokens starts as the phase asks for. -/
theorem Spaced.heads (h : Spaced N g o next ph ks) (hrest : (ph.run ks).Heads next rest) :
    ph.Heads (ks.head?.or next) (ph.write ks ++ rest) := by
  cases ks with
  | nil => exact hrest
  | cons k ks =>
    rw [Phase.write, List.append_assoc, List.append_assoc]
    exact h.1.heads _

/-- A token that fits in a phase is found in front of what the next phase asks for. -/
theorem TokenKind.Fits.begins (hg : g.IsDotless) (hk : k.Fits WritesClosed g o ph next)
    (hrest : (ph.next k).Heads next rest) : Begins g o k.spelling (ph.behind k ++ rest) k := by
  cases k with
  | finish => exact hk.elim
  | number v =>
    rw [Phase.next_number] at hrest
    have hbehind : ph.behind (.number v) = [] := by cases ph <;> rfl
    rw [hbehind]
    exact .number hk.2.1 hrest fun hdot => hk.2.2 (of_decide_eq_true hdot)
  | name n =>
    rw [Phase.next_name] at hrest
    have hbehind : ph.behind (.name n) = [] := by cases ph <;> rfl
    rw [hbehind]
    exact .name hg hk.2.1 (fun hconstant => decide_eq_true (hk.2.2 hconstant)) hrest
  | string s => exact .string s
  | leftParen => exact .leftParen
  | rightParen => exact .rightParen
  | comma => exact .comma
  | operator op =>
    obtain ⟨hop, happlication, _⟩ := hk
    cases ph with
    | application => exact absurd rfl happlication
    | operand =>
      by_cases hsign : op = "-" ∨ op = "+"
      · exact .sign hsign hop.enabled
      · rw [Phase.next_applied hsign] at hrest
        exact .operator hop hrest
    | field => exact .operator hop hrest
    | operator =>
      by_cases hspread : op = "." ∨ op = "!"
      · have hbehind : Phase.operator.behind (.operator op) = [] := if_pos hspread
        rw [hbehind]
        rcases hspread with rfl | rfl
        · exact .dot hop.enabled hrest
        · exact .operator hop hrest
      · have hbehind : Phase.operator.behind (.operator op) = [' '] := if_neg hspread
        rw [hbehind]
        exact .operator hop (.of_mem (by decide))

end

/-! ## Reading what is written -/

/-- A cursor in front of a token reads it and goes on behind it. -/
theorem Begins.ofCursor {cs rest : List Char} {k : TokenKind} (h : Begins g o cs rest k) {c : Cursor}
    (hc : c.rest = cs ++ rest) : Tokens.ofCursor g o c =
      { Tokens.ofCursor g o (c.forward cs.length) with
        list := ⟨k, c.location, cs⟩ :: (Tokens.ofCursor g o (c.forward cs.length)).list } := by
  have hstep := Cursor.step_of_recognise (c := c) (hc ▸ h.gapLength_eq) (hc ▸ h.recognise_eq)
  rw [Tokens.ofCursor_of_token hstep, Cursor.token, hc, List.take_left]

/-- A cursor passes a blank. -/
theorem Tokens.ofCursor_blank {c : Cursor} {cs : List Char} (hc : c.rest = ' ' :: cs) :
    ofCursor g o c = ofCursor g o (c.forward 1) := by
  have hskip : c.skipGap = (c.forward 1).skipGap := by
    have hgap : gapLength .outside (' ' :: cs) = gapLength .outside cs + 1 := by
      rw [gapLength, if_pos (by decide), Nat.add_comm]
    simp [Cursor.skipGap, Cursor.forward, hc, hgap]
  have hstep : c.step g o = (c.forward 1).step g o := by rw [Cursor.step, Cursor.step, hskip]
  cases h : (c.forward 1).step g o with
  | token t next => rw [ofCursor_of_token (hstep.trans h), ofCursor_of_token h]
  | finish t => rw [ofCursor_of_finish (hstep.trans h), ofCursor_of_finish h]
  | fault e => rw [ofCursor_of_fault (hstep.trans h), ofCursor_of_fault h]

theorem Cursor.forward_forward (c : Cursor) (m n : Nat) : (c.forward m).forward n = c.forward (m + n) := by
  simp only [forward, List.drop_drop, ← Location.afterText_append, ← List.take_add]

theorem Cursor.rest_forward {c : Cursor} {cs rest : List Char} (hc : c.rest = cs ++ rest) :
    (c.forward cs.length).rest = rest := by
  rw [forward, hc, List.drop_left]

/-- A cursor passes a blank, if there is one. -/
theorem Tokens.ofCursor_blanks {c : Cursor} {bs cs : List Char} (hbs : bs = [] ∨ bs = [' ']) (hc : c.rest = bs ++ cs) :
    ofCursor g o c = ofCursor g o (c.forward bs.length) := by
  rcases hbs with rfl | rfl
  · rfl
  · exact ofCursor_blank hc

theorem Phase.before_eq (ph : Phase) (k : TokenKind) : ph.before k = [] ∨ ph.before k = [' '] := by
  unfold before
  split
  · split
    · exact .inl rfl
    · exact .inr rfl
  · exact .inl rfl

theorem Phase.behind_eq (ph : Phase) (k : TokenKind) : ph.behind k = [] ∨ ph.behind k = [' '] := by
  cases k with
  | comma => exact .inr rfl
  | _ => exact ph.before_eq _

/-- A cursor in front of what is written for tokens reads them and goes on behind it. -/
theorem Tokens.ofCursor_write (hg : g.IsDotless) {next : Option TokenKind} {ph : Phase} {ks : List TokenKind}
    (h : Spaced WritesClosed g o next ph ks) {rest : List Char} (hrest : (ph.run ks).Heads next rest) {c : Cursor}
    (hc : c.rest = ph.write ks ++ rest) : ∃ ts : List Token, ts.map Token.kind = ks ∧
      ofCursor g o c = { ofCursor g o (c.forward (ph.write ks).length) with
        list := ts ++ (ofCursor g o (c.forward (ph.write ks).length)).list } := by
  induction ks generalizing ph c with
  | nil => exact ⟨[], rfl, rfl⟩
  | cons k ks ih =>
    obtain ⟨hk, hks⟩ := h
    simp only [Phase.write, List.append_assoc] at hc
    have hbegins := hk.begins hg (hks.heads hrest)
    -- the cursors in front of the token, behind it, and behind the blank that follows
    have hc₁ := Cursor.rest_forward hc
    have hc₂ := Cursor.rest_forward hc₁
    have hc₃ := Cursor.rest_forward hc₂
    obtain ⟨ts, hkinds, hlater⟩ := ih hks hrest hc₃
    refine ⟨⟨k, (c.forward (ph.before k).length).location, k.spelling⟩ :: ts, congrArg (k :: ·) hkinds, ?_⟩
    rw [ofCursor_blanks (ph.before_eq k) hc, hbegins.ofCursor hc₁, ofCursor_blanks (ph.behind_eq k) hc₂, hlater]
    simp only [Cursor.forward_forward, Phase.write, List.length_append, Nat.add_assoc, List.cons_append]

/-- A cursor in front of what is written for tokens, and nothing else, reads them without an error. -/
theorem Tokens.ofCursor_write_all (hg : g.IsDotless) {ph : Phase} {ks : List TokenKind}
    (h : Spaced WritesClosed g o none ph ks) {c : Cursor} (hc : c.rest = ph.write ks) :
    (∃ e, (ofCursor g o c).ending = .ok e) ∧ (ofCursor g o c).list.map Token.kind = ks := by
  rw [← List.append_nil (ph.write ks)] at hc
  obtain ⟨ts, hkinds, htokens⟩ := ofCursor_write hg h (Phase.heads_nil _) hc
  have hnone : Scans g o [] [] := .finish rfl
  obtain ⟨hending, hlist⟩ := hnone.ofCursor _ (Cursor.rest_forward hc)
  rw [List.map_eq_nil_iff] at hlist
  rw [htokens, hlist, List.append_nil]
  exact ⟨hending, hkinds⟩

/-- The tokens of a code that is written for them. -/
theorem Spaced.scans (hg : g.IsDotless) {ks : List TokenKind} (h : Spaced WritesClosed g o none .operand ks)
    {code : String} (hcode : code.toList = Phase.operand.write ks) : Scans g o code.toList ks :=
  scans_iff.2 (Tokens.ofCursor_write_all hg h hcode)

end Reckon
