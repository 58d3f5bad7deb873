import Reckon.Proofs.Rendering.Canonical

/-!
# How deep tokens stand

The depths of tokens, summed up over all but the parentheses (`depths`), are the least where an expression is written:
any other derivation of the expression has its tokens at least as deep, up to one for each number in front of a dot
(`seams`), which is written in parentheses (`Derivation.depths_kinds_le`). This holds of derivations whose prefix
operators are signs unless they are applied to a group (`Derivation.Plain`), and those of tokens that fit where they
stand are such (`Derivation.plain_of_spaced`).
-/

namespace Reckon

variable {g : Grammar} {o : Options}

/-! ## Depths -/

namespace TokenKind

/-- Is this a parenthesis? -/
def isParen : TokenKind → Bool
  | leftParen | rightParen => true
  | _ => false

/-- By how much the depth behind a token is greater than in front of it. -/
def turn : TokenKind → Int
  | leftParen => 1
  | rightParen => -1
  | _ => 0

/-- Is this a number? -/
def isNumber : TokenKind → Bool
  | number _ => true
  | _ => false

end TokenKind

/-- How many tokens are no parentheses. -/
def wordCount (ks : List TokenKind) : Nat :=
  ks.countP fun k => !k.isParen

/-- By how much the depth behind tokens is greater than in front of them. -/
def nesting (ks : List TokenKind) : Int :=
  (ks.map TokenKind.turn).sum

/-- The depths of all tokens but the parentheses, summed up from the depth `d` on. -/
def depths (d : Int) : List TokenKind → Int
  | [] => 0
  | k :: ks => (if k.isParen then 0 else d) + depths (d + k.turn) ks

/-- How many numbers are directly in front of a dot. -/
def seams : List TokenKind → Nat
  | [] => 0
  | k :: ks => (if k.isNumber ∧ ks.head? = some (.operator ".") then 1 else 0) + seams ks

section

variable {k : TokenKind} {ks ls : List TokenKind} {d : Int}

@[simp] theorem wordCount_nil : wordCount [] = 0 := rfl

@[simp] theorem wordCount_append : wordCount (ks ++ ls) = wordCount ks + wordCount ls :=
  List.countP_append

@[simp] theorem nesting_nil : nesting [] = 0 := rfl

@[simp] theorem nesting_cons : nesting (k :: ks) = k.turn + nesting ks := by simp [nesting]

@[simp] theorem nesting_append : nesting (ks ++ ls) = nesting ks + nesting ls := by simp [nesting]

theorem wordCount_cons : wordCount (k :: ks) = wordCount ks + if k.isParen then 0 else 1 := by
  rw [wordCount, List.countP_cons, wordCount]
  cases k.isParen <;> rfl

theorem wordCount_cons_le : wordCount (k :: ks) ≤ wordCount ks + 1 := by
  rw [wordCount_cons]
  split <;> omega

theorem depths_append (d : Int) (ks ls : List TokenKind) :
    depths d (ks ++ ls) = depths d ks + depths (d + nesting ks) ls := by
  induction ks generalizing d with
  | nil => simp [depths]
  | cons k ks ih =>
    rw [List.cons_append, depths, ih, depths, nesting_cons, Int.add_assoc d]
    omega

/-- One step deeper, every token but a parenthesis counts one more. -/
theorem depths_succ (d : Int) (ks : List TokenKind) : depths (d + 1) ks = depths d ks + wordCount ks := by
  induction ks generalizing d with
  | nil => rfl
  | cons k ks ih =>
    have hturn : d + 1 + k.turn = d + k.turn + 1 := by omega
    rw [depths, hturn, ih, depths, wordCount_cons]
    cases k.isParen with
    | true => simp
    | false => simp; omega

@[simp] theorem depths_operator {op : String} : depths 0 (.operator op :: ks) = depths 0 ks := by
  simp [depths, TokenKind.isParen, TokenKind.turn]

@[simp] theorem depths_comma : depths 0 (.comma :: ks) = depths 0 ks := by
  simp [depths, TokenKind.isParen, TokenKind.turn]

/-- Numbers in front of dots are counted on both sides, and one more may be where these meet. -/
theorem seams_append (ks ls : List TokenKind) : seams (ks ++ ls) = seams ks + seams ls +
    if ks.getLast?.any TokenKind.isNumber ∧ ls.head? = some (.operator ".") then 1 else 0 := by
  induction ks with
  | nil => simp [seams]
  | cons k ks ih =>
    rw [List.cons_append, seams, ih, seams]
    cases ks with
    | nil =>
      simp [seams, Nat.add_comm]
      congr
    | cons k' ks =>
      rw [List.getLast?_cons_cons, List.cons_append, List.head?_cons, List.head?_cons]
      omega

theorem seams_le_append (ks ls : List TokenKind) : seams ks + seams ls ≤ seams (ks ++ ls) := by
  rw [seams_append]
  omega

end

section

variable {parens : Bool} {ks : List TokenKind}

@[simp] theorem wordCount_enclose : wordCount (enclose parens ks) = wordCount ks := by
  unfold enclose
  split
  · simp [wordCount_cons, TokenKind.isParen]
  · rfl

@[simp] theorem nesting_enclose : nesting (enclose parens ks) = nesting ks := by
  unfold enclose
  split
  · simp [TokenKind.turn]
  · rfl

theorem depths_enclose : depths 0 (enclose parens ks) = depths 0 ks + if parens then wordCount ks else 0 := by
  unfold enclose
  split
  · have hinside := depths_succ 0 ks
    rw [Int.zero_add] at hinside
    simp [depths, depths_append, TokenKind.isParen, TokenKind.turn, hinside]
  · simp

@[simp] theorem seams_enclose : seams (enclose true ks) = seams ks := by
  rw [enclose, if_pos rfl, List.cons_append, seams, seams_append]
  simp [TokenKind.isNumber, seams]

end

/-- Where no number may be in front of a dot there is none. -/
theorem Spaced.seams_eq_zero {next : Option TokenKind} {ph : Phase} {ks : List TokenKind}
    (h : Spaced (fun _ => False) g o next ph ks) : seams ks = 0 := by
  induction ks generalizing ph with
  | nil => rfl
  | cons k ks ih =>
    rw [seams, ih h.2, if_neg]
    rintro ⟨hnumber, hdot⟩
    have hk := h.1
    rw [hdot] at hk
    cases k with
    | number v => exact hk.2.2 rfl
    | _ => cases hnumber

/-! ## Derivations -/

mutual

/-- Every prefix operator is a sign or applied to a group, and every number is unsigned. -/
def Derivation.Plain : {c : Category} → Derivation c → Prop
  | _, .simple x => x.Plain
  | _, .choice c x y => c.Plain ∧ x.Plain ∧ y.Plain
  | _, .operand x => x.Plain
  | _, .binary x _ y => x.Plain ∧ y.Plain
  | _, .unsigned x => x.Plain
  | _, .signed op x => (op = "-" ∨ op = "+") ∧ x.Plain
  | _, .base x => x.Plain
  | _, .power x y => x.Plain ∧ y.Plain
  | _, .applied x => x.Plain
  | _, .factorial x => x.Plain
  | _, .operation _ x => x.Plain
  | _, .called x => x.Plain
  | _, .uncalled x => x.Plain
  | _, .invocation f => f.Plain
  | _, .call f args => f.Plain ∧ args.Plain
  | _, .whole x => x.Plain
  | _, .member x _ => x.Plain
  | _, .name _ => True
  | _, .number v => Unsigned v
  | _, .string _ => True
  | _, .inner x => x.Plain
  | _, .group x => x.Plain

/-- The same for arguments. -/
def Arguments.Plain : Arguments → Prop
  | .last x => x.Plain
  | .more x rest => x.Plain ∧ rest.Plain

end

mutual

/-- Behind a plain derivation an operator may stand. -/
theorem Derivation.run_tokens : {c : Category} → (d : Derivation c) → d.Proper g o → d.Plain →
    Phase.operand.run d.tokens = .operator
  | _, .simple x, hd, h | _, .operand x, hd, h | _, .unsigned x, hd, h | _, .base x, hd, h | _, .applied x, hd, h
  | _, .called x, hd, h | _, .uncalled x, hd, h | _, .whole x, hd, h | _, .inner x, hd, h => x.run_tokens hd h
  | _, .choice c x y, ⟨hc, hx, hy⟩, ⟨hc', hx', hy'⟩ => by
    simp only [Derivation.tokens, Phase.run_append, Phase.run_cons, c.run_tokens hc hc', Phase.next_question,
      x.run_tokens hx hx', Phase.next_colon, y.run_tokens hy hy']
  | _, .binary (l := l) x op y, ⟨hx, hop, hy⟩, ⟨hx', hy'⟩ => by
    have hinfix := Phase.next_infix (Expr.not_dot_of_binary (.inr ⟨l, hop⟩))
    rw [Derivation.tokens, Phase.run_append, x.run_tokens hx hx', Phase.run_cons, hinfix, y.run_tokens hy hy']
  | _, .signed op x, ⟨_, _, hx⟩, ⟨hsign, hx'⟩ => by
    rw [Derivation.tokens, Phase.run_cons, Phase.next_sign hsign, x.run_tokens hx hx']
  | _, .power x y, ⟨hx, hy⟩, ⟨hx', hy'⟩ => by
    rw [Derivation.tokens, Phase.run_append, x.run_tokens hx hx', Phase.run_cons, Phase.next_power, y.run_tokens hy hy']
  | _, .factorial x, hx, hx' => by
    rw [Derivation.tokens, Phase.run_append, x.run_tokens hx hx']
    rfl
  | _, .operation op (.group x), _, _ => by simp [Derivation.tokens]
  | _, .invocation f, _, _ | _, .call f args, _, _ => by simp [Derivation.tokens]
  | _, .member x field, ⟨hx, _⟩, hx' => by
    rw [Derivation.tokens, Phase.run_append, x.run_tokens hx hx']
    exact Phase.next_field field
  | _, .name n, _, _ | _, .number v, _, _ | _, .string s, _, _ => rfl
  | _, .group x, _, _ => by simp [Derivation.tokens]

theorem Arguments.run_tokens : (args : Arguments) → args.Proper g o → args.Plain →
    Phase.operand.run args.tokens = .operator
  | .last x, hx, hx' => x.run_tokens hx hx'
  | .more x rest, ⟨_, hrest⟩, ⟨_, hrest'⟩ => by
    rw [Arguments.tokens, Phase.run_append, Phase.run_cons, Phase.next_comma, rest.run_tokens hrest hrest']

end

section

variable {N : Float → Prop}

mutual

/-- A derivation of tokens that fit where they stand is plain. -/
theorem Derivation.plain_of_spaced : {c : Category} → (d : Derivation c) → d.Proper g o →
    ∀ {next : Option TokenKind}, Spaced N g o next .operand d.tokens → d.Plain
  | _, .simple x, hd, _, h | _, .operand x, hd, _, h | _, .unsigned x, hd, _, h | _, .base x, hd, _, h
  | _, .applied x, hd, _, h | _, .called x, hd, _, h | _, .uncalled x, hd, _, h | _, .whole x, hd, _, h
  | _, .inner x, hd, _, h => x.plain_of_spaced hd h
  | _, .choice c x y, ⟨hc, hx, hy⟩, _, h => by
    rw [Derivation.tokens, List.append_assoc, Spaced.append_iff] at h
    have hcplain := c.plain_of_spaced hc h.1
    rw [c.run_tokens hc hcplain, List.cons_append, Spaced, Phase.next_question, Spaced.append_iff] at h
    have hxplain := x.plain_of_spaced hx h.2.2.1
    rw [x.run_tokens hx hxplain, Spaced, Phase.next_colon] at h
    exact ⟨hcplain, hxplain, y.plain_of_spaced hy h.2.2.2.2⟩
  | _, .binary (l := l) x op y, ⟨hx, hop, hy⟩, _, h => by
    rw [Derivation.tokens, Spaced.append_iff] at h
    have hxplain := x.plain_of_spaced hx h.1
    rw [x.run_tokens hx hxplain, Spaced, Phase.next_infix (Expr.not_dot_of_binary (.inr ⟨l, hop⟩))] at h
    exact ⟨hxplain, y.plain_of_spaced hy h.2.2⟩
  | _, .signed op x, ⟨_, hparen, hx⟩, _, h => by
    obtain ⟨hop, h⟩ := h
    by_cases hsign : op = "-" ∨ op = "+"
    · rw [Phase.next_sign hsign] at h
      exact ⟨hsign, x.plain_of_spaced hx h⟩
    -- an operator that is no sign is in front of a parenthesis, which is left to operators that are applied
    · obtain ⟨k, ks, hks, _⟩ := x.exists_head
      rw [Phase.next_applied hsign, hks] at h
      rw [← or_assoc, or_iff_right hsign, hks, h.1.eq_leftParen] at hparen
      exact absurd rfl hparen
  | _, .power x y, ⟨hx, hy⟩, _, h => by
    rw [Derivation.tokens, Spaced.append_iff] at h
    have hxplain := x.plain_of_spaced hx h.1
    rw [x.run_tokens hx hxplain, Spaced, Phase.next_power] at h
    exact ⟨hxplain, y.plain_of_spaced hy h.2.2⟩
  | _, .factorial x, hx, _, h => by
    rw [Derivation.tokens, Spaced.append_iff] at h
    exact x.plain_of_spaced hx h.1
  | _, .operation op (.group x), ⟨_, hminus, hplus, hx⟩, _, h => by
    obtain ⟨_, h⟩ := h
    rw [Derivation.tokens, List.cons_append, Phase.next_applied (not_or.2 ⟨hminus, hplus⟩), Spaced,
      Phase.next_leftParen, Spaced.append_iff] at h
    exact x.plain_of_spaced hx h.2.1
  | _, .invocation f, hf, _, h => by
    rw [Derivation.tokens, Spaced.append_iff] at h
    exact f.plain_of_spaced hf h.1
  | _, .call f args, ⟨hf, hargs⟩, _, h => by
    rw [Derivation.tokens, List.append_assoc, Spaced.append_iff, List.cons_append, Spaced, Phase.next_leftParen,
      Spaced.append_iff] at h
    exact ⟨f.plain_of_spaced hf h.1, args.plain_of_spaced hargs h.2.2.1⟩
  | _, .member x field, ⟨hx, _⟩, _, h => by
    rw [Derivation.tokens, Spaced.append_iff] at h
    exact x.plain_of_spaced hx h.1
  | _, .name n, _, _, _ | _, .string s, _, _, _ => trivial
  | _, .number v, _, _, h => h.1.2.1
  | _, .group x, hx, _, h => by
    rw [Derivation.tokens, List.cons_append, Spaced, Phase.next_leftParen, Spaced.append_iff] at h
    exact x.plain_of_spaced hx h.2.1

theorem Arguments.plain_of_spaced : (args : Arguments) → args.Proper g o → ∀ {next : Option TokenKind},
    Spaced N g o next .operand args.tokens → args.Plain
  | .last x, hx, _, h => x.plain_of_spaced hx h
  | .more x rest, ⟨hx, hrest⟩, _, h => by
    rw [Arguments.tokens, Spaced.append_iff] at h
    have hxplain := x.plain_of_spaced hx h.1
    rw [x.run_tokens hx hxplain, Spaced, Phase.next_comma] at h
    exact ⟨hxplain, rest.plain_of_spaced hrest h.2.2⟩

end

end

/-! ## Words and nesting -/

@[simp] theorem FieldToken.turn_kind (f : FieldToken) : f.kind.turn = 0 := by cases f <;> rfl

@[simp] theorem FieldToken.isParen_kind (f : FieldToken) : f.kind.isParen = false := by cases f <;> rfl

@[simp] theorem TokenKind.turn_operator (op : String) : (operator op).turn = 0 := rfl

@[simp] theorem TokenKind.turn_comma : comma.turn = 0 := rfl

@[simp] theorem TokenKind.isParen_operator (op : String) : (operator op).isParen = false := rfl

@[simp] theorem TokenKind.isParen_comma : comma.isParen = false := rfl

mutual

/-- The parentheses of a derivation are closed. -/
@[simp] theorem Derivation.nesting_tokens : {c : Category} → (d : Derivation c) → nesting d.tokens = 0
  | _, .simple x | _, .operand x | _, .unsigned x | _, .base x | _, .applied x | _, .called x | _, .uncalled x
  | _, .whole x | _, .inner x => x.nesting_tokens
  | _, .choice c x y => by simp [Derivation.tokens, c.nesting_tokens, x.nesting_tokens, y.nesting_tokens]
  | _, .binary x _ y | _, .power x y => by simp [Derivation.tokens, x.nesting_tokens, y.nesting_tokens]
  | _, .signed _ x | _, .factorial x | _, .operation _ x | _, .member x _ => by
    simp [Derivation.tokens, x.nesting_tokens]
  | _, .invocation f => by simp [Derivation.tokens, f.nesting_tokens, TokenKind.turn]
  | _, .call f args => by simp [Derivation.tokens, f.nesting_tokens, args.nesting_tokens, TokenKind.turn]
  | _, .name _ | _, .number _ | _, .string _ => rfl
  | _, .group x => by simp [Derivation.tokens, x.nesting_tokens, TokenKind.turn]

theorem Arguments.nesting_tokens : (args : Arguments) → nesting args.tokens = 0
  | .last x => x.nesting_tokens
  | .more x rest => by simp [Arguments.tokens, x.nesting_tokens, rest.nesting_tokens]

end

namespace Expr

mutual

/-- The parentheses of an expression are closed. -/
@[simp] theorem nesting_kinds : (e : Expr) → nesting (e.kinds g o) = 0
  | .number _ | .string _ | .name _ => rfl
  | .unary op x => by
    unfold kinds
    split_ifs <;> simp [x.nesting_kinds]
  | .binary op x y => by simp [kinds, x.nesting_kinds, y.nesting_kinds]
  | .choice c x y => by simp [kinds, c.nesting_kinds, x.nesting_kinds, y.nesting_kinds]
  | .call f args => by simp [kinds, f.nesting_kinds, nestingAll_kinds args]
  | .member x field => by simp [kinds, x.nesting_kinds]

theorem nestingAll_kinds : (es : List Expr) → nesting ([.comma].intercalate (allKinds g o es)) = 0
  | [] => rfl
  | [x] => by simp [allKinds, x.nesting_kinds]
  | x :: y :: rest => by
    have hlater := nestingAll_kinds (y :: rest)
    simp only [allKinds, List.intercalate_cons_cons] at hlater ⊢
    simp [x.nesting_kinds, hlater]

end

end Expr

/-- Arguments are written with commas between them. -/
theorem Arguments.intercalate_kinds (x : Expr) (rest : Arguments) :
    [.comma].intercalate (Expr.allKinds g o (x :: rest.exprs)) =
      x.kinds g o ++ .comma :: [.comma].intercalate (Expr.allKinds g o rest.exprs) := by
  cases rest <;> simp [Arguments.exprs, Expr.allKinds, List.intercalate_cons_cons]

mutual

/-- A derivation has as many words as its expression is written with. -/
theorem Derivation.wordCount_tokens : {c : Category} → (d : Derivation c) →
    wordCount d.tokens = wordCount (d.expr.kinds g o)
  | _, .simple x | _, .operand x | _, .unsigned x | _, .base x | _, .applied x | _, .called x | _, .uncalled x
  | _, .whole x | _, .inner x => x.wordCount_tokens
  | _, .choice c x y => by
    simp [Derivation.tokens, Derivation.expr, Expr.kinds, wordCount_cons, c.wordCount_tokens, x.wordCount_tokens,
      y.wordCount_tokens]
  | _, .binary x _ y | _, .power x y => by
    simp [Derivation.tokens, Derivation.expr, Expr.kinds, wordCount_cons, x.wordCount_tokens, y.wordCount_tokens]
  | _, .signed _ x | _, .operation _ x | _, .factorial x => by
    rw [Derivation.tokens, Derivation.expr, Expr.kinds]
    split_ifs <;> simp [wordCount_cons, x.wordCount_tokens]
  | _, .invocation f => by
    simp [Derivation.tokens, Derivation.expr, Expr.kinds, Expr.allKinds, wordCount_cons, f.wordCount_tokens,
      TokenKind.isParen]
  | _, .call f args => by
    simp [Derivation.tokens, Derivation.expr, Expr.kinds, wordCount_cons, f.wordCount_tokens, args.wordCount_tokens,
      TokenKind.isParen]
  | _, .member x field => by
    simp [Derivation.tokens, Derivation.expr, Expr.kinds, wordCount_cons, x.wordCount_tokens]
  | _, .name _ | _, .number _ | _, .string _ => rfl
  | _, .group x => by
    simp [Derivation.tokens, Derivation.expr, wordCount_cons, x.wordCount_tokens, TokenKind.isParen]

theorem Arguments.wordCount_tokens : (args : Arguments) →
    wordCount args.tokens = wordCount ([.comma].intercalate (Expr.allKinds g o args.exprs))
  | .last x => by simpa [Arguments.tokens, Arguments.exprs, Expr.allKinds] using x.wordCount_tokens
  | .more x rest => by
    rw [Arguments.exprs, Arguments.intercalate_kinds]
    simp [Arguments.tokens, wordCount_cons, x.wordCount_tokens, rest.wordCount_tokens]

end

/-- A derivation is not made of parentheses alone. -/
theorem Derivation.wordCount_pos : {c : Category} → (d : Derivation c) → 0 < wordCount d.tokens
  | _, .simple x | _, .operand x | _, .unsigned x | _, .base x | _, .applied x | _, .called x | _, .uncalled x
  | _, .whole x | _, .inner x => x.wordCount_pos
  | _, .choice c x y => by simp [Derivation.tokens, wordCount_cons]
  | _, .binary x _ y | _, .power x y => by simp [Derivation.tokens, wordCount_cons]
  | _, .signed _ x | _, .factorial x | _, .operation _ x | _, .member x _ => by
    simp [Derivation.tokens, wordCount_cons]
  | _, .invocation f | _, .call f _ => by simp [Derivation.tokens, f.wordCount_pos]
  | _, .name _ | _, .number _ | _, .string _ => Nat.one_pos
  | _, .group x => by simpa [Derivation.tokens, wordCount_cons, TokenKind.isParen] using x.wordCount_pos

/-- A derivation of one word with no parenthesis behind it derives the word alone. -/
theorem Derivation.eq_singleton : {c : Category} → (d : Derivation c) → wordCount d.tokens = 1 →
    ∀ {k : TokenKind}, d.tokens.getLast? = some k → k.isParen = false → d.tokens = [k]
  | _, .simple x, h, _, hk, hparen | _, .operand x, h, _, hk, hparen | _, .unsigned x, h, _, hk, hparen
  | _, .base x, h, _, hk, hparen | _, .applied x, h, _, hk, hparen | _, .called x, h, _, hk, hparen
  | _, .uncalled x, h, _, hk, hparen | _, .whole x, h, _, hk, hparen | _, .inner x, h, _, hk, hparen =>
    x.eq_singleton h hk hparen
  | _, .choice c _ _, h, _, _, _ => by
    have hc := c.wordCount_pos
    simp only [Derivation.tokens, wordCount_append, wordCount_cons, TokenKind.isParen_operator, Bool.false_eq_true,
      if_false] at h
    omega
  | _, .binary x _ _, h, _, _, _ | _, .power x _, h, _, _, _ | _, .signed _ x, h, _, _, _
  | _, .factorial x, h, _, _, _ | _, .operation _ x, h, _, _, _ | _, .member x _, h, _, _, _ => by
    have hx := x.wordCount_pos
    simp only [Derivation.tokens, wordCount_append, wordCount_cons, TokenKind.isParen_operator, Bool.false_eq_true,
      if_false] at h
    omega
  | _, .invocation f, _, _, hk, hparen => by
    simp [Derivation.tokens] at hk
    subst hk
    cases hparen
  | _, .call _ _, _, _, hk, hparen | _, .group _, _, _, hk, hparen => by
    rw [Derivation.tokens, List.getLast?_concat] at hk
    cases hk
    cases hparen
  | _, .name _, _, _, hk, _ | _, .number _, _, _, hk, _ | _, .string _, _, _, hk, _ => by
    cases hk
    rfl

/-! ## The least depths -/

/-- The depths of tokens, and one for each number in front of a dot. -/
def burden (ks : List TokenKind) : Int :=
  depths 0 ks + seams ks

section

variable {parens parens' : Bool} {ks ls : List TokenKind}

theorem depths_append_of_nesting (h : nesting ks = 0) : depths 0 (ks ++ ls) = depths 0 ks + depths 0 ls := by
  rw [depths_append, h]
  rfl

@[simp] theorem burden_operator {op : String} : burden (.operator op :: ks) = burden ks := by
  simp [burden, seams, TokenKind.isNumber]

@[simp] theorem burden_comma : burden (.comma :: ks) = burden ks := by
  simp [burden, seams, TokenKind.isNumber]

theorem depths_le_burden : depths 0 ks ≤ burden ks := by
  unfold burden
  omega

/-- Tokens that are not deeper than others, with tokens behind them that are not. -/
theorem depths_append_le {ks' ls' : List TokenKind} (hks : nesting ks = 0) (hks' : nesting ks' = 0)
    (hfirst : depths 0 ks ≤ burden ks') (hlater : depths 0 ls ≤ burden ls') :
    depths 0 (ks ++ ls) ≤ burden (ks' ++ ls') := by
  have hseams := seams_le_append ks' ls'
  unfold burden at hfirst hlater ⊢
  rw [depths_append_of_nesting hks, depths_append_of_nesting hks']
  omega

theorem depths_operator_le {op : String} {ls' : List TokenKind} (h : depths 0 ls ≤ burden ls') :
    depths 0 (.operator op :: ls) ≤ burden (.operator op :: ls') := by
  rw [depths_operator, burden_operator]
  exact h

theorem burden_enclose : burden (enclose true ks) = burden ks + wordCount ks := by
  rw [burden, depths_enclose, seams_enclose, burden, if_pos rfl]
  omega

theorem depths_enclose_le (h : parens = true → parens' = true) :
    depths 0 (enclose parens ks) ≤ depths 0 (enclose parens' ks) := by
  cases parens with
  | true => rw [h rfl]
  | false =>
    rw [depths_enclose, depths_enclose, if_neg Bool.false_ne_true]
    split <;> omega

end

/-- What a category is written with without parentheses. -/
def Category.priority : Category → Priority
  | expression => .conditional
  | level l => l.priority
  | factor => .sign
  | power => .power
  | postfixed | application => .factorial
  | callee => .call
  | fields => .member
  | atom | group => .atom

theorem Level.priority_operand (l : Level) : l.operand.priority = l.operandPriority := by
  cases l <;> rfl

section

variable {e : Expr} {ks : List TokenKind} {p q : Priority}

@[simp] theorem enclose_conditional : enclose (e.isLooser .conditional) ks = ks := by
  have hleast : ¬e.rendered.priority.rank < Priority.conditional.rank := Nat.not_lt_zero _
  rw [Expr.isLooser, decide_eq_false hleast]
  rfl

theorem enclose_of_priority (h : e.rendered.priority = p) : enclose (e.isLooser p) ks = ks := by
  rw [Expr.isLooser, h, decide_eq_false (Nat.lt_irrefl _)]
  rfl

/-- Where a looser priority is asked for, there are not more parentheses. -/
theorem depths_loosen {n : Int} (hrank : p.rank ≤ q.rank) (h : depths 0 (enclose (e.isLooser q) ks) ≤ n) :
    depths 0 (enclose (e.isLooser p) ks) ≤ n := by
  refine (depths_enclose_le fun hp => ?_).trans h
  rw [Expr.isLooser, decide_eq_true_eq] at hp ⊢
  omega

end

/-- Tokens in parentheses are not deeper than others in parentheses. -/
theorem depths_enclose_le_enclose (parens : Bool) {ks ks' : List TokenKind} (hwords : wordCount ks = wordCount ks')
    (h : depths 0 ks ≤ burden ks') : depths 0 (enclose parens ks) ≤ burden (enclose true ks') := by
  have hparens : depths 0 (enclose parens ks) ≤ depths 0 (enclose true ks) := depths_enclose_le fun _ => rfl
  refine hparens.trans ?_
  rw [depths_enclose, if_pos rfl, burden_enclose]
  omega

theorem depths_field (f : FieldToken) : depths 0 [.operator ".", f.kind] = 0 := by
  simp [depths]

theorem depths_field_le {f f' : FieldToken} : depths 0 [.operator ".", f.kind] ≤ burden [.operator ".", f'.kind] := by
  rw [depths_field, ← depths_field f']
  exact depths_le_burden

mutual

/-- Where an expression is written the depths are the least. -/
theorem Derivation.depths_kinds_le : {c : Category} → (d : Derivation c) → d.Proper g o → d.Plain →
    depths 0 (enclose (d.expr.isLooser c.priority) (d.expr.kinds g o)) ≤ burden d.tokens
  | _, .simple x, hd, h | _, .unsigned x, hd, h | _, .base x, hd, h | _, .applied x, hd, h | _, .called x, hd, h
  | _, .uncalled x, hd, h | _, .whole x, hd, h | _, .inner x, hd, h =>
    depths_loosen (by decide) (x.depths_kinds_le hd h)
  | _, .operand (l := l) x, hd, h => depths_loosen (by cases l <;> decide) (x.depths_kinds_le hd h)
  | _, .choice c x y, ⟨hc, hx, hy⟩, ⟨hc', hx', hy'⟩ => by
    have hcleast := c.depths_kinds_le hc hc'
    have hxleast := x.depths_kinds_le hx hx'
    have hyleast := y.depths_kinds_le hy hy'
    simp only [Category.priority, enclose_conditional] at hxleast hyleast
    rw [Derivation.expr, Category.priority, enclose_conditional, Expr.kinds]
    refine depths_append_le (by simp) (by simp) ?_
      (depths_operator_le hyleast)
    exact depths_append_le (by simp) c.nesting_tokens hcleast (depths_operator_le hxleast)
  | _, .binary (l := l) x op y, ⟨hx, hop, hy⟩, ⟨hx', hy'⟩ => by
    have hxleast := x.depths_kinds_le hx hx'
    have hyleast := y.depths_kinds_le hy hy'
    rw [l.priority_operand] at hyleast
    have hpriorities := Level.ofBinary_of_mem hop
    have hpriority : (Expr.binary op x.expr y.expr).rendered.priority = l.priority := congrArg Prod.fst hpriorities
    rw [Derivation.expr, Category.priority, enclose_of_priority hpriority, Expr.kinds, hpriorities]
    exact depths_append_le (by simp) x.nesting_tokens hxleast (depths_operator_le hyleast)
  | _, .signed op x, ⟨_, _, hx⟩, ⟨hsign, hx'⟩ => by
    have hleast := x.depths_kinds_le hx hx'
    have hpriority : (Expr.unary op x.expr).rendered.priority = .sign := by
      simp [Expr.rendered, Rendered.unary, hsign]
    rw [Derivation.expr, Category.priority, enclose_of_priority hpriority, Expr.kinds, if_pos hsign]
    exact depths_operator_le hleast
  | _, .power x y, ⟨hx, hy⟩, ⟨hx', hy'⟩ => by
    have hxleast := x.depths_kinds_le hx hx'
    have hyleast := y.depths_kinds_le hy hy'
    rw [Derivation.expr, Category.priority, enclose_of_priority (p := .power) rfl, Expr.kinds]
    exact depths_append_le (by simp) x.nesting_tokens hxleast (depths_operator_le hyleast)
  | _, .factorial x, hx, hx' => by
    have hleast := x.depths_kinds_le hx hx'
    rw [Derivation.expr, Category.priority, enclose_of_priority (p := .factorial) rfl, Expr.kinds, if_neg (by decide),
      if_pos rfl]
    exact depths_append_le (by simp) x.nesting_tokens hleast depths_le_burden
  | _, .operation op (.group x), ⟨_, hminus, hplus, hx⟩, hx' => by
    have hleast := x.depths_kinds_le hx hx'
    have hsign := not_or.2 ⟨hminus, hplus⟩
    have hpriority : (Expr.unary op x.expr).rendered.priority = .factorial := by
      rw [Expr.rendered, Rendered.unary, if_neg hsign]
      split <;> rfl
    rw [Category.priority, enclose_conditional] at hleast
    have hparens parens := depths_enclose_le_enclose parens x.wordCount_tokens.symm hleast
    rw [Derivation.expr, Derivation.expr, Category.priority, enclose_of_priority hpriority, Expr.kinds, if_neg hsign,
      Derivation.tokens, burden_operator]
    split
    · rw [depths_append_of_nesting (by simp), depths_operator]
      exact (Int.add_zero _).trans_le (hparens _)
    · rw [depths_operator]
      exact hparens true
  | _, .invocation f, hf, hf' => by
    have hleast := f.depths_kinds_le hf hf'
    rw [Derivation.expr, Category.priority, enclose_of_priority (p := .call) rfl, Expr.kinds]
    exact depths_append_le (by simp) f.nesting_tokens hleast depths_le_burden
  | _, .call f args, ⟨hf, hargs⟩, ⟨hf', hargs'⟩ => by
    have hleast := f.depths_kinds_le hf hf'
    have hall := args.depths_kinds_le hargs hargs'
    have hparens := depths_enclose_le_enclose true args.wordCount_tokens.symm hall
    rw [Derivation.expr, Category.priority, enclose_of_priority (p := .call) rfl, Expr.kinds, Derivation.tokens,
      List.append_assoc]
    exact depths_append_le (by simp) f.nesting_tokens hleast hparens
  -- a number in front of a dot is put into parentheses, which counts one, and so does the number without them
  | _, .member (.whole (.number v)) field, _, _ => by
    have hparens : depths 0 (enclose (!(Expr.number v).isBare) [.number v]) ≤ 1 := by
      rw [depths_enclose]
      split
      · exact le_rfl
      · exact zero_le_one
    have hseam : burden [.number v, .operator ".", field.kind] = 1 := by
      simp [burden, depths, seams, TokenKind.isNumber, TokenKind.isParen, TokenKind.turn]
    rw [Derivation.expr, Category.priority, enclose_of_priority (p := .member) rfl, Expr.kinds,
      depths_append_of_nesting (by simp), depths_field]
    exact (Int.add_zero _).trans_le (hparens.trans hseam.ge)
  | _, .member (.whole (.inner (.group x))) field, ⟨hx, _⟩, hx' => by
    have hleast := x.depths_kinds_le hx hx'
    rw [Category.priority, enclose_conditional] at hleast
    have hparens := depths_enclose_le_enclose (!x.expr.isBare) x.wordCount_tokens.symm hleast
    rw [Derivation.expr, Category.priority, enclose_of_priority (p := .member) rfl, Expr.kinds]
    exact depths_append_le (by simp) (Derivation.group x).nesting_tokens hparens depths_field_le
  | _, .member (.whole (.name s)) field, _, _ | _, .member (.whole (.string s)) field, _, _ => by
    rw [Derivation.expr, Category.priority, enclose_of_priority (p := .member) rfl, Expr.kinds]
    exact depths_append_le (by simp) rfl le_rfl depths_field_le
  | _, .member (.member x field') field, ⟨hx, _⟩, hx' => by
    have hleast := (Derivation.member x field').depths_kinds_le hx hx'
    rw [Category.priority, Derivation.expr, enclose_of_priority (p := .member) rfl] at hleast
    rw [Derivation.expr, Category.priority, enclose_of_priority (p := .member) rfl, Expr.kinds]
    exact depths_append_le (by simp) (Derivation.nesting_tokens _) hleast depths_field_le
  | _, .name s, _, _ | _, .string s, _, _ => by
    rw [Derivation.expr, Category.priority, enclose_of_priority (p := .atom) rfl]
    exact depths_le_burden
  | _, .number v, _, hv => by
    have hpriority : (Expr.number v).rendered.priority = .atom := by
      rw [Expr.rendered, Rendered.ofNumber_unsigned hv]
    rw [Derivation.expr, Category.priority, enclose_of_priority hpriority]
    exact depths_le_burden
  | _, .group x, hx, hx' => by
    have hleast := x.depths_kinds_le hx hx'
    rw [Category.priority, enclose_conditional] at hleast
    exact depths_enclose_le_enclose _ x.wordCount_tokens.symm hleast

theorem Arguments.depths_kinds_le : (args : Arguments) → args.Proper g o → args.Plain →
    depths 0 ([.comma].intercalate (Expr.allKinds g o args.exprs)) ≤ burden args.tokens
  | .last x, hx, hx' => by
    have hleast := x.depths_kinds_le hx hx'
    rw [Category.priority, enclose_conditional] at hleast
    simpa [Arguments.exprs, Arguments.tokens, Expr.allKinds] using hleast
  | .more x rest, ⟨hx, hrest⟩, ⟨hx', hrest'⟩ => by
    have hleast := x.depths_kinds_le hx hx'
    have hlater := rest.depths_kinds_le hrest hrest'
    rw [Category.priority, enclose_conditional] at hleast
    rw [Arguments.exprs, Arguments.intercalate_kinds]
    refine depths_append_le (Expr.nesting_kinds _) x.nesting_tokens hleast ?_
    rw [depths_comma, burden_comma]
    exact hlater

end

end Reckon
