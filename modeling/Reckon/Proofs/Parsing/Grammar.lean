import Reckon.Expr.Parser

/-!
# The grammar of formulas

What the rules of the grammar ask for beyond their shape (`Derivation.Proper`), when a derivation derives a sequence of
tokens (`Derivation.Derives`), and the postfix form that a derivation emits (`Derivation.emission`), which is the
program of its expression (`program_expr`). A derivation is never empty, and how it starts tells a prefix operator from
an applied one (`Derivation.exists_head`, `Derivation.starts_of_rank_le_power`).
-/

namespace Reckon

variable {g : Grammar} {o : Options}

mutual

/-- Prefix operators are those of the grammar; one other than `+` and `-` is not in front of a parenthesis unless it is
applied to a group. An operator between operands is one of its level. Fields are words, if there are any. -/
def Derivation.Proper (g : Grammar) (o : Options) : {c : Category} → Derivation c → Prop
  | _, .simple x => x.Proper g o
  | _, .choice c x y => c.Proper g o ∧ x.Proper g o ∧ y.Proper g o
  | _, .operand x => x.Proper g o
  | _, .binary (l := l) x op y => x.Proper g o ∧ op ∈ l.operators ∧ y.Proper g o
  | _, .unsigned x => x.Proper g o
  | _, .signed op x =>
    g.isUnary op = true ∧ (op = "-" ∨ op = "+" ∨ x.tokens.head? ≠ some .leftParen) ∧ x.Proper g o
  | _, .base x => x.Proper g o
  | _, .power x y => x.Proper g o ∧ y.Proper g o
  | _, .applied x => x.Proper g o
  | _, .factorial x => x.Proper g o
  | _, .operation op x => g.isUnary op = true ∧ op ≠ "-" ∧ op ≠ "+" ∧ x.Proper g o
  | _, .called x => x.Proper g o
  | _, .uncalled x => x.Proper g o
  | _, .invocation f => f.Proper g o
  | _, .call f args => f.Proper g o ∧ args.Proper g o
  | _, .whole x => x.Proper g o
  | _, .member x field => x.Proper g o ∧ o.memberAccess = true ∧ field.isWord = true
  | _, .name _ => True
  | _, .number _ => True
  | _, .string _ => True
  | _, .inner x => x.Proper g o
  | _, .group x => x.Proper g o

/-- The same for arguments. -/
def Arguments.Proper (g : Grammar) (o : Options) : Arguments → Prop
  | .last x => x.Proper g o
  | .more x rest => x.Proper g o ∧ rest.Proper g o

end

/-- A derivation derives these tokens by the rules of the grammar. -/
structure Derivation.Derives (g : Grammar) (o : Options) {c : Category} (d : Derivation c) (ks : List TokenKind) :
    Prop where
  tokens : d.tokens = ks
  proper : d.Proper g o

/-! ## Emission -/

mutual

/-- The postfix form of a derivation: operands from left to right and then their operator, and the operands that may
never be evaluated, branches of a choice and right operands of `and` and `or`, as programs of their own. -/
def Derivation.emission : {c : Category} → Derivation c → Program
  | _, .simple x => x.emission
  | _, .choice c x y => c.emission ++ [.suspend x.emission, .suspend y.emission, .ternary "?"]
  | _, .operand x => x.emission
  | _, .binary (l := l) x op y =>
    match l with
    | .disjunction | .conjunction => x.emission ++ [.suspend y.emission, .binary op]
    | .comparison | .sum | .product => x.emission ++ y.emission ++ [.binary op]
  | _, .unsigned x => x.emission
  | _, .signed op x => x.emission ++ [.unary op]
  | _, .base x => x.emission
  | _, .power x y => x.emission ++ y.emission ++ [.binary "^"]
  | _, .applied x => x.emission
  | _, .factorial x => x.emission ++ [.unary "!"]
  | _, .operation op x => x.emission ++ [.unary op]
  | _, .called x => x.emission
  | _, .uncalled x => x.emission
  | _, .invocation f => f.emission ++ [.call 0]
  | _, .call f args => f.emission ++ args.emission ++ [.call args.count]
  | _, .whole x => x.emission
  | _, .member x field => x.emission ++ [.member field.text]
  | _, .name n => [.load n]
  | _, .number v => [.number v]
  | _, .string s => [.string s]
  | _, .inner x => x.emission
  | _, .group x => x.emission

/-- The postfix forms of arguments, one after the other. -/
def Arguments.emission : Arguments → Program
  | .last x => x.emission
  | .more x rest => x.emission ++ rest.emission

/-- How many arguments there are. -/
def Arguments.count : Arguments → Nat
  | .last _ => 1
  | .more _ rest => rest.count + 1

end

/-- The operators of the two loosest levels are the ones that do not always evaluate their right operand. -/
theorem isShortCircuit_of_mem {l : Level} {op : String} (h : op ∈ l.operators) :
    isShortCircuit op = true ↔ l = .disjunction ∨ l = .conjunction := by
  cases l <;> simp only [Level.operators, List.mem_cons, List.not_mem_nil, or_false] at h <;>
    rcases h with rfl | rfl | rfl | rfl | rfl | rfl | rfl <;> decide

mutual

/-- What a proper derivation emits is the program of its expression. -/
theorem Derivation.program_expr : {c : Category} → (d : Derivation c) → d.Proper g o → d.expr.program = d.emission
  | _, .simple x, h => x.program_expr h
  | _, .choice c x y, ⟨hc, hx, hy⟩ => by
    simp [Derivation.expr, Expr.program, Derivation.emission, c.program_expr hc, x.program_expr hx, y.program_expr hy]
  | _, .operand x, h => x.program_expr h
  | _, .binary (l := l) x op y, ⟨hx, hop, hy⟩ => by
    have hs := isShortCircuit_of_mem hop
    have hx' := x.program_expr hx
    have hy' := y.program_expr hy
    cases l <;> simp_all [Derivation.expr, Expr.program, Derivation.emission]
  | _, .unsigned x, h => x.program_expr h
  | _, .signed op x, ⟨_, _, hx⟩ => by simp [Derivation.expr, Expr.program, Derivation.emission, x.program_expr hx]
  | _, .base x, h => x.program_expr h
  | _, .power x y, ⟨hx, hy⟩ => by
    simp [Derivation.expr, Expr.program, Derivation.emission, x.program_expr hx, y.program_expr hy, isShortCircuit]
  | _, .applied x, h => x.program_expr h
  | _, .factorial x, h => by simp [Derivation.expr, Expr.program, Derivation.emission, x.program_expr h]
  | _, .operation op x, ⟨_, _, _, hx⟩ => by
    simp [Derivation.expr, Expr.program, Derivation.emission, x.program_expr hx]
  | _, .called x, h => x.program_expr h
  | _, .uncalled x, h => x.program_expr h
  | _, .invocation f, h => by
    simp [Derivation.expr, Expr.program, Expr.programs, Derivation.emission, f.program_expr h]
  | _, .call f args, ⟨hf, ha⟩ => by
    obtain ⟨hprograms, hlength⟩ := Arguments.programs_exprs args ha
    simp [Derivation.expr, Expr.program, Derivation.emission, f.program_expr hf, hprograms, hlength]
  | _, .whole x, h => x.program_expr h
  | _, .member x field, ⟨hx, _, _⟩ => by simp [Derivation.expr, Expr.program, Derivation.emission, x.program_expr hx]
  | _, .name _, _ => rfl
  | _, .number _, _ => rfl
  | _, .string _, _ => rfl
  | _, .inner x, h => x.program_expr h
  | _, .group x, h => x.program_expr h

theorem Arguments.programs_exprs : (a : Arguments) → a.Proper g o →
    Expr.programs a.exprs = a.emission ∧ a.exprs.length = a.count
  | .last x, h => by simp [Arguments.exprs, Expr.programs, Arguments.emission, Arguments.count, x.program_expr h]
  | .more x rest, ⟨hx, hr⟩ => by
    obtain ⟨hprograms, hlength⟩ := Arguments.programs_exprs rest hr
    simp [Arguments.exprs, Expr.programs, Arguments.emission, Arguments.count, x.program_expr hx, hprograms, hlength]

end

/-! ## How a derivation starts -/

/-- A token that starts an atom. -/
def TokenKind.startsAtom : TokenKind → Bool
  | name _ | number _ | string _ | leftParen => true
  | _ => false

/-- A derivation is not empty, and it starts with an atom or an operator. -/
theorem Derivation.exists_head : {c : Category} → (d : Derivation c) →
    ∃ k ks, d.tokens = k :: ks ∧ (k.startsAtom = true ∨ ∃ op, k = .operator op)
  | _, .simple x | _, .operand x | _, .unsigned x | _, .base x | _, .applied x | _, .called x | _, .uncalled x
  | _, .whole x | _, .inner x => x.exists_head
  | _, .choice x _ _ | _, .binary x _ _ | _, .power x _ | _, .factorial x | _, .invocation x | _, .call x _
  | _, .member x _ => by
    obtain ⟨k, ks, he, hk⟩ := x.exists_head
    exact ⟨k, _, by simp only [tokens, he, List.cons_append]; rfl, hk⟩
  | _, .signed op x | _, .operation op x => ⟨.operator op, _, rfl, .inr ⟨op, rfl⟩⟩
  | _, .name _ | _, .number _ | _, .string _ | _, .group _ => ⟨_, _, rfl, .inl rfl⟩

/-- Something that may be called, a member or an atom starts with an atom. -/
theorem Derivation.startsAtom_of_rank_le_callee : {c : Category} → (d : Derivation c) →
    c.rank ≤ Category.callee.rank → ∃ k ks, d.tokens = k :: ks ∧ k.startsAtom = true
  | _, .uncalled x, _ | _, .whole x, _ | _, .inner x, _ => x.startsAtom_of_rank_le_callee (by decide)
  | _, .invocation x, _ | _, .call x _, _ | _, .member x _, _ => by
    obtain ⟨k, ks, he, hk⟩ := x.startsAtom_of_rank_le_callee (by decide)
    exact ⟨k, _, by simp only [tokens, he, List.cons_append]; rfl, hk⟩
  | _, .name _, _ | _, .number _, _ | _, .string _, _ | _, .group _, _ => ⟨_, _, rfl, rfl⟩
  | _, .operand (l := l) _, h | _, .binary (l := l) _ _ _, h => by cases l <;> exact absurd h (by decide)

/-- A power that starts with an operator starts with one that is applied to a group. -/
theorem Derivation.starts_of_rank_le_power {c : Category} (d : Derivation c) (hc : c.rank ≤ Category.power.rank)
    (hp : d.Proper g o) : ∃ k ks, d.tokens = k :: ks ∧
      (k.startsAtom = true ∨ ∃ op, k = .operator op ∧ op ≠ "-" ∧ op ≠ "+" ∧ ks.head? = some .leftParen) := by
  by_cases hcallee : c.rank ≤ Category.callee.rank
  · obtain ⟨k, ks, he, hk⟩ := d.startsAtom_of_rank_le_callee hcallee
    exact ⟨k, ks, he, .inl hk⟩
  · match c, d, hc, hp with
    | _, .base x, _, hp | _, .applied x, _, hp => exact x.starts_of_rank_le_power (by decide) hp
    | _, .power x y, _, hp =>
      obtain ⟨k, ks, he, hk⟩ := x.starts_of_rank_le_power (by decide) hp.1
      refine ⟨k, ks ++ .operator "^" :: y.tokens, by simp [tokens, he], hk.imp_right ?_⟩
      rintro ⟨op, rfl, hm, hp, hks⟩
      exact ⟨op, rfl, hm, hp, by rw [List.head?_append, hks]; rfl⟩
    | _, .factorial x, _, hp =>
      obtain ⟨k, ks, he, hk⟩ := x.starts_of_rank_le_power (by decide) hp
      refine ⟨k, ks ++ [.operator "!"], by simp [tokens, he], hk.imp_right ?_⟩
      rintro ⟨op, rfl, hm, hp, hks⟩
      exact ⟨op, rfl, hm, hp, by rw [List.head?_append, hks]; rfl⟩
    | _, .operation op (.group x), _, hp => exact ⟨_, _, rfl, .inr ⟨op, rfl, hp.2.1, hp.2.2.1, rfl⟩⟩
    | _, .called x, _, _ =>
      obtain ⟨k, ks, he, hk⟩ := x.startsAtom_of_rank_le_callee (by decide)
      exact ⟨k, ks, he, .inl hk⟩
    | .level l, _, h, _ => cases l <;> exact absurd h (by decide)

/-- What a derivation of a category that repeats itself starts with, and the category itself for the others. -/
def Category.operand : Category → Category
  | level l => l.operand
  | postfixed => application
  | callee => fields
  | fields => atom
  | c => c

end Reckon
