import Reckon.Proofs.Parsing.Soundness

/-!
# The parser is complete

The parser finds every derivation by the rules of the grammar (`Derivation.ofTokens_of_derives`). A derivation ends in
front of a token that cannot go on with it (`Stops`): the token has a rank, the one of the derivations that go on with
it. The first topic is what each goal does on tokens that start as a derivation of it does (`Parses`), one lemma for
each rule. The other is the induction on the derivation, whose invariant is that of a parser by left recursion: to
find a derivation in front of any tokens, and go on from there, is the same as to look for its category
(`Derivation.parses`).
-/

namespace Reckon

/-! ## Where a derivation ends -/

/-- The rank of the derivations that go on with a token. -/
def TokenKind.rank : TokenKind → Nat
  | leftParen => Category.callee.rank
  | operator op =>
    if op = "." then Category.fields.rank
    else if op = "!" then Category.postfixed.rank
    else if op = "^" then Category.power.rank
    else if op ∈ Level.product.operators then (Category.level .product).rank
    else if op ∈ Level.sum.operators then (Category.level .sum).rank
    else if op ∈ Level.comparison.operators then (Category.level .comparison).rank
    else if op = "and" then (Category.level .conjunction).rank
    else if op = "or" then (Category.level .disjunction).rank
    else if op = "?" then Category.expression.rank
    else Category.expression.rank + 1
  | _ => Category.expression.rank + 1

theorem Level.rank_of_mem {l : Level} {op : String} (h : op ∈ l.operators) :
    (TokenKind.operator op).rank = (Category.level l).rank := by
  cases l <;> simp only [Level.operators, List.mem_cons, List.not_mem_nil, or_false] at h <;>
    rcases h with rfl | rfl | rfl | rfl | rfl | rfl | rfl <;> decide

/-- Derivations of a category do not go on with the first of these tokens. -/
def Stops (c : Category) (ts : List Token) : Prop :=
  ∀ t ∈ ts.head?, c.rank < t.kind.rank

theorem Stops.nil (c : Category) : Stops c [] := fun _ h => nomatch h

theorem Stops.cons {c : Category} {t : Token} {ts : List Token} (h : c.rank < t.kind.rank) : Stops c (t :: ts) := by
  rintro _ ⟨⟩
  exact h

/-- Where a derivation ends, those of lower categories end. -/
theorem Stops.mono {c c' : Category} {ts : List Token} (h : Stops c ts) (hc : c'.rank ≤ c.rank) : Stops c' ts :=
  fun t ht => Nat.lt_of_le_of_lt hc (h t ht)

/-! ## Steps -/

namespace TokenSource

variable {s : TokenSource} {t : Token} {ts : List Token}

/-- No error follows the tokens. -/
def Ends (s : TokenSource) : Prop := ∃ e, s.ending = .ok e

theorem Ends.advance (hs : s.Ends) (ts : List Token) : s.advance ts = .ok () := by
  obtain ⟨e, he⟩ := hs
  cases ts with
  | nil => simp only [TokenSource.advance, look, he]
  | cons t ts => rfl

theorem acceptAs_cons {α : Type} {select : TokenKind → Option α} {a : α} (hs : s.Ends) (h : select t.kind = some a) :
    s.acceptAs select (t :: ts) = .ok (some (a, ⟨ts, Nat.lt_succ_self _⟩)) := by
  simp only [acceptAs, h, hs.advance]
  rfl

theorem acceptAs_eq_none {α : Type} {select : TokenKind → Option α} (h : ∀ t ∈ ts.head?, select t.kind = none) :
    s.acceptAs select ts = .ok none := by
  cases ts with
  | nil => rfl
  | cons t ts => simp only [acceptAs, h t rfl]

theorem accept_cons {k : TokenKind} (hs : s.Ends) (h : t.kind = k) :
    s.accept k (t :: ts) = .ok (some ((), ⟨ts, Nat.lt_succ_self _⟩)) :=
  acceptAs_cons hs (if_pos h)

theorem accept_eq_none {k : TokenKind} (h : ∀ t ∈ ts.head?, t.kind ≠ k) : s.accept k ts = .ok none :=
  acceptAs_eq_none fun t ht => if_neg (h t ht)

theorem expect_cons {k : TokenKind} {what : Expected} (hs : s.Ends) (h : t.kind = k) :
    s.expect k what (t :: ts) = .ok ⟨ts, Nat.lt_succ_self _⟩ := by
  rw [expect, accept_cons hs h]
  rfl

end TokenSource

theorem Level.operator?_of_mem {l : Level} {op : String} (h : op ∈ l.operators) :
    l.operator? (.operator op) = some op :=
  if_pos (List.contains_iff_mem.2 h)

theorem FieldToken.ofKind?_kind {f : FieldToken} (h : f.isWord = true) : FieldToken.ofKind? f.kind = some f := by
  cases f with
  | name n => rfl
  | operator op => exact if_pos h

/-- A token of at most this rank is not in front of tokens that stop the category. -/
theorem Stops.accept_eq_none {s : TokenSource} {c : Category} {ts : List Token} {k : TokenKind} (h : Stops c ts)
    (hk : k.rank ≤ c.rank) : s.accept k ts = .ok none := by
  refine TokenSource.accept_eq_none fun t ht he => ?_
  have hlt := h t ht
  rw [he] at hlt
  omega

/-- No operator of a level is in front of tokens that stop it. -/
theorem Stops.acceptAs_operator? {s : TokenSource} {l : Level} {ts : List Token} (h : Stops (.level l) ts) :
    s.acceptAs l.operator? ts = .ok none := by
  refine TokenSource.acceptAs_eq_none fun t ht => ?_
  cases hop : l.operator? t.kind with
  | none => rfl
  | some op =>
    obtain ⟨hk, hmem⟩ := Level.eq_of_operator? hop
    have hlt := h t ht
    rw [hk, Level.rank_of_mem hmem] at hlt
    omega

/-! ## Rules -/

/-- The parser meets the goal with `d` and leaves `rest`. -/
def Parses (s : TokenSource) (goal : Goal) (ts : List Token) (d : goal.Result) (rest : List Token) : Prop :=
  ∃ h : rest.length ≤ ts.length, Derivation.parseGoal s goal ts = .ok ⟨(d, rest), h⟩

namespace Parses

open Reckon.Derivation

variable {s : TokenSource} {t : Token} {ts us vs ws rest : List Token}

theorem simple {c : Derivation (.level .disjunction)} (hc : Parses s (.derive (.level .disjunction)) ts c rest)
    (h : Stops .expression rest) : Parses s (.derive .expression) ts (Derivation.simple c) rest := by
  obtain ⟨h₁, hc⟩ := hc
  refine ⟨h₁, ?_⟩
  rw [parseGoal]
  exact bind_eq_ok.2 ⟨_, hc, bind_eq_ok.2 ⟨_, h.accept_eq_none (by decide), rfl⟩⟩

theorem choice {c : Derivation (.level .disjunction)} {x y : Derivation .expression} {q d : Token} (hs : s.Ends)
    (hc : Parses s (.derive (.level .disjunction)) ts c (q :: us)) (hq : q.kind = .operator "?")
    (hx : Parses s (.derive .expression) us x (d :: vs)) (hd : d.kind = .operator ":")
    (hy : Parses s (.derive .expression) vs y rest) :
    Parses s (.derive .expression) ts (Derivation.choice c x y) rest := by
  obtain ⟨h₁, hc⟩ := hc
  obtain ⟨h₂, hx⟩ := hx
  obtain ⟨h₃, hy⟩ := hy
  refine ⟨by rw [List.length_cons] at h₁ h₂; omega, ?_⟩
  rw [parseGoal]
  exact bind_eq_ok.2 ⟨_, hc, bind_eq_ok.2 ⟨_, TokenSource.accept_cons hs hq, bind_eq_ok.2 ⟨_, hx,
    bind_eq_ok.2 ⟨_, TokenSource.expect_cons hs hd, bind_eq_ok.2 ⟨_, hy, rfl⟩⟩⟩⟩⟩

/-- A unit rule, and then what extends the result. -/
theorem extended {c c' : Category} {rule : Derivation c → Derivation c'} {x : Derivation c} {d : Derivation c'}
    (hgoal : parseGoal s (.derive c') ts = do
      let ⟨(x, ts₁), h₁⟩ ← parseGoal s (.derive c) ts
      let r ← parseGoal s (.extend (rule x)) ts₁
      return r.widen h₁)
    (hx : Parses s (.derive c) ts x us) (hd : Parses s (.extend (rule x)) us d rest) :
    Parses s (.derive c') ts d rest := by
  obtain ⟨h₁, hx⟩ := hx
  obtain ⟨h₂, hd⟩ := hd
  refine ⟨Nat.le_trans h₂ h₁, ?_⟩
  rw [hgoal]
  exact bind_eq_ok.2 ⟨_, hx, bind_eq_ok.2 ⟨_, hd, rfl⟩⟩

theorem level {l : Level} {x : Derivation l.operand} {d : Derivation (.level l)}
    (hx : Parses s (.derive l.operand) ts x us) (hd : Parses s (.extend (.operand x)) us d rest) :
    Parses s (.derive (.level l)) ts d rest :=
  extended (by rw [parseGoal]) hx hd

theorem extend_level {l : Level} {x d : Derivation (.level l)} {op : String} {y : Derivation l.operand} (hs : s.Ends)
    (ht : t.kind = .operator op) (hop : op ∈ l.operators) (hy : Parses s (.derive l.operand) ts y us)
    (hd : Parses s (.extend (.binary x op y)) us d rest) : Parses s (.extend x) (t :: ts) d rest := by
  obtain ⟨h₁, hy⟩ := hy
  obtain ⟨h₂, hd⟩ := hd
  refine ⟨by rw [List.length_cons]; omega, ?_⟩
  rw [parseGoal]
  have hselect : l.operator? t.kind = some op := by rw [ht, Level.operator?_of_mem hop]
  exact bind_eq_ok.2 ⟨_, TokenSource.acceptAs_cons hs hselect, bind_eq_ok.2 ⟨_, hy, bind_eq_ok.2 ⟨_, hd, rfl⟩⟩⟩

theorem unsigned {x : Derivation .power} (hs : s.Ends)
    (h : s.prefixOperator? t.kind = none ∨ ∃ op, TokenSource.isApplied op ts = true ∧ t.kind = .operator op)
    (hx : Parses s (.derive .power) (t :: ts) x rest) :
    Parses s (.derive .factor) (t :: ts) (Derivation.unsigned x) rest := by
  obtain ⟨h₁, hx⟩ := hx
  refine ⟨h₁, ?_⟩
  rw [parseGoal]
  cases hunary : s.prefixOperator? t.kind with
  | none => exact bind_eq_ok.2 ⟨_, hx, rfl⟩
  | some op =>
    obtain ⟨hk, _⟩ := TokenSource.eq_of_prefixOperator? hunary
    obtain h | ⟨op', happlied, hk'⟩ := h
    · rw [hunary] at h
      cases h
    · rw [hk] at hk'
      cases hk'
      refine bind_eq_ok.2 ⟨_, hs.advance ts, ?_⟩
      rw [if_pos happlied]
      exact bind_eq_ok.2 ⟨_, hx, rfl⟩

theorem signed {op : String} {x : Derivation .factor} (hs : s.Ends) (ht : t.kind = .operator op)
    (hop : s.grammar.isUnary op = true) (happlied : TokenSource.isApplied op ts = false)
    (hx : Parses s (.derive .factor) ts x rest) :
    Parses s (.derive .factor) (t :: ts) (Derivation.signed op x) rest := by
  obtain ⟨h₁, hx⟩ := hx
  refine ⟨Nat.le_succ_of_le h₁, ?_⟩
  have hunary : s.prefixOperator? t.kind = some op := by rw [ht]; exact if_pos hop
  rw [parseGoal, hunary]
  refine bind_eq_ok.2 ⟨_, hs.advance ts, ?_⟩
  rw [if_neg (by rw [happlied]; exact Bool.false_ne_true)]
  exact bind_eq_ok.2 ⟨_, hx, rfl⟩

theorem base {x : Derivation .postfixed} (hx : Parses s (.derive .postfixed) ts x rest) (h : Stops .power rest) :
    Parses s (.derive .power) ts (Derivation.base x) rest := by
  obtain ⟨h₁, hx⟩ := hx
  refine ⟨h₁, ?_⟩
  rw [parseGoal]
  exact bind_eq_ok.2 ⟨_, hx, bind_eq_ok.2 ⟨_, h.accept_eq_none (by decide), rfl⟩⟩

theorem power {x : Derivation .postfixed} {y : Derivation .factor} (hs : s.Ends)
    (hx : Parses s (.derive .postfixed) ts x (t :: us)) (ht : t.kind = .operator "^")
    (hy : Parses s (.derive .factor) us y rest) : Parses s (.derive .power) ts (Derivation.power x y) rest := by
  obtain ⟨h₁, hx⟩ := hx
  obtain ⟨h₂, hy⟩ := hy
  refine ⟨by rw [List.length_cons] at h₁; omega, ?_⟩
  rw [parseGoal]
  exact bind_eq_ok.2 ⟨_, hx, bind_eq_ok.2 ⟨_, TokenSource.accept_cons hs ht, bind_eq_ok.2 ⟨_, hy, rfl⟩⟩⟩

theorem postfixed {x : Derivation .application} {d : Derivation .postfixed}
    (hx : Parses s (.derive .application) ts x us) (hd : Parses s (.extend (.applied x)) us d rest) :
    Parses s (.derive .postfixed) ts d rest :=
  extended (by rw [parseGoal]) hx hd

theorem extend_postfixed {x d : Derivation .postfixed} (hs : s.Ends) (ht : t.kind = .operator "!")
    (hd : Parses s (.extend (.factorial x)) ts d rest) : Parses s (.extend x) (t :: ts) d rest := by
  obtain ⟨h₁, hd⟩ := hd
  refine ⟨Nat.le_succ_of_le h₁, ?_⟩
  rw [parseGoal]
  exact bind_eq_ok.2 ⟨_, TokenSource.accept_cons hs ht, bind_eq_ok.2 ⟨_, hd, rfl⟩⟩

theorem operation {op : String} {x : Derivation .group} (hs : s.Ends) (ht : t.kind = .operator op)
    (hop : s.grammar.isUnary op = true) (hx : Parses s (.derive .group) ts x rest) :
    Parses s (.derive .application) (t :: ts) (Derivation.operation op x) rest := by
  obtain ⟨h₁, hx⟩ := hx
  refine ⟨Nat.le_succ_of_le h₁, ?_⟩
  have hunary : s.prefixOperator? t.kind = some op := by rw [ht]; exact if_pos hop
  rw [parseGoal, hunary]
  exact bind_eq_ok.2 ⟨_, hs.advance ts, bind_eq_ok.2 ⟨_, hx, rfl⟩⟩

theorem called {x : Derivation .callee} (h : s.prefixOperator? t.kind = none)
    (hx : Parses s (.derive .callee) (t :: ts) x rest) :
    Parses s (.derive .application) (t :: ts) (Derivation.called x) rest := by
  obtain ⟨h₁, hx⟩ := hx
  refine ⟨h₁, ?_⟩
  rw [parseGoal, h]
  exact bind_eq_ok.2 ⟨_, hx, rfl⟩

theorem callee {x : Derivation .fields} {d : Derivation .callee} (hx : Parses s (.derive .fields) ts x us)
    (hd : Parses s (.extend (.uncalled x)) us d rest) : Parses s (.derive .callee) ts d rest :=
  extended (by rw [parseGoal]) hx hd

theorem extend_invocation {x d : Derivation .callee} {l r : Token} (hs : s.Ends) (hl : l.kind = .leftParen)
    (hr : r.kind = .rightParen) (hd : Parses s (.extend (.invocation x)) ts d rest) :
    Parses s (.extend x) (l :: r :: ts) d rest := by
  obtain ⟨h₁, hd⟩ := hd
  refine ⟨Nat.le_succ_of_le (Nat.le_succ_of_le h₁), ?_⟩
  rw [parseGoal]
  exact bind_eq_ok.2 ⟨_, TokenSource.accept_cons hs hl, bind_eq_ok.2 ⟨_, TokenSource.accept_cons hs hr,
    bind_eq_ok.2 ⟨_, hd, rfl⟩⟩⟩

theorem extend_call {x d : Derivation .callee} {args : Arguments} {l r : Token} (hs : s.Ends)
    (hl : l.kind = .leftParen) (ht : ∀ t ∈ ts.head?, t.kind ≠ .rightParen)
    (hargs : Parses s .arguments ts args (r :: us)) (hr : r.kind = .rightParen)
    (hd : Parses s (.extend (.call x args)) us d rest) : Parses s (.extend x) (l :: ts) d rest := by
  obtain ⟨h₁, hargs⟩ := hargs
  obtain ⟨h₂, hd⟩ := hd
  refine ⟨by rw [List.length_cons] at h₁ ⊢; omega, ?_⟩
  rw [parseGoal]
  exact bind_eq_ok.2 ⟨_, TokenSource.accept_cons hs hl, bind_eq_ok.2 ⟨_, TokenSource.accept_eq_none ht,
    bind_eq_ok.2 ⟨_, hargs, bind_eq_ok.2 ⟨_, TokenSource.expect_cons hs hr, bind_eq_ok.2 ⟨_, hd, rfl⟩⟩⟩⟩⟩

theorem last {x : Derivation .expression} (hx : Parses s (.derive .expression) ts x rest)
    (h : ∀ t ∈ rest.head?, t.kind ≠ .comma) : Parses s .arguments ts (Arguments.last x) rest := by
  obtain ⟨h₁, hx⟩ := hx
  refine ⟨h₁, ?_⟩
  rw [parseGoal]
  exact bind_eq_ok.2 ⟨_, hx, bind_eq_ok.2 ⟨_, TokenSource.accept_eq_none h, rfl⟩⟩

theorem more {x : Derivation .expression} {args : Arguments} (hs : s.Ends)
    (hx : Parses s (.derive .expression) ts x (t :: us)) (ht : t.kind = .comma)
    (hargs : Parses s .arguments us args rest) : Parses s .arguments ts (Arguments.more x args) rest := by
  obtain ⟨h₁, hx⟩ := hx
  obtain ⟨h₂, hargs⟩ := hargs
  refine ⟨by rw [List.length_cons] at h₁; omega, ?_⟩
  rw [parseGoal]
  exact bind_eq_ok.2 ⟨_, hx, bind_eq_ok.2 ⟨_, TokenSource.accept_cons hs ht, bind_eq_ok.2 ⟨_, hargs, rfl⟩⟩⟩

theorem fields {x : Derivation .atom} {d : Derivation .fields} (hx : Parses s (.derive .atom) ts x us)
    (hd : Parses s (.extend (.whole x)) us d rest) : Parses s (.derive .fields) ts d rest :=
  extended (by rw [parseGoal]) hx hd

theorem extend_fields {x d : Derivation .fields} {f : FieldToken} {dot name : Token} (hs : s.Ends)
    (haccess : s.options.memberAccess = true) (hdot : dot.kind = .operator ".") (hname : name.kind = f.kind)
    (hword : f.isWord = true) (hd : Parses s (.extend (.member x f)) ts d rest) :
    Parses s (.extend x) (dot :: name :: ts) d rest := by
  obtain ⟨h₁, hd⟩ := hd
  refine ⟨Nat.le_succ_of_le (Nat.le_succ_of_le h₁), ?_⟩
  have haccept : acceptDot s (dot :: name :: ts) = .ok (some ((), ⟨name :: ts, Nat.lt_succ_self _⟩)) := by
    rw [acceptDot, if_neg (by simp [haccess])]
    exact TokenSource.accept_cons hs hdot
  have hfield : expectField s (name :: ts) = .ok (f, ⟨ts, Nat.lt_succ_self _⟩) :=
    bind_eq_ok.2 ⟨_, TokenSource.acceptAs_cons hs (hname ▸ FieldToken.ofKind?_kind hword), rfl⟩
  rw [parseGoal]
  exact bind_eq_ok.2 ⟨_, haccept, bind_eq_ok.2 ⟨_, hfield, bind_eq_ok.2 ⟨_, hd, rfl⟩⟩⟩

theorem atom {x : Derivation .atom} (hs : s.Ends) (h : ofKind? t.kind = some x) :
    Parses s (.derive .atom) (t :: ts) x ts := by
  refine ⟨Nat.le_succ _, ?_⟩
  rw [parseGoal]
  exact bind_eq_ok.2 ⟨_, TokenSource.acceptAs_cons hs h, rfl⟩

theorem inner {x : Derivation .group} (ht : t.kind = .leftParen) (hx : Parses s (.derive .group) (t :: ts) x rest) :
    Parses s (.derive .atom) (t :: ts) (Derivation.inner x) rest := by
  obtain ⟨h₁, hx⟩ := hx
  refine ⟨h₁, ?_⟩
  have haccept : s.acceptAs ofKind? (t :: ts) = .ok none := by
    refine TokenSource.acceptAs_eq_none ?_
    rintro _ ⟨⟩
    rw [ht]
    rfl
  rw [parseGoal]
  exact bind_eq_ok.2 ⟨_, haccept, bind_eq_ok.2 ⟨_, hx, rfl⟩⟩

theorem group {x : Derivation .expression} {l r : Token} (hs : s.Ends) (hl : l.kind = .leftParen)
    (hx : Parses s (.derive .expression) ts x (r :: rest)) (hr : r.kind = .rightParen) :
    Parses s (.derive .group) (l :: ts) (Derivation.group x) rest := by
  obtain ⟨h₁, hx⟩ := hx
  refine ⟨by rw [List.length_cons] at h₁ ⊢; omega, ?_⟩
  have hopen : openGroup s (l :: ts) = .ok ⟨ts, Nat.lt_succ_self _⟩ := by
    simp only [openGroup, hl]
    exact bind_eq_ok.2 ⟨_, hs.advance ts, rfl⟩
  rw [parseGoal]
  exact bind_eq_ok.2 ⟨_, hopen, bind_eq_ok.2 ⟨_, hx, bind_eq_ok.2 ⟨_, TokenSource.expect_cons hs hr, rfl⟩⟩⟩

/-- A derivation is not extended where its category stops. -/
theorem extend_of_stops {c : Category} (x : Derivation c) (h : Stops c ts) : Parses s (.extend x) ts x ts := by
  refine ⟨Nat.le_refl _, ?_⟩
  cases c with
  | level l =>
    rw [parseGoal]
    exact bind_eq_ok.2 ⟨_, h.acceptAs_operator?, rfl⟩
  | postfixed =>
    rw [parseGoal]
    exact bind_eq_ok.2 ⟨_, h.accept_eq_none (by decide), rfl⟩
  | callee =>
    rw [parseGoal]
    exact bind_eq_ok.2 ⟨_, h.accept_eq_none (by decide), rfl⟩
  | fields =>
    have hdot : acceptDot s ts = .ok none := by
      cases ts with
      | nil => rfl
      | cons t ts =>
        have hne : t.kind ≠ .operator "." := by
          intro he
          have hlt := h t rfl
          rw [he] at hlt
          exact absurd hlt (by decide)
        rw [acceptDot, if_neg fun he => hne he.1]
        exact h.accept_eq_none (by decide)
    rw [parseGoal]
    exact bind_eq_ok.2 ⟨_, hdot, rfl⟩
  | _ => rw [parseGoal] <;> first | rfl | (intros; contradiction)

end Parses

/-! ## Derivations -/

theorem Category.rank_operand_le (c : Category) : c.operand.rank ≤ c.rank := by
  cases c with
  | level l => exact Nat.le_of_lt l.rank_operand_lt
  | _ => decide

namespace Parses

variable {s : TokenSource} {ts rest r : List Token} {c : Category}

/-- Nothing extends a derivation of a category that does not repeat itself. -/
theorem eq_of_extend {x d : Derivation c} (hc : c.operand = c) (h : Parses s (.extend x) ts d rest) :
    x = d ∧ ts = rest := by
  obtain ⟨_, h⟩ := h
  cases c with
  | level l => cases l <;> cases hc
  | postfixed | callee | fields => cases hc
  | _ =>
    rw [Derivation.parseGoal] at h
    · cases h
      exact ⟨rfl, rfl⟩
    all_goals intros; contradiction

/-- The derivation itself is found if its category stops behind it. -/
theorem of_extend {d : Derivation c} (hr : Stops c r)
    (h : ∀ {x rest}, Stops c.operand r → Parses s (.extend d) r x rest → Parses s (.derive c) (ts ++ r) x rest) :
    Parses s (.derive c) (ts ++ r) d r :=
  h (hr.mono c.rank_operand_le) (.extend_of_stops d hr)

end Parses

/-- Tokens of the kinds `a`, a token of the kind `k`, and tokens of the kinds `b`. -/
theorem exists_tokens_of_kinds {ts : List Token} {a b : List TokenKind} {k : TokenKind}
    (h : ts.map Token.kind = a ++ k :: b) :
    ∃ us t vs, ts = us ++ t :: vs ∧ us.map Token.kind = a ∧ t.kind = k ∧ vs.map Token.kind = b := by
  obtain ⟨us, ws, rfl, hus, hws⟩ := List.map_eq_append_iff.1 h
  obtain ⟨t, vs, rfl, ht, hvs⟩ := List.map_eq_cons_iff.1 hws
  exact ⟨us, t, vs, rfl, hus, ht, hvs⟩

/-- The first kind of some tokens, whatever is behind these. -/
theorem head?_kind_append {us : List Token} {ks : List TokenKind} {k : TokenKind} (r : List Token)
    (h : us.map Token.kind = ks) (hk : ks.head? = some k) : (us ++ r).head?.map Token.kind = some k := by
  rw [← List.head?_map, List.map_append, List.head?_append, h, hk]
  rfl

/-- Arguments do not start with a closing parenthesis. -/
theorem Arguments.exists_head (args : Arguments) : ∃ k, args.tokens.head? = some k ∧ k ≠ .rightParen := by
  cases args with
  | last x | more x rest =>
    obtain ⟨k, ks, he, hk⟩ := x.exists_head
    refine ⟨k, by rw [Arguments.tokens, he]; rfl, ?_⟩
    rintro rfl
    simp [TokenKind.startsAtom] at hk

/-- What ends a power ends a factor: no token goes on with a factor. -/
theorem Stops.factor {ts : List Token} (h : Stops .power ts) : Stops .factor ts := by
  intro t ht
  have hlt := h t ht
  have hne : t.kind.rank ≠ Category.factor.rank := by
    unfold TokenKind.rank
    split
    · decide
    · repeat' split
      all_goals decide
    · decide
  exact Nat.lt_of_le_of_ne hlt hne.symm

mutual

/-- Looking for a category goes on behind a derivation of it: what extends the derivation behind its tokens is found
in front of both. -/
theorem Derivation.parses {s : TokenSource} (hs : s.Ends) : {c : Category} → (d : Derivation c) →
    d.Proper s.grammar s.options → ∀ {ts r rest : List Token} {x : Derivation c}, ts.map Token.kind = d.tokens →
    Stops c.operand r → Parses s (.extend d) r x rest → Parses s (.derive c) (ts ++ r) x rest
  | _, .simple c, hd, ts, r, _, _, hts, hr, hx => by
    obtain ⟨rfl, rfl⟩ := hx.eq_of_extend rfl
    exact .simple (.of_extend (hr.mono (by decide)) (c.parses hs hd hts)) hr
  | _, .choice c x y, ⟨hc, hx, hy⟩, ts, r, _, _, hts, hr, hd => by
    obtain ⟨rfl, rfl⟩ := hd.eq_of_extend rfl
    rw [Derivation.tokens, List.append_assoc] at hts
    obtain ⟨us, q, ws, rfl, hus, hq, hws⟩ := exists_tokens_of_kinds hts
    obtain ⟨vs, d, ws, rfl, hvs, hd, hws⟩ := exists_tokens_of_kinds hws
    simp only [List.append_assoc, List.cons_append]
    exact .choice hs (.of_extend (.cons (hq ▸ by decide)) (c.parses hs hc hus)) hq
      (.of_extend (.cons (hd ▸ by decide)) (x.parses hs hx hvs)) hd (.of_extend hr (y.parses hs hy hws))
  | _, .operand x, hd, _, _, _, _, hts, hr, hx => .level (.of_extend hr (x.parses hs hd hts)) hx
  | _, .binary (l := l) x op y, ⟨hx, hop, hy⟩, ts, r, _, _, hts, hr, hd => by
    obtain ⟨us, t, vs, rfl, hus, ht, hvs⟩ := exists_tokens_of_kinds hts
    have hstops : Stops l.operand (t :: (vs ++ r)) :=
      .cons (ht ▸ (Level.rank_of_mem hop).symm ▸ l.rank_operand_lt)
    rw [List.append_assoc, List.cons_append]
    exact x.parses hs hx hus hstops (.extend_level hs ht hop (.of_extend hr (y.parses hs hy hvs)) hd)
  | _, .unsigned x, hd, ts, r, _, _, hts, hr, hx => by
    obtain ⟨rfl, rfl⟩ := hx.eq_of_extend rfl
    have hpower := Parses.of_extend (hr.mono (by decide)) (x.parses hs hd hts)
    obtain ⟨k, ks, he, hk⟩ := x.starts_of_rank_le_power (by decide) hd
    rw [Derivation.tokens, he] at hts
    obtain ⟨t, vs, rfl, ht, hvs⟩ := List.map_eq_cons_iff.1 hts
    refine .unsigned hs ?_ hpower
    rcases hk with hk | ⟨op, rfl, hminus, hplus, hks⟩
    · left
      rw [ht]
      cases k <;> first | rfl | cases hk
    · right
      have happlied : TokenSource.isApplied op (vs ++ r) = true := by
        rw [TokenSource.isApplied, head?_kind_append r hvs hks]
        simp [hminus, hplus]
      exact ⟨op, happlied, ht⟩
  | _, .signed op x, ⟨hop, hsign, hd⟩, ts, r, _, _, hts, hr, hx => by
    obtain ⟨rfl, rfl⟩ := hx.eq_of_extend rfl
    obtain ⟨t, vs, rfl, ht, hvs⟩ := List.map_eq_cons_iff.1 hts
    have happlied : TokenSource.isApplied op (vs ++ r) = false := by
      obtain ⟨k, ks, he, _⟩ := x.exists_head
      rw [TokenSource.isApplied, head?_kind_append r hvs (by rw [he]; rfl)]
      rw [he] at hsign
      simpa [Decidable.or_iff_not_imp_left] using hsign
    exact .signed hs ht hop happlied (.of_extend hr (x.parses hs hd hvs))
  | _, .base x, hd, ts, r, _, _, hts, hr, hx => by
    obtain ⟨rfl, rfl⟩ := hx.eq_of_extend rfl
    exact .base (.of_extend (hr.mono (by decide)) (x.parses hs hd hts)) hr
  | _, .power x y, ⟨hx, hy⟩, ts, r, _, _, hts, hr, hd => by
    obtain ⟨rfl, rfl⟩ := hd.eq_of_extend rfl
    obtain ⟨us, t, vs, rfl, hus, ht, hvs⟩ := exists_tokens_of_kinds hts
    rw [List.append_assoc, List.cons_append]
    have hright := Parses.of_extend hr.factor (y.parses hs hy hvs)
    exact .power hs (.of_extend (.cons (ht ▸ by decide)) (x.parses hs hx hus)) ht hright
  | _, .applied x, hd, _, _, _, _, hts, hr, hx => .postfixed (.of_extend hr (x.parses hs hd hts)) hx
  | _, .factorial x, hx, ts, r, _, _, hts, hr, hd => by
    obtain ⟨us, t, vs, rfl, hus, ht, hvs⟩ := exists_tokens_of_kinds hts
    cases List.map_eq_nil_iff.1 hvs
    rw [List.append_assoc]
    exact x.parses hs hx hus (.cons (ht ▸ by decide)) (.extend_postfixed hs ht hd)
  | _, .operation op x, ⟨hop, _, _, hd⟩, ts, r, _, _, hts, hr, hx => by
    obtain ⟨rfl, rfl⟩ := hx.eq_of_extend rfl
    obtain ⟨t, vs, rfl, ht, hvs⟩ := List.map_eq_cons_iff.1 hts
    exact .operation hs ht hop (.of_extend (hr.mono (by decide)) (x.parses hs hd hvs))
  | _, .called x, hd, ts, r, _, _, hts, hr, hx => by
    obtain ⟨rfl, rfl⟩ := hx.eq_of_extend rfl
    have hcallee := Parses.of_extend (hr.mono (by decide)) (x.parses hs hd hts)
    obtain ⟨k, ks, he, hk⟩ := x.startsAtom_of_rank_le_callee (by decide)
    rw [Derivation.tokens, he] at hts
    obtain ⟨t, vs, rfl, ht, hvs⟩ := List.map_eq_cons_iff.1 hts
    refine .called ?_ hcallee
    rw [ht]
    cases k <;> first | rfl | cases hk
  | _, .uncalled x, hd, _, _, _, _, hts, hr, hx => .callee (.of_extend hr (x.parses hs hd hts)) hx
  | _, .invocation f, hf, ts, r, _, _, hts, hr, hd => by
    obtain ⟨us, t, vs, rfl, hus, ht, hvs⟩ := exists_tokens_of_kinds hts
    obtain ⟨t', vs, rfl, ht', hvs⟩ := List.map_eq_cons_iff.1 hvs
    cases List.map_eq_nil_iff.1 hvs
    rw [List.append_assoc]
    exact f.parses hs hf hus (.cons (ht ▸ by decide)) (.extend_invocation hs ht ht' hd)
  | _, .call f args, ⟨hf, hargs⟩, ts, r, _, _, hts, hr, hd => by
    rw [Derivation.tokens, List.append_assoc] at hts
    obtain ⟨us, t, ws, rfl, hus, ht, hws⟩ := exists_tokens_of_kinds hts
    obtain ⟨vs, t', ws, rfl, hvs, ht', hws⟩ := exists_tokens_of_kinds hws
    cases List.map_eq_nil_iff.1 hws
    simp only [List.append_assoc, List.cons_append, List.nil_append]
    refine f.parses hs hf hus (.cons (ht ▸ by decide)) (.extend_call hs ht ?_ (args.parses hs hargs hvs ht') ht' hd)
    obtain ⟨k, he, hk⟩ := args.exists_head
    have hhead := head?_kind_append (t' :: r) hvs he
    intro t'' ht'' hright
    rw [Option.mem_def.1 ht'', Option.map_some, hright] at hhead
    cases hhead
    exact hk rfl
  | _, .whole x, hd, _, _, _, _, hts, hr, hx => .fields (.of_extend hr (x.parses hs hd hts)) hx
  | _, .member x field, ⟨hx, haccess, hword⟩, ts, r, _, _, hts, hr, hd => by
    obtain ⟨us, t, vs, rfl, hus, ht, hvs⟩ := exists_tokens_of_kinds hts
    obtain ⟨t', vs, rfl, ht', hvs⟩ := List.map_eq_cons_iff.1 hvs
    cases List.map_eq_nil_iff.1 hvs
    rw [List.append_assoc]
    exact x.parses hs hx hus (.cons (ht ▸ by decide)) (.extend_fields hs haccess ht ht' hword hd)
  | _, .name _, _, ts, r, _, _, hts, hr, hd | _, .number _, _, ts, r, _, _, hts, hr, hd
  | _, .string _, _, ts, r, _, _, hts, hr, hd => by
    obtain ⟨rfl, rfl⟩ := hd.eq_of_extend rfl
    obtain ⟨t, vs, rfl, ht, hvs⟩ := List.map_eq_cons_iff.1 hts
    cases List.map_eq_nil_iff.1 hvs
    exact .atom hs (by rw [ht]; rfl)
  | _, .inner x, hx, ts, r, _, _, hts, hr, hd => by
    obtain ⟨rfl, rfl⟩ := hd.eq_of_extend rfl
    have hgroup := Parses.of_extend (hr.mono (by decide)) (x.parses hs hx hts)
    cases x with
    | group x =>
      obtain ⟨t, vs, rfl, ht, hvs⟩ := List.map_eq_cons_iff.1 hts
      exact .inner ht hgroup
  | _, .group x, hx, ts, r, _, _, hts, hr, hd => by
    obtain ⟨rfl, rfl⟩ := hd.eq_of_extend rfl
    obtain ⟨t, vs, rfl, ht, hvs⟩ := List.map_eq_cons_iff.1 hts
    obtain ⟨us, t', vs, rfl, hus, ht', hvs⟩ := exists_tokens_of_kinds hvs
    cases List.map_eq_nil_iff.1 hvs
    simp only [List.append_assoc, List.cons_append, List.nil_append]
    exact .group hs ht (.of_extend (.cons (ht' ▸ by decide)) (x.parses hs hx hus)) ht'

/-- Arguments are found in front of the parenthesis that closes them. -/
theorem Arguments.parses {s : TokenSource} (hs : s.Ends) : (args : Arguments) →
    args.Proper s.grammar s.options → ∀ {ts r : List Token} {t : Token}, ts.map Token.kind = args.tokens →
    t.kind = .rightParen → Parses s .arguments (ts ++ t :: r) args (t :: r)
  | .last x, hx, ts, r, t, hts, ht => by
    refine .last (.of_extend (.cons (ht ▸ by decide)) (x.parses hs hx hts)) ?_
    rintro _ ⟨⟩
    rw [ht]
    nofun
  | .more x rest, ⟨hx, hrest⟩, ts, r, t, hts, ht => by
    obtain ⟨us, comma, vs, rfl, hus, hcomma, hvs⟩ := exists_tokens_of_kinds hts
    rw [List.append_assoc, List.cons_append]
    exact .more hs (.of_extend (.cons (hcomma ▸ by decide)) (x.parses hs hx hus)) hcomma (rest.parses hs hrest hvs ht)

end

/-- A derivation of the tokens is found if they end without an error. -/
theorem Derivation.ofTokens_of_derives {s : TokenSource} (hs : s.Ends) {ts : List Token} {d : Derivation .expression}
    (hd : d.Derives s.grammar s.options (ts.map Token.kind)) : Derivation.ofTokens s ts = .ok d := by
  have hparses := Parses.of_extend (.nil .expression) (d.parses hs hd.proper hd.tokens.symm)
  rw [List.append_nil] at hparses
  obtain ⟨_, h⟩ := hparses
  exact bind_eq_ok.2 ⟨_, hs.advance ts, bind_eq_ok.2 ⟨_, h, rfl⟩⟩

/-- A token of a kind, wherever it stands. -/
def TokenKind.token (k : TokenKind) : Token :=
  ⟨k, .start, []⟩

theorem TokenKind.map_kind_token (ks : List TokenKind) : (ks.map token).map Token.kind = ks := by
  rw [List.map_map]
  exact List.map_id ks

/-- No two derivations derive the same tokens. -/
theorem Derivation.Derives.unique {g : Grammar} {o : Options} {ks : List TokenKind} {d d' : Derivation .expression}
    (hd : d.Derives g o ks) (hd' : d'.Derives g o ks) : d = d' := by
  let s : TokenSource := ⟨g, o, .ok TokenKind.finish.token⟩
  have hs : s.Ends := ⟨_, rfl⟩
  rw [← TokenKind.map_kind_token ks] at hd hd'
  have h : Derivation.ofTokens s (ks.map TokenKind.token) = .ok d := Derivation.ofTokens_of_derives hs hd
  have h' : Derivation.ofTokens s (ks.map TokenKind.token) = .ok d' := Derivation.ofTokens_of_derives hs hd'
  rw [h] at h'
  cases h'
  rfl

/-- The derivation of a code is the one that derives its tokens, if they end without an error. -/
theorem Derivation.parse_eq_ok_iff {g : Grammar} {o : Options} {code : String} {d : Derivation .expression} :
    Derivation.parse g o code = .ok d ↔
      (∃ e, (Tokens.ofCode g o code).ending = .ok e) ∧ d.Derives g o ((Tokens.ofCode g o code).list.map Token.kind) :=
  ⟨derives_of_ofTokens, fun ⟨he, hd⟩ => ofTokens_of_derives (s := ⟨g, o, (Tokens.ofCode g o code).ending⟩) he hd⟩

/-- The parser accepts the codes whose tokens end without an error and have a derivation, which is the only one, and
the program is what the derivation emits. -/
theorem Program.parse_eq_ok_iff_derives :
    (∀ (g : Grammar) (o : Options) (code : String) (p : Program), Program.parse g o code = .ok p ↔
      ∃ ts e, Tokens.ofCode g o code = ⟨ts, .ok e⟩ ∧
        ∃ d : Derivation .expression, d.Derives g o (ts.map Token.kind) ∧ d.emission = p) ∧
    ∀ (g : Grammar) (o : Options) (ks : List TokenKind) (d d' : Derivation .expression),
      d.Derives g o ks → d'.Derives g o ks → d = d' := by
  refine ⟨fun g o code p => ⟨fun h => ?_, ?_⟩, fun g o ks d d' => Derivation.Derives.unique⟩
  · rw [Program.parse, Expr.parse] at h
    cases hd : Derivation.parse g o code with
    | error e =>
      rw [hd] at h
      cases h
    | ok d =>
      rw [hd] at h
      cases h
      obtain ⟨⟨e, he⟩, hderives⟩ := Derivation.parse_eq_ok_iff.1 hd
      exact ⟨_, e, by rw [← he], d, hderives, (d.program_expr hderives.proper).symm⟩
  · rintro ⟨ts, e, hts, d, hd, rfl⟩
    have hparse : Derivation.parse g o code = .ok d := Derivation.parse_eq_ok_iff.2 (by rw [hts]; exact ⟨⟨e, rfl⟩, hd⟩)
    rw [Program.parse, Expr.parse, hparse, ← d.program_expr hd.proper]
    rfl

end Reckon
