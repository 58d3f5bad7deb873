import Reckon.Proofs.Parsing.Grammar

/-!
# The parser as a reader of tokens

The parser without its bounds: a `Reader` passes some of the tokens or fails, and it can look at what follows them. What
the parser does for a goal is a reader (`Reader.goal`), and for each rule of the grammar there is an equation between
readers, so that a property of readers that the few steps of the parser have, and that goes through `>>=`, is a property
of the parser. The parser goes back to a prefix operator once it has seen the parenthesis behind it; the equation for
factors shows that it need not (`Reader.goal_factor`).
-/

namespace Reckon

/-- What is read from tokens, given what follows them, and the tokens that are left. -/
abbrev Reader := ReaderT (Except ParseError Token) (StateT (List Token) (Except ParseError))

/-- The same tokens may be followed by something else. -/
def TokenSource.before (s : TokenSource) (ending : Except ParseError Token) : TokenSource :=
  { s with ending }

/-- A computation succeeds if its first step does, and then its second one on what the first step returns. -/
theorem bind_eq_ok {ε α β : Type} {x : Except ε α} {f : α → Except ε β} {b : β} :
    (x >>= f) = .ok b ↔ ∃ a, x = .ok a ∧ f a = .ok b := by
  cases x with
  | ok a =>
    constructor
    · intro h
      exact ⟨a, rfl, h⟩
    · rintro ⟨_, ha, h⟩
      cases ha
      exact h
  | error e =>
    constructor
    · intro h
      cases h
    · rintro ⟨_, ha, _⟩
      cases ha

/-- What is made of a result is there if the result is. -/
theorem map_eq_ok {ε α β : Type} {f : α → β} {x : Except ε α} {b : β} :
    x.map f = .ok b ↔ ∃ a, x = .ok a ∧ f a = b := by
  cases x <;> simp [Except.map]

section Forget

variable {ε α β γ δ : Type} {x : Except ε α}

/-- Computations are the same if they take the same steps, up to what is known of the results. -/
theorem map_bind_eq {p : α → β} {q : γ → δ} {k : α → Except ε γ} {l : β → Except ε δ}
    (h : ∀ a, (k a).map q = l (p a)) : (x >>= k).map q = x.map p >>= l := by
  cases x with
  | error e => rfl
  | ok a => exact h a

theorem map_bind_congr {q : γ → δ} {k : α → Except ε γ} {l : α → Except ε δ} (h : ∀ a, (k a).map q = l a) :
    (x >>= k).map q = x >>= l := by
  cases x with
  | error e => rfl
  | ok a => exact h a

theorem map_bind_pure {p : α → δ} {q : γ → δ} {k : α → Except ε γ} (h : ∀ a, (k a).map q = .ok (p a)) :
    (x >>= k).map q = x.map p := by
  cases x with
  | error e => rfl
  | ok a => exact h a

end Forget

/-! ## Tokens -/

theorem TokenSource.eq_of_prefixOperator? {s : TokenSource} {k : TokenKind} {op : String}
    (h : s.prefixOperator? k = some op) : k = .operator op ∧ s.grammar.isUnary op = true := by
  cases k with
  | operator op' =>
    rw [prefixOperator?] at h
    split at h
    · next hop => cases h; exact ⟨rfl, hop⟩
    · cases h
  | _ => cases h

theorem Level.eq_of_operator? {l : Level} {k : TokenKind} {op : String} (h : l.operator? k = some op) :
    k = .operator op ∧ op ∈ l.operators := by
  cases k with
  | operator op' =>
    rw [operator?] at h
    split at h
    · next hop => cases h; exact ⟨rfl, List.contains_iff_mem.1 hop⟩
    · cases h
  | _ => cases h

theorem FieldToken.eq_of_ofKind? {k : TokenKind} {f : FieldToken} (h : FieldToken.ofKind? k = some f) :
    k = f.kind ∧ f.isWord = true := by
  cases k with
  | name n => cases h; exact ⟨rfl, rfl⟩
  | operator op =>
    rw [ofKind?] at h
    split at h
    · next hw => cases h; exact ⟨rfl, hw⟩
    · cases h
  | _ => cases h

namespace Reader

open Reckon.Derivation

variable {α β : Type} {s : TokenSource} {ending : Except ParseError Token} {ts : List Token}

/-! ## Steps -/

/-- If the first token is one of those asked for then passes it and goes on with what it stands for. -/
def branch (s : TokenSource) (select : TokenKind → Option α) (other : Reader β) (next : α → Reader β) : Reader β :=
  fun ending ts => do
    match ← (s.before ending).acceptAs select ts with
    | none => other ending ts
    | some (a, rest) => next a ending rest.1

theorem branch_cons_none {t : Token} {select : TokenKind → Option α} {other : Reader β} {next : α → Reader β}
    (h : select t.kind = none) : branch s select other next ending (t :: ts) = other ending (t :: ts) := by
  simp only [branch, TokenSource.acceptAs, h]
  rfl

theorem branch_cons {t : Token} {a : α} {select : TokenKind → Option α} {other : Reader β} {next : α → Reader β}
    (h : select t.kind = some a) : branch s select other next ending (t :: ts) =
      (s.before ending).advance ts >>= fun _ => next a ending ts := by
  simp only [branch, TokenSource.acceptAs, h, bind_assoc]
  rfl

/-- If the first token is of this kind then passes it and goes on. -/
def branchOn (s : TokenSource) (k : TokenKind) (other next : Reader β) : Reader β :=
  branch s (fun k' => if k' = k then some () else none) other fun _ => next

/-- If the first token is a dot then passes it and goes on. -/
def branchDot (s : TokenSource) (other next : Reader β) : Reader β :=
  fun ending ts => do
    match ← acceptDot (s.before ending) ts with
    | none => other ending ts
    | some (_, rest) => next ending rest.1

/-- Passes the first token, which has to be of this kind. -/
def expect (s : TokenSource) (k : TokenKind) (what : Expected) : Reader Unit :=
  fun ending ts => ((s.before ending).expect k what ts).map fun rest => ((), rest.1)

/-- Passes the name of a field. -/
def field (s : TokenSource) : Reader FieldToken :=
  fun ending ts => (expectField (s.before ending) ts).map fun r => (r.1, r.2.1)

/-- Passes the parenthesis that opens a group. -/
def opening (s : TokenSource) : Reader Unit :=
  fun ending ts => (openGroup (s.before ending) ts).map fun rest => ((), rest.1)

/-- Blames the token to look at. -/
def blame (s : TokenSource) (cause : TokenKind → ParseError.Cause) : Reader α :=
  fun ending ts => .error ((s.before ending).blame ts cause)

theorem expect_eq (k : TokenKind) (what : Expected) :
    expect s k what = branchOn s k (blame s fun _ => .expected what) (pure ()) := by
  funext ending ts
  refine map_bind_congr fun r => ?_
  obtain _ | ⟨_, rest⟩ := r <;> rfl

theorem field_eq : field s = branch s FieldToken.ofKind? (blame s fun _ => .expected .fieldName) pure := by
  funext ending ts
  refine map_bind_congr fun r => ?_
  obtain _ | ⟨_, rest⟩ := r <;> rfl

theorem opening_cons {t : Token} (h : t.kind = .leftParen) :
    opening s ending (t :: ts) = (s.before ending).advance ts >>= fun _ => .ok ((), ts) := by
  simp only [opening, openGroup, h]
  exact map_bind_congr fun _ => rfl

theorem opening_cons_of_ne {t : Token} (h : t.kind ≠ .leftParen) : opening s ending (t :: ts) =
    blame s (fun k => if k = .finish then .unexpectedEnd else .unexpectedToken k) ending (t :: ts) := by
  have hblame : ∀ cause, (s.before ending).blame (t :: ts) cause = .blaming t (cause t.kind) := fun _ => rfl
  rw [opening, openGroup, blame, hblame]
  split
  · next hk => exact absurd hk h
  · next hk =>
    simp only [hk, if_true]
    rfl
  · next hk =>
    rw [show (if t.kind = .finish then ParseError.Cause.unexpectedEnd else .unexpectedToken t.kind) =
      .unexpectedToken t.kind from if_neg hk]
    rfl

/-- A dot is a token like others where fields may be accessed. -/
theorem branchDot_eq {other next : Reader β} (h : s.options.memberAccess = true) :
    branchDot s other next = branchOn s (.operator ".") other next := by
  funext ending ts
  cases ts with
  | nil => rfl
  | cons t rest =>
    have hdot : acceptDot (s.before ending) (t :: rest) = (s.before ending).accept (.operator ".") (t :: rest) :=
      if_neg fun hdenied => hdenied.2 h
    rw [branchDot, hdot]
    refine bind_congr fun r => ?_
    obtain _ | ⟨_, rest⟩ := r <;> rfl

/-- A dot is to blame where fields must not be accessed. -/
theorem branchDot_cons {other next : Reader β} {t : Token} (h : s.options.memberAccess = false) :
    branchDot s other next ending (t :: ts) =
      if t.kind = .operator "." then blame s (fun _ => .memberAccessDisabled) ending (t :: ts)
      else other ending (t :: ts) := by
  split
  · next hk =>
    have hdenied : acceptDot (s.before ending) (t :: ts) = .error (.blaming t .memberAccessDisabled) :=
      if_pos ⟨hk, by simpa [TokenSource.before] using h⟩
    rw [branchDot, hdenied]
    rfl
  · next hk =>
    have hother : acceptDot (s.before ending) (t :: ts) = .ok none := by
      rw [acceptDot, if_neg fun hdenied => hk hdenied.1, TokenSource.accept, TokenSource.acceptAs, if_neg hk]
    rw [branchDot, hother]
    rfl

/-- Is the prefix operator in front of the tokens applied to a group? -/
def applies (op : String) : Reader Bool :=
  fun _ ts => .ok (TokenSource.isApplied op ts, ts)

/-! ## Goals -/

/-- What the parser does for a goal. -/
def goal (s : TokenSource) (goal : Goal) : Reader goal.Result :=
  fun ending ts => (parseGoal (s.before ending) goal ts).map Subtype.val

/-- The exponent behind an operand, if there is one. -/
def exponent (s : TokenSource) (x : Derivation .postfixed) : Reader (Derivation .power) :=
  branchOn s (.operator "^") (pure (.base x)) (.power x <$> goal s (.derive .factor))

/-- Postfix operators and an exponent behind an application. -/
def trailing (s : TokenSource) (x : Derivation .application) : Reader (Derivation .power) := do
  exponent s (← goal s (.extend (.applied x)))

theorem goal_expression : goal s (.derive .expression) = (do
    let c ← goal s (.derive (.level .disjunction))
    branchOn s (.operator "?") (pure (.simple c)) do
      let x ← goal s (.derive .expression)
      expect s (.operator ":") .colon
      .choice c x <$> goal s (.derive .expression)) := by
  funext ending ts
  rw [goal, parseGoal]
  refine map_bind_eq fun _ => map_bind_congr fun r => ?_
  obtain _ | ⟨_, ts₂, h₂⟩ := r
  · rfl
  · exact map_bind_eq fun _ => map_bind_eq fun _ => map_bind_eq fun _ => rfl

theorem goal_level (l : Level) : goal s (.derive (.level l)) = (do
    goal s (.extend (.operand (← goal s (.derive l.operand))))) := by
  funext ending ts
  rw [goal, parseGoal]
  exact map_bind_eq fun _ => map_bind_pure fun _ => rfl

theorem goal_power : goal s (.derive .power) = (do exponent s (← goal s (.derive .postfixed))) := by
  funext ending ts
  rw [goal, parseGoal]
  refine map_bind_eq fun _ => map_bind_congr fun r => ?_
  obtain _ | ⟨_, ts₂, h₂⟩ := r
  · rfl
  · exact map_bind_eq fun _ => rfl

theorem goal_postfixed : goal s (.derive .postfixed) = (do
    goal s (.extend (.applied (← goal s (.derive .application))))) := by
  funext ending ts
  rw [goal, parseGoal]
  exact map_bind_eq fun _ => map_bind_pure fun _ => rfl

theorem goal_callee : goal s (.derive .callee) = (do
    goal s (.extend (.uncalled (← goal s (.derive .fields))))) := by
  funext ending ts
  rw [goal, parseGoal]
  exact map_bind_eq fun _ => map_bind_pure fun _ => rfl

theorem goal_fields : goal s (.derive .fields) = (do
    goal s (.extend (.whole (← goal s (.derive .atom))))) := by
  funext ending ts
  rw [goal, parseGoal]
  exact map_bind_eq fun _ => map_bind_pure fun _ => rfl

theorem goal_atom : goal s (.derive .atom) = branch s ofKind? (.inner <$> goal s (.derive .group)) pure := by
  funext ending ts
  rw [goal, parseGoal]
  refine map_bind_congr fun r => ?_
  obtain _ | ⟨x, ts₁, h₁⟩ := r
  · exact map_bind_eq fun _ => rfl
  · rfl

theorem goal_group : goal s (.derive .group) = (do
    opening s
    let x ← goal s (.derive .expression)
    expect s .rightParen .rightParen
    return .group x) := by
  funext ending ts
  rw [goal, parseGoal]
  exact map_bind_eq fun _ => map_bind_eq fun _ => map_bind_eq fun _ => rfl

theorem goal_extend_level {l : Level} (x : Derivation (.level l)) : goal s (.extend x) =
    branch s l.operator? (pure x) (fun op => do
      goal s (.extend (.binary x op (← goal s (.derive l.operand))))) := by
  funext ending ts
  rw [goal, parseGoal]
  refine map_bind_congr fun r => ?_
  obtain _ | ⟨op, ts₁, h₁⟩ := r
  · rfl
  · exact map_bind_eq fun _ => map_bind_pure fun _ => rfl

theorem goal_extend_postfixed (x : Derivation .postfixed) : goal s (.extend x) =
    branchOn s (.operator "!") (pure x) (goal s (.extend x.factorial)) := by
  funext ending ts
  rw [goal, parseGoal]
  refine map_bind_congr fun r => ?_
  obtain _ | ⟨_, ts₁, h₁⟩ := r
  · rfl
  · exact map_bind_pure fun _ => rfl

theorem goal_extend_callee (x : Derivation .callee) : goal s (.extend x) =
    branchOn s .leftParen (pure x) (branchOn s .rightParen
      (do
        let args ← goal s .arguments
        expect s .rightParen .commaOrRightParen
        goal s (.extend (x.call args)))
      (goal s (.extend x.invocation))) := by
  funext ending ts
  rw [goal, parseGoal]
  refine map_bind_congr fun r => ?_
  obtain _ | ⟨_, ts₁, h₁⟩ := r
  · rfl
  · refine map_bind_congr fun r => ?_
    obtain _ | ⟨_, ts₂, h₂⟩ := r
    · exact map_bind_eq fun _ => map_bind_eq fun _ => map_bind_pure fun _ => rfl
    · exact map_bind_pure fun _ => rfl

theorem goal_extend_fields (x : Derivation .fields) : goal s (.extend x) =
    branchDot s (pure x) (do goal s (.extend (.member x (← field s)))) := by
  funext ending ts
  rw [goal, parseGoal]
  refine map_bind_congr fun r => ?_
  obtain _ | ⟨_, ts₁, h₁⟩ := r
  · rfl
  · exact map_bind_eq fun _ => map_bind_pure fun _ => rfl

/-- No rule goes on with a derivation of a category that does not repeat itself. -/
theorem goal_extend_eq_pure {c : Category} (x : Derivation c) (hc : c.operand = c) :
    goal s (.extend x) = pure x := by
  funext ending ts
  cases c with
  | level l => cases l <;> cases hc
  | postfixed | callee | fields => cases hc
  | _ =>
    rw [goal, parseGoal]
    · rfl
    all_goals intros; contradiction

theorem goal_arguments : goal s .arguments = (do
    let x ← goal s (.derive .expression)
    branchOn s .comma (pure (.last x)) (.more x <$> goal s .arguments)) := by
  funext ending ts
  rw [goal, parseGoal]
  refine map_bind_eq fun _ => map_bind_congr fun r => ?_
  obtain _ | ⟨_, ts₂, h₂⟩ := r
  · rfl
  · exact map_bind_eq fun _ => rfl

theorem goal_application : goal s (.derive .application) =
    branch s s.prefixOperator? (.called <$> goal s (.derive .callee)) fun op =>
      .operation op <$> goal s (.derive .group) := by
  funext ending ts
  cases ts with
  | nil =>
    rw [goal, parseGoal]
    exact map_bind_eq fun _ => rfl
  | cons t rest =>
    have hselect : (s.before ending).prefixOperator? t.kind = s.prefixOperator? t.kind := rfl
    rw [goal, parseGoal, hselect]
    cases hunary : s.prefixOperator? t.kind with
    | none =>
      rw [branch_cons_none hunary]
      exact map_bind_eq fun _ => rfl
    | some op =>
      rw [branch_cons hunary]
      exact map_bind_congr fun _ => map_bind_eq fun _ => rfl

/-- A power that starts with a prefix operator is a group behind it, and what trails. -/
theorem goal_power_cons {t : Token} {rest : List Token} {op : String} (hunary : s.prefixOperator? t.kind = some op)
    (hadvance : (s.before ending).advance rest = .ok ()) : goal s (.derive .power) ending (t :: rest) =
      (do trailing s (.operation op (← goal s (.derive .group)))) ending rest := by
  have happlication : goal s (.derive .application) ending (t :: rest) =
      (.operation op <$> goal s (.derive .group)) ending rest := by
    rw [goal_application, branch_cons hunary, hadvance]
    rfl
  rw [goal_power, goal_postfixed, bind_assoc]
  show goal s (.derive .application) ending (t :: rest) >>= _ = _
  rw [happlication]
  show (goal s (.derive .group) ending rest >>= _) >>= _ = goal s (.derive .group) ending rest >>= _
  cases goal s (.derive .group) ending rest <;> rfl

theorem goal_factor : goal s (.derive .factor) =
    branch s s.prefixOperator? (.unsigned <$> goal s (.derive .power)) (fun op => do
      if ← applies op then .unsigned <$> (do trailing s (.operation op (← goal s (.derive .group))))
      else .signed op <$> goal s (.derive .factor)) := by
  funext ending ts
  cases ts with
  | nil =>
    rw [goal, parseGoal]
    exact map_bind_eq fun _ => rfl
  | cons t rest =>
    have hselect : (s.before ending).prefixOperator? t.kind = s.prefixOperator? t.kind := rfl
    rw [goal, parseGoal, hselect]
    cases hunary : s.prefixOperator? t.kind with
    | none =>
      rw [branch_cons_none hunary]
      exact map_bind_eq fun _ => rfl
    | some op =>
      rw [branch_cons hunary]
      cases hadvance : (s.before ending).advance rest with
      | error e => rfl
      | ok a =>
        show Except.map _ (if TokenSource.isApplied op rest then _ else _) =
          (if TokenSource.isApplied op rest then _ else _ : Reader _) ending rest
        split
        · show _ = (do trailing s (.operation op (← goal s (.derive .group)))) ending rest >>= _
          rw [← goal_power_cons hunary hadvance]
          exact map_bind_eq fun _ => rfl
        · exact map_bind_eq fun _ => rfl

end Reader

end Reckon
