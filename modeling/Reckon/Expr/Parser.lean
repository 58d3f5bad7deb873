import Reckon.Expr.Derivation
import Reckon.Token.Lexer

/-!
# Reading expressions

Recursive descent over the tokens of a code. What is looked for is a `Goal`: a derivation of a category at the start of
the tokens, or what may stand behind a derivation that is there. A goal is met by some of the tokens and leaves the
others. The tokens that are left never become more, and where they stay the same the rank of the goal falls, so the
descent ends. An error of the tokens themselves comes up as soon as it is next to be looked at (`TokenSource.advance`).
-/

namespace Reckon

/-- What the parser looks for. -/
inductive Goal
  /-- A derivation of a category. -/
  | derive (c : Category)
  /-- More of a category that repeats itself, behind a derivation of it. -/
  | extend {c : Category} (x : Derivation c)
  /-- The arguments of a call. -/
  | arguments

/-- Derivations of a greater rank may start with one of a lower rank. -/
def Category.rank : Category → Nat
  | group => 0
  | atom => 1
  | fields => 2
  | callee => 3
  | application => 4
  | postfixed => 5
  | power => 6
  | factor => 7
  | level l => 12 - l.depth
  | expression => 13

theorem Level.rank_operand_lt (l : Level) : l.operand.rank < (Category.level l).rank := by
  cases l <;> decide

theorem Category.rank_level_pos (l : Level) : 0 < (Category.level l).rank := by
  cases l <;> decide

namespace Goal

/-- What meets a goal. -/
abbrev Result : Goal → Type
  | derive c => Derivation c
  | extend (c := c) _ => Derivation c
  | arguments => Arguments

/-- Goals of a greater rank may look for those of a lower one at the same token. -/
def rank : Goal → Nat
  | derive c => c.rank
  | extend _ => 0
  | arguments => 14

/-- Fewer tokens or else a lower rank: what ends the descent. -/
theorem descend {m n r s : Nat} (hl : m ≤ n) (hr : r < s) : Prod.Lex (· < ·) (· < ·) (m, r) (n, s) := by
  rcases Nat.lt_or_eq_of_le hl with h | rfl
  · exact .left _ _ h
  · exact .right _ hr

end Goal

/-- What the parser reads from: what may be a prefix operator, which options hold, and what follows the tokens. -/
structure TokenSource where
  /-- The grammar. -/
  grammar : Grammar
  /-- The options. -/
  options : Options
  /-- What follows the tokens: their end, or an error. -/
  ending : Except ParseError Token

/-- Fewer tokens. -/
abbrev Shorter (ts : List Token) := { rest : List Token // rest.length < ts.length }

/-- A result and the tokens behind it, which are not more than there were. -/
abbrev Parsed (α : Type) (ts : List Token) := { r : α × List Token // r.2.length ≤ ts.length }

/-- The same result, seen from where there were more tokens. -/
def Parsed.widen {α : Type} {ts us : List Token} (h : ts.length ≤ us.length) (r : Parsed α ts) : Parsed α us :=
  ⟨r.1, Nat.le_trans r.2 h⟩

namespace TokenSource

/-- The token to look at: the first one, or else the end. -/
def look (s : TokenSource) : List Token → Except ParseError Token
  | t :: _ => .ok t
  | [] => s.ending

/-- Goes on to the tokens `rest`, unless an error is all that is left. -/
def advance (s : TokenSource) (rest : List Token) : Except ParseError Unit :=
  match s.look rest with
  | .ok _ => .ok ()
  | .error e => .error e

/-- The error that blames the token to look at. -/
def blame (s : TokenSource) (ts : List Token) (cause : TokenKind → ParseError.Cause) : ParseError :=
  match s.look ts with
  | .ok t => .blaming t (cause t.kind)
  | .error e => e

/-- Passes the first token if it is one of those asked for: what it stands for, and the tokens behind it. -/
def acceptAs {α : Type} (s : TokenSource) (select : TokenKind → Option α) :
    (ts : List Token) → Except ParseError (Option (α × Shorter ts))
  | [] => .ok none
  | t :: rest =>
    match select t.kind with
    | some a => do
      s.advance rest
      return some (a, ⟨rest, Nat.lt_succ_self _⟩)
    | none => .ok none

/-- Passes the first token if it is of this kind. -/
def accept (s : TokenSource) (kind : TokenKind) (ts : List Token) : Except ParseError (Option (Unit × Shorter ts)) :=
  s.acceptAs (fun k => if k = kind then some () else none) ts

/-- Passes the first token, which has to be of this kind. -/
def expect (s : TokenSource) (kind : TokenKind) (what : Expected) (ts : List Token) :
    Except ParseError (Shorter ts) := do
  match ← s.accept kind ts with
  | some (_, rest) => return rest
  | none => .error (s.blame ts fun _ => .expected what)

/-- The prefix operator that a token is. -/
def prefixOperator? (s : TokenSource) : TokenKind → Option String
  | .operator op => if s.grammar.isUnary op then some op else none
  | _ => none

/-- Is this prefix operator applied to what follows it as a function is, so that the operand ends with the closing
parenthesis? -/
def isApplied (op : String) (rest : List Token) : Bool :=
  op ≠ "-" && op ≠ "+" && rest.head?.map Token.kind = some .leftParen

end TokenSource

/-- The operator of a level that a token is. -/
def Level.operator? (l : Level) : TokenKind → Option String
  | .operator op => if l.operators.contains op then some op else none
  | _ => none

/-- The name of a field that a token can be. -/
def FieldToken.ofKind? : TokenKind → Option FieldToken
  | .name n => some (.name n)
  | .operator op => if (operator op).isWord then some (.operator op) else none
  | _ => none

namespace Derivation

/-- Passes the dot in front of the name of a field, if there is one. -/
def acceptDot (s : TokenSource) : (ts : List Token) → Except ParseError (Option (Unit × Shorter ts))
  | [] => .ok none
  | t :: rest =>
    if t.kind = .operator "." ∧ ¬s.options.memberAccess then .error (.blaming t .memberAccessDisabled)
    else s.accept (.operator ".") (t :: rest)

/-- Passes the name of a field. -/
def expectField (s : TokenSource) (ts : List Token) : Except ParseError (FieldToken × Shorter ts) := do
  match ← s.acceptAs FieldToken.ofKind? ts with
  | some r => return r
  | none => .error (s.blame ts fun _ => .expected .fieldName)

/-- The atom that a token is by itself. -/
def ofKind? : TokenKind → Option (Derivation .atom)
  | .name n => some (.name n)
  | .number v => some (.number v)
  | .string v => some (.string v)
  | _ => none

/-- Passes the parenthesis that opens a group; nothing else can start an operand here. -/
def openGroup (s : TokenSource) : (ts : List Token) → Except ParseError (Shorter ts)
  | [] => .error (s.blame [] fun _ => .unexpectedEnd)
  | t :: rest =>
    match t.kind with
    | .leftParen => do
      s.advance rest
      return ⟨rest, Nat.lt_succ_self _⟩
    | .finish => .error (.blaming t .unexpectedEnd)
    | k => .error (.blaming t (.unexpectedToken k))

/-- Meets a goal at the start of the tokens. -/
def parseGoal (s : TokenSource) : (goal : Goal) → (ts : List Token) → Except ParseError (Parsed goal.Result ts)
  | .derive .expression, ts => do
    let ⟨(c, ts₁), h₁⟩ ← parseGoal s (.derive (.level .disjunction)) ts
    match ← s.accept (.operator "?") ts₁ with
    | none => return ⟨(.simple c, ts₁), h₁⟩
    | some (_, ⟨ts₂, h₂⟩) =>
      let ⟨(x, ts₃), h₃⟩ ← parseGoal s (.derive .expression) ts₂
      let ⟨ts₄, h₄⟩ ← s.expect (.operator ":") .colon ts₃
      let ⟨(y, ts₅), h₅⟩ ← parseGoal s (.derive .expression) ts₄
      return ⟨(.choice c x y, ts₅), by simp_all only; omega⟩
  | .derive (.level l), ts => do
    let ⟨(x, ts₁), h₁⟩ ← parseGoal s (.derive l.operand) ts
    let r ← parseGoal s (.extend (.operand x)) ts₁
    return r.widen h₁
  | .derive .factor, [] => do
    let ⟨(x, ts₁), h₁⟩ ← parseGoal s (.derive .power) []
    return ⟨(.unsigned x, ts₁), h₁⟩
  | .derive .factor, t :: rest => do
    match s.prefixOperator? t.kind with
    | none =>
      let ⟨(x, ts₁), h₁⟩ ← parseGoal s (.derive .power) (t :: rest)
      return ⟨(.unsigned x, ts₁), h₁⟩
    | some op =>
      s.advance rest
      if TokenSource.isApplied op rest then
        let ⟨(x, ts₁), h₁⟩ ← parseGoal s (.derive .power) (t :: rest)
        return ⟨(.unsigned x, ts₁), h₁⟩
      else
        let ⟨(x, ts₁), h₁⟩ ← parseGoal s (.derive .factor) rest
        return ⟨(.signed op x, ts₁), Nat.le_succ_of_le h₁⟩
  | .derive .power, ts => do
    let ⟨(x, ts₁), h₁⟩ ← parseGoal s (.derive .postfixed) ts
    match ← s.accept (.operator "^") ts₁ with
    | none => return ⟨(.base x, ts₁), h₁⟩
    | some (_, ⟨ts₂, h₂⟩) =>
      let ⟨(y, ts₃), h₃⟩ ← parseGoal s (.derive .factor) ts₂
      return ⟨(.power x y, ts₃), by simp_all only; omega⟩
  | .derive .postfixed, ts => do
    let ⟨(x, ts₁), h₁⟩ ← parseGoal s (.derive .application) ts
    let r ← parseGoal s (.extend (.applied x)) ts₁
    return r.widen h₁
  | .derive .application, [] => do
    let ⟨(x, ts₁), h₁⟩ ← parseGoal s (.derive .callee) []
    return ⟨(.called x, ts₁), h₁⟩
  | .derive .application, t :: rest => do
    match s.prefixOperator? t.kind with
    | some op =>
      s.advance rest
      let ⟨(x, ts₁), h₁⟩ ← parseGoal s (.derive .group) rest
      return ⟨(.operation op x, ts₁), Nat.le_succ_of_le h₁⟩
    | none =>
      let ⟨(x, ts₁), h₁⟩ ← parseGoal s (.derive .callee) (t :: rest)
      return ⟨(.called x, ts₁), h₁⟩
  | .derive .callee, ts => do
    let ⟨(x, ts₁), h₁⟩ ← parseGoal s (.derive .fields) ts
    let r ← parseGoal s (.extend (.uncalled x)) ts₁
    return r.widen h₁
  | .derive .fields, ts => do
    let ⟨(x, ts₁), h₁⟩ ← parseGoal s (.derive .atom) ts
    let r ← parseGoal s (.extend (.whole x)) ts₁
    return r.widen h₁
  | .derive .atom, ts => do
    match ← s.acceptAs ofKind? ts with
    | some (x, ⟨ts₁, h₁⟩) => return ⟨(x, ts₁), Nat.le_of_lt h₁⟩
    | none =>
      let ⟨(x, ts₁), h₁⟩ ← parseGoal s (.derive .group) ts
      return ⟨(.inner x, ts₁), h₁⟩
  | .derive .group, ts => do
    let ⟨ts₁, h₁⟩ ← openGroup s ts
    let ⟨(x, ts₂), h₂⟩ ← parseGoal s (.derive .expression) ts₁
    let ⟨ts₃, h₃⟩ ← s.expect .rightParen .rightParen ts₂
    return ⟨(.group x, ts₃), by simp_all only; omega⟩
  | .extend (c := .level l) x, ts => do
    match ← s.acceptAs l.operator? ts with
    | none => return ⟨(x, ts), Nat.le_refl _⟩
    | some (op, ⟨ts₁, h₁⟩) =>
      let ⟨(y, ts₂), h₂⟩ ← parseGoal s (.derive l.operand) ts₁
      let r ← parseGoal s (.extend (.binary x op y)) ts₂
      return r.widen (by simp_all only; omega)
  | .extend (c := .postfixed) x, ts => do
    match ← s.accept (.operator "!") ts with
    | none => return ⟨(x, ts), Nat.le_refl _⟩
    | some (_, ⟨ts₁, h₁⟩) =>
      let r ← parseGoal s (.extend (.factorial x)) ts₁
      return r.widen (Nat.le_of_lt h₁)
  | .extend (c := .callee) x, ts => do
    match ← s.accept .leftParen ts with
    | none => return ⟨(x, ts), Nat.le_refl _⟩
    | some (_, ⟨ts₁, h₁⟩) =>
      match ← s.accept .rightParen ts₁ with
      | some (_, ⟨ts₂, h₂⟩) =>
        let r ← parseGoal s (.extend (.invocation x)) ts₂
        return r.widen (by omega)
      | none =>
        let ⟨(args, ts₂), h₂⟩ ← parseGoal s .arguments ts₁
        let ⟨ts₃, h₃⟩ ← s.expect .rightParen .commaOrRightParen ts₂
        let r ← parseGoal s (.extend (.call x args)) ts₃
        return r.widen (by simp_all only; omega)
  | .extend (c := .fields) x, ts => do
    match ← acceptDot s ts with
    | none => return ⟨(x, ts), Nat.le_refl _⟩
    | some (_, ⟨ts₁, h₁⟩) =>
      let (field, ⟨ts₂, h₂⟩) ← expectField s ts₁
      let r ← parseGoal s (.extend (.member x field)) ts₂
      return r.widen (by omega)
  | .extend x, ts => return ⟨(x, ts), Nat.le_refl _⟩
  | .arguments, ts => do
    let ⟨(x, ts₁), h₁⟩ ← parseGoal s (.derive .expression) ts
    match ← s.accept .comma ts₁ with
    | none => return ⟨(.last x, ts₁), h₁⟩
    | some (_, ⟨ts₂, h₂⟩) =>
      let ⟨(rest, ts₃), h₃⟩ ← parseGoal s .arguments ts₂
      return ⟨(.more x rest, ts₃), by simp_all only; omega⟩
termination_by goal ts => (ts.length, goal.rank)
decreasing_by
  all_goals try simp only [List.length_cons] at *
  all_goals first
    | exact Prod.Lex.left _ _ (by omega)
    | exact Goal.descend (by omega)
        (by first | exact l.rank_operand_lt | exact Category.rank_level_pos _ | exact Nat.succ_pos _ | decide)

/-- The derivation of the tokens as a whole. -/
def ofTokens (s : TokenSource) (ts : List Token) : Except ParseError (Derivation .expression) := do
  s.advance ts
  let ⟨(x, rest), _⟩ ← parseGoal s (.derive .expression) ts
  match rest with
  | [] => return x
  | t :: _ => .error (.blaming t (.expected .finish))

/-- The derivation of a code. -/
def parse (g : Grammar) (o : Options) (code : String) : Except ParseError (Derivation .expression) :=
  let ts := Tokens.ofCode g o code
  ofTokens ⟨g, o, ts.ending⟩ ts.list

end Derivation

/-- The expression of a code. -/
def Expr.parse (g : Grammar) (o : Options) (code : String) : Except ParseError Expr :=
  (Derivation.parse g o code).map Derivation.expr

/-- The program of a code. -/
def Program.parse (g : Grammar) (o : Options) (code : String) : Except ParseError Program :=
  (Expr.parse g o code).map Expr.program

end Reckon
