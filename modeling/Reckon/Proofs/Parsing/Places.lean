import Reckon.Proofs.Parsing.Completeness

/-!
# The parser does not look at places

What the parser makes of tokens, a derivation or the cause of an error, depends on what the tokens are and not on where
they stand or how they are written (`Reader.IgnoresPlaces`). The steps of the parser are like that, and so is one reader
behind another, and thus what the parser does for any goal (`Goal.ignoresPlaces`). So codes with the same tokens are
read as the same, or fail for the same cause (`Program.parse_eq_of_placeless`).
-/

namespace Reckon

/-- The same token without its place and its text. -/
def Token.placeless (t : Token) : Token :=
  t.kind.token

/-- The same error without its place and its text. -/
def ParseError.placeless (e : ParseError) : ParseError :=
  ⟨e.cause, .start, []⟩

/-- A result seen without places, or the error without its own. -/
def forgetPlaces {α β : Type} (f : α → β) : Except ParseError α → Except ParseError β
  | .ok a => .ok (f a)
  | .error e => .error e.placeless

section

variable {s : TokenSource} {ending : Except ParseError Token} {ts : List Token}

theorem TokenSource.look_placeless :
    (s.before (forgetPlaces Token.placeless ending)).look (ts.map Token.placeless) =
      forgetPlaces Token.placeless ((s.before ending).look ts) := by
  cases ts <;> rfl

theorem TokenSource.advance_placeless :
    (s.before (forgetPlaces Token.placeless ending)).advance (ts.map Token.placeless) =
      forgetPlaces id ((s.before ending).advance ts) := by
  rw [advance, advance, look_placeless]
  cases (s.before ending).look ts <;> rfl

end

namespace Reader

open Reckon.Derivation

variable {α β : Type}

/-- What is read, or the cause of the error, is the same without the places of the tokens. -/
def IgnoresPlaces (m : Reader α) (ending : Except ParseError Token) (ts : List Token) : Prop :=
  m (forgetPlaces Token.placeless ending) (ts.map Token.placeless) =
    forgetPlaces (Prod.map id (List.map Token.placeless)) (m ending ts)

namespace IgnoresPlaces

variable {s : TokenSource} {ending : Except ParseError Token} {ts : List Token} {m : Reader α}

/-! ## Steps -/

theorem pure (a : α) : IgnoresPlaces (pure a) ending ts := rfl

theorem bind {f : α → Reader β} (hm : m.IgnoresPlaces ending ts)
    (hf : ∀ a rest, m ending ts = .ok (a, rest) → (f a).IgnoresPlaces ending rest) :
    (m >>= f).IgnoresPlaces ending ts := by
  have hbind : ∀ ending ts, (m >>= f) ending ts = m ending ts >>= fun r => f r.1 ending r.2 := fun _ _ => rfl
  rw [IgnoresPlaces, hbind, hbind, hm]
  cases h : m ending ts with
  | error e => rfl
  | ok r => exact hf r.1 r.2 h

theorem map {f : α → β} (hm : m.IgnoresPlaces ending ts) : (f <$> m).IgnoresPlaces ending ts := by
  have hmap : f <$> m = m >>= fun a => Pure.pure (f a) := (bind_pure_comp f m).symm
  rw [hmap]
  exact hm.bind fun a rest _ => pure (f a)

/-- A token is passed, and then it is as behind it. -/
theorem cons {t : Token} {m' : Reader α} (hm : m.IgnoresPlaces ending ts)
    (h : ∀ ending' ts' t', t'.kind = t.kind →
      m' ending' (t' :: ts') = (s.before ending').advance ts' >>= fun _ => m ending' ts') :
    m'.IgnoresPlaces ending (t :: ts) := by
  rw [IgnoresPlaces, List.map_cons, h _ _ t.placeless rfl, h _ _ t rfl, TokenSource.advance_placeless]
  cases (s.before ending).advance ts with
  | error e => rfl
  | ok _ => exact hm

theorem blame (cause : TokenKind → ParseError.Cause) : (blame s cause : Reader α).IgnoresPlaces ending ts := by
  rw [IgnoresPlaces, Reader.blame, Reader.blame, TokenSource.blame, TokenSource.blame, TokenSource.look_placeless]
  cases (s.before ending).look ts <;> rfl

theorem branch {select : TokenKind → Option α} {other : Reader β} {next : α → Reader β}
    (hother : other.IgnoresPlaces ending ts)
    (hnext : ∀ a rest, rest.length < ts.length → (next a).IgnoresPlaces ending rest) :
    (branch s select other next).IgnoresPlaces ending ts := by
  cases ts with
  | nil => exact hother
  | cons t rest =>
    cases hselect : select t.kind with
    | none =>
      rw [IgnoresPlaces, List.map_cons, branch_cons_none (t := t.placeless) hselect, branch_cons_none hselect]
      exact hother
    | some a =>
      have hrest : rest.length < (t :: rest).length := Nat.lt_succ_self _
      exact cons (hnext a rest hrest) fun ending' ts' t' ht' => branch_cons (ht'.symm ▸ hselect)

theorem branchOn {k : TokenKind} {other next : Reader β} (hother : other.IgnoresPlaces ending ts)
    (hnext : ∀ rest, rest.length < ts.length → next.IgnoresPlaces ending rest) :
    (branchOn s k other next).IgnoresPlaces ending ts :=
  branch hother fun _ => hnext

theorem branchDot {other next : Reader β} (hother : other.IgnoresPlaces ending ts)
    (hnext : ∀ rest, rest.length < ts.length → next.IgnoresPlaces ending rest) :
    (branchDot s other next).IgnoresPlaces ending ts := by
  cases haccess : s.options.memberAccess with
  | true =>
    rw [branchDot_eq haccess]
    exact branchOn hother hnext
  | false =>
    cases ts with
    | nil => exact hother
    | cons t rest =>
      rw [IgnoresPlaces, List.map_cons, branchDot_cons haccess, branchDot_cons haccess]
      have hkind : t.placeless.kind = t.kind := rfl
      rw [hkind]
      split
      · exact (blame _ : (Reader.blame s _).IgnoresPlaces ending (t :: rest))
      · exact hother

theorem expect {k : TokenKind} {what : Expected} : (expect s k what).IgnoresPlaces ending ts := by
  rw [expect_eq]
  exact branchOn (blame _) fun _ _ => pure ()

theorem field : (field s).IgnoresPlaces ending ts := by
  rw [field_eq]
  exact branch (blame _) fun f _ _ => pure f

theorem opening : (opening s).IgnoresPlaces ending ts := by
  cases ts with
  | nil => exact (blame _ : (Reader.blame s fun _ => .unexpectedEnd).IgnoresPlaces ending [])
  | cons t rest =>
    by_cases hk : t.kind = .leftParen
    · exact cons (m := Pure.pure ()) (pure ()) fun ending' ts' t' ht' => opening_cons (ht'.trans hk)
    · rw [IgnoresPlaces, List.map_cons, opening_cons_of_ne (t := t.placeless) hk, opening_cons_of_ne hk]
      exact (blame _ : (Reader.blame s _).IgnoresPlaces ending (t :: rest))

theorem applies {op : String} : (applies op).IgnoresPlaces ending ts := by
  cases ts <;> rfl

end IgnoresPlaces

/-! ## What is left -/

variable {s : TokenSource} {ending : Except ParseError Token} {ts rest : List Token}

theorem length_le_of_goal {goal : Goal} {x : goal.Result} (h : Reader.goal s goal ending ts = .ok (x, rest)) :
    rest.length ≤ ts.length := by
  obtain ⟨⟨r, hle⟩, -, rfl⟩ := map_eq_ok.1 h
  exact hle

theorem length_lt_of_expect {k : TokenKind} {what : Expected} (h : expect s k what ending ts = .ok ((), rest)) :
    rest.length < ts.length := by
  obtain ⟨r, -, hr⟩ := map_eq_ok.1 h
  cases hr
  exact r.2

theorem length_lt_of_opening (h : opening s ending ts = .ok ((), rest)) : rest.length < ts.length := by
  obtain ⟨r, -, hr⟩ := map_eq_ok.1 h
  cases hr
  exact r.2

theorem length_lt_of_field {f : FieldToken} (h : field s ending ts = .ok (f, rest)) : rest.length < ts.length := by
  obtain ⟨r, -, hr⟩ := map_eq_ok.1 h
  cases hr
  exact r.2.2

end Reader

/-! ## Goals -/

open Reader

/-- What the parser does for a goal does not depend on places. -/
def Goal.IgnoresPlaces (s : TokenSource) (ending : Except ParseError Token) (goal : Goal) (ts : List Token) : Prop :=
  (Reader.goal s goal).IgnoresPlaces ending ts

/-- No goal depends on places where fewer tokens are left. -/
def Goal.IgnoresPlacesBelow (s : TokenSource) (ending : Except ParseError Token) (ts : List Token) : Prop :=
  ∀ rest, rest.length < ts.length → ∀ goal : Goal, goal.IgnoresPlaces s ending rest

namespace Goal.IgnoresPlaces

open Reckon.Derivation

variable {s : TokenSource} {ending : Except ParseError Token} {ts : List Token}

/-- What is left behind a goal are not more tokens. -/
theorem bind {goal : Goal} {α : Type} {f : goal.Result → Reader α} (hgoal : goal.IgnoresPlaces s ending ts)
    (hf : ∀ x rest, rest.length ≤ ts.length → (f x).IgnoresPlaces ending rest) :
    (Reader.goal s goal >>= f).IgnoresPlaces ending ts :=
  Reader.IgnoresPlaces.bind hgoal fun x rest h => hf x rest (length_le_of_goal h)

theorem expression (hc : (derive (.level .disjunction)).IgnoresPlaces s ending ts)
    (ih : IgnoresPlacesBelow s ending ts) : (derive .expression).IgnoresPlaces s ending ts := by
  rw [Goal.IgnoresPlaces, goal_expression]
  refine hc.bind fun c rest hle => .branchOn (.pure _) fun rest₁ h₁ => ?_
  refine (ih rest₁ (by omega) (.derive .expression)).bind fun x rest₂ h₂ => ?_
  refine Reader.IgnoresPlaces.expect.bind fun _ rest₃ h₃ => ?_
  have h₃ := length_lt_of_expect h₃
  exact .map (ih rest₃ (by omega) (.derive .expression))

/-- A category that repeats itself. -/
theorem extended {c c' : Category} {f : Derivation c' → Derivation c}
    (hgoal : Reader.goal s (.derive c) = (do Reader.goal s (.extend (f (← Reader.goal s (.derive c'))))))
    (hc : (derive c').IgnoresPlaces s ending ts)
    (hextend : ∀ x rest, rest.length ≤ ts.length → (extend (f x)).IgnoresPlaces s ending rest) :
    (derive c).IgnoresPlaces s ending ts := by
  rw [Goal.IgnoresPlaces, hgoal]
  exact hc.bind hextend

theorem exponent {x : Derivation .postfixed} (ih : IgnoresPlacesBelow s ending ts) :
    (exponent s x).IgnoresPlaces ending ts :=
  .branchOn (.pure _) fun rest h => .map (ih rest h (.derive .factor))

theorem factor (hx : (derive .power).IgnoresPlaces s ending ts) (ih : IgnoresPlacesBelow s ending ts) :
    (derive .factor).IgnoresPlaces s ending ts := by
  rw [Goal.IgnoresPlaces, goal_factor]
  refine .branch (.map hx) fun op rest hrest => ?_
  refine Reader.IgnoresPlaces.applies.bind fun applied rest' happlied => ?_
  cases happlied
  split
  · refine .map ((ih rest hrest (.derive .group)).bind fun x rest₁ h₁ => ?_)
    refine (ih rest₁ (by omega) (.extend _)).bind fun y rest₂ h₂ => ?_
    exact exponent fun rest₃ h₃ => ih rest₃ (by omega)
  · exact .map (ih rest hrest (.derive .factor))

theorem power (hx : (derive .postfixed).IgnoresPlaces s ending ts) (ih : IgnoresPlacesBelow s ending ts) :
    (derive .power).IgnoresPlaces s ending ts := by
  rw [Goal.IgnoresPlaces, goal_power]
  exact hx.bind fun x rest hle => exponent fun rest' hlt => ih rest' (by omega)

theorem application (hx : (derive .callee).IgnoresPlaces s ending ts) (ih : IgnoresPlacesBelow s ending ts) :
    (derive .application).IgnoresPlaces s ending ts := by
  rw [Goal.IgnoresPlaces, goal_application]
  exact .branch (.map hx) fun op rest hrest => .map (ih rest hrest (.derive .group))

theorem atom (hx : (derive .group).IgnoresPlaces s ending ts) : (derive .atom).IgnoresPlaces s ending ts := by
  rw [Goal.IgnoresPlaces, goal_atom]
  exact .branch (.map hx) fun x _ _ => .pure x

theorem group (ih : IgnoresPlacesBelow s ending ts) : (derive .group).IgnoresPlaces s ending ts := by
  rw [Goal.IgnoresPlaces, goal_group]
  refine Reader.IgnoresPlaces.opening.bind fun _ rest h => ?_
  have h := length_lt_of_opening h
  refine (ih rest h (.derive .expression)).bind fun x rest₁ h₁ => ?_
  exact Reader.IgnoresPlaces.expect.bind fun _ _ _ => .pure _

theorem extend_level {l : Level} (x : Derivation (.level l)) (ih : IgnoresPlacesBelow s ending ts) :
    (extend x).IgnoresPlaces s ending ts := by
  rw [Goal.IgnoresPlaces, goal_extend_level]
  refine .branch (.pure x) fun op rest hrest => ?_
  exact (ih rest hrest (.derive l.operand)).bind fun y rest₁ h₁ => ih rest₁ (by omega) (.extend _)

theorem extend_postfixed (x : Derivation .postfixed) (ih : IgnoresPlacesBelow s ending ts) :
    (extend x).IgnoresPlaces s ending ts := by
  rw [Goal.IgnoresPlaces, goal_extend_postfixed]
  exact .branchOn (.pure x) fun rest h => ih rest h (.extend _)

theorem extend_callee (x : Derivation .callee) (ih : IgnoresPlacesBelow s ending ts) :
    (extend x).IgnoresPlaces s ending ts := by
  rw [Goal.IgnoresPlaces, goal_extend_callee]
  refine .branchOn (.pure x) fun rest h => .branchOn ?_ fun rest₁ h₁ => ih rest₁ (by omega) (.extend _)
  refine (ih rest h .arguments).bind fun args rest₁ h₁ => ?_
  refine Reader.IgnoresPlaces.expect.bind fun _ rest₂ h₂ => ?_
  have h₂ := length_lt_of_expect h₂
  exact ih rest₂ (by omega) (.extend _)

theorem extend_fields (x : Derivation .fields) (ih : IgnoresPlacesBelow s ending ts) :
    (extend x).IgnoresPlaces s ending ts := by
  rw [Goal.IgnoresPlaces, goal_extend_fields]
  refine .branchDot (.pure x) fun rest h => Reader.IgnoresPlaces.field.bind fun f rest₁ h₁ => ?_
  have h₁ := length_lt_of_field h₁
  exact ih rest₁ (by omega) (.extend _)

theorem arguments (hx : (derive .expression).IgnoresPlaces s ending ts) (ih : IgnoresPlacesBelow s ending ts) :
    Goal.arguments.IgnoresPlaces s ending ts := by
  rw [Goal.IgnoresPlaces, goal_arguments]
  exact hx.bind fun x rest hle => .branchOn (.pure _) fun rest₁ h₁ => .map (ih rest₁ (by omega) .arguments)

end Goal.IgnoresPlaces

/-- What the parser does for any goal does not depend on places. -/
theorem Goal.ignoresPlaces {s : TokenSource} {ending : Except ParseError Token} (goal : Goal) (ts : List Token) :
    goal.IgnoresPlaces s ending ts := by
  have ih : IgnoresPlacesBelow s ending ts := fun rest _ goal => ignoresPlaces goal rest
  match goal with
  | .derive .expression => exact .expression (ignoresPlaces (.derive (.level .disjunction)) ts) ih
  | .derive (.level l) =>
    exact .extended (Reader.goal_level l) (ignoresPlaces (.derive l.operand) ts)
      fun x rest _ => ignoresPlaces (.extend (.operand x)) rest
  | .derive .factor => exact .factor (ignoresPlaces (.derive .power) ts) ih
  | .derive .power => exact .power (ignoresPlaces (.derive .postfixed) ts) ih
  | .derive .postfixed =>
    exact .extended Reader.goal_postfixed (ignoresPlaces (.derive .application) ts)
      fun x rest _ => ignoresPlaces (.extend (.applied x)) rest
  | .derive .application => exact .application (ignoresPlaces (.derive .callee) ts) ih
  | .derive .callee =>
    exact .extended Reader.goal_callee (ignoresPlaces (.derive .fields) ts)
      fun x rest _ => ignoresPlaces (.extend (.uncalled x)) rest
  | .derive .fields =>
    exact .extended Reader.goal_fields (ignoresPlaces (.derive .atom) ts)
      fun x rest _ => ignoresPlaces (.extend (.whole x)) rest
  | .derive .atom => exact .atom (ignoresPlaces (.derive .group) ts)
  | .derive .group => exact .group ih
  | .extend (c := .level l) x => exact .extend_level x ih
  | .extend (c := .postfixed) x => exact .extend_postfixed x ih
  | .extend (c := .callee) x => exact .extend_callee x ih
  | .extend (c := .fields) x => exact .extend_fields x ih
  | .extend (c := .expression) x | .extend (c := .factor) x | .extend (c := .power) x
  | .extend (c := .application) x | .extend (c := .atom) x | .extend (c := .group) x =>
    -- no rule goes on with a derivation of the other categories
    rw [IgnoresPlaces, Reader.goal_extend_eq_pure x rfl]
    exact .pure x
  | .arguments => exact .arguments (ignoresPlaces (.derive .expression) ts) ih
termination_by (ts.length, goal.rank)
decreasing_by
  all_goals first
    | exact Prod.Lex.left _ _ (by assumption)
    | exact Goal.descend (by omega)
        (by first | exact l.rank_operand_lt | exact Category.rank_level_pos _ | exact Nat.succ_pos _ | decide)

/-! ## Codes -/

theorem Reader.IgnoresPlaces.finish {α : Type} {ending : Except ParseError Token} {ts : List Token} (a : α) :
    (Reader.finish a).IgnoresPlaces ending ts := by
  cases ts <;> rfl

/-- The tokens as a whole are read without regard to their places. -/
theorem Reader.ignoresPlaces_whole (s : TokenSource) (ending : Except ParseError Token) (ts : List Token) :
    (whole s).IgnoresPlaces ending ts := by
  have hread : (goal s (.derive .expression) >>= Reader.finish).IgnoresPlaces ending ts :=
    (Goal.ignoresPlaces (.derive .expression) ts).bind fun x rest _ => .finish x
  rw [IgnoresPlaces, whole, whole, TokenSource.advance_placeless]
  cases (s.before ending).advance ts with
  | error e => rfl
  | ok _ => exact hread

/-- The same tokens, or the same error behind them, without places. -/
def Tokens.placeless (ts : Tokens) : Tokens :=
  ⟨ts.list.map Token.placeless, forgetPlaces Token.placeless ts.ending⟩

/-- Tokens that differ in their places derive the same, or there is the same cause of an error. -/
theorem Derivation.ofTokens_placeless (s : TokenSource) (ts : List Token) :
    (ofTokens (s.before (forgetPlaces Token.placeless s.ending)) (ts.map Token.placeless)).mapError ParseError.cause =
      (ofTokens s ts).mapError ParseError.cause := by
  have hwhole := Reader.ignoresPlaces_whole s s.ending ts
  have hs : s.before s.ending = s := rfl
  rw [Reader.IgnoresPlaces, Reader.whole_eq, Reader.whole_eq, hs] at hwhole
  cases hplaceless : ofTokens (s.before (forgetPlaces Token.placeless s.ending)) (ts.map Token.placeless) <;>
    cases hts : ofTokens s ts <;> rw [hplaceless, hts] at hwhole <;> cases hwhole <;> rfl

/-- Codes whose tokens differ in their places are the same program, or there is the same cause of an error. -/
theorem Program.parse_eq_of_placeless {g : Grammar} {o : Options} {code code' : String}
    (h : (Tokens.ofCode g o code').placeless = (Tokens.ofCode g o code).placeless) :
    (Program.parse g o code').mapError ParseError.cause = (Program.parse g o code).mapError ParseError.cause := by
  have hmap : ∀ {α β : Type} (f : α → β) (x : Except ParseError α),
      (x.map f).mapError ParseError.cause = (x.mapError ParseError.cause).map f := by
    intro α β f x
    cases x <;> rfl
  have hplaceless : ∀ code, (Derivation.parse g o code).mapError ParseError.cause =
      (Derivation.ofTokens ⟨g, o, (Tokens.ofCode g o code).placeless.ending⟩
        (Tokens.ofCode g o code).placeless.list).mapError ParseError.cause := fun code =>
    (Derivation.ofTokens_placeless ⟨g, o, (Tokens.ofCode g o code).ending⟩ (Tokens.ofCode g o code).list).symm
  rw [Program.parse, Program.parse, Expr.parse, Expr.parse, hmap, hmap, hmap, hmap, hplaceless, hplaceless, h]

end Reckon
