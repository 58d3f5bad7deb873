import Reckon.Proofs.Parsing.Readers

/-!
# What the parser makes of any tokens

Reading comes to one of three ends (`Reader.Outcome`). Some of the tokens are read as something; or a token is to blame,
and the tokens in front of it can be completed to something that would be read; or the error that ends the tokens comes
up. In the first two cases the tokens behind the one that is looked at make no difference: this is what shows that the
token to blame cannot be saved by what follows. The steps of the parser come to such an end, and so does one reader
behind another (`Reader.Outcome.bind`), so that there is one lemma for each rule of the grammar
(`Goal.Answered.expression` and those behind it) and one induction along the descent of the parser (`Goal.answered`).
-/

namespace Reckon

variable {g : Grammar} {o : Options}

/-! ## Completions -/

/-- A derivation of each category: that of a name, in parentheses for a group. -/
def Derivation.plain : (c : Category) → Derivation c
  | .atom => .name "x"
  | .fields => .whole (plain .atom)
  | .callee => .uncalled (plain .fields)
  | .application => .called (plain .callee)
  | .postfixed => .applied (plain .application)
  | .power => .base (plain .postfixed)
  | .factor => .unsigned (plain .power)
  | .level l => .operand (plain l.operand)
  | .expression => .simple (plain (.level .disjunction))
  | .group => .group (plain .expression)
termination_by c => if c = .group then Category.expression.rank + 1 else c.rank
decreasing_by
  all_goals try decide
  cases l <;> decide

namespace Derivation.Derives

variable {u v w : List TokenKind}

theorem plain (c : Category) : (plain c).Derives g o (plain c).tokens := by
  refine ⟨rfl, ?_⟩
  induction c using Derivation.plain.induct with
  | case1 =>
    rw [Derivation.plain]
    trivial
  | _ =>
    rw [Derivation.plain]
    assumption

theorem choice {c : Derivation (.level .disjunction)} {x y : Derivation .expression} (hc : c.Derives g o u)
    (hx : x.Derives g o v) (hy : y.Derives g o w) :
    (Derivation.choice c x y).Derives g o (u ++ .operator "?" :: (v ++ .operator ":" :: w)) :=
  ⟨by simp [Derivation.tokens, hc.tokens, hx.tokens, hy.tokens], hc.proper, hx.proper, hy.proper⟩

theorem group {x : Derivation .expression} (hx : x.Derives g o u) :
    (Derivation.group x).Derives g o (.leftParen :: (u ++ [.rightParen])) :=
  ⟨by simp [Derivation.tokens, hx.tokens], hx.proper⟩

theorem signed {op : String} {x : Derivation .factor} (hop : g.isUnary op = true) (hx : x.Derives g o u)
    (happlied : op = "-" ∨ op = "+" ∨ u.head? ≠ some .leftParen) :
    (Derivation.signed op x).Derives g o (.operator op :: u) :=
  ⟨by simp [Derivation.tokens, hx.tokens], hop, by rwa [hx.tokens], hx.proper⟩

theorem operation {op : String} {x : Derivation .group} (hop : g.isUnary op = true) (hx : x.Derives g o u)
    (hminus : op ≠ "-") (hplus : op ≠ "+") : (Derivation.operation op x).Derives g o (.operator op :: u) :=
  ⟨by simp [Derivation.tokens, hx.tokens], hop, hminus, hplus, hx.proper⟩

end Derivation.Derives

/-- A derivation of what `x` derives and tokens of the kinds `u` behind it. -/
def Derivation.Continues (g : Grammar) (o : Options) {c c' : Category} (x : Derivation c) (d : Derivation c')
    (u : List TokenKind) : Prop :=
  d.tokens = x.tokens ++ u ∧ (x.Proper g o → d.Proper g o)

theorem Derivation.Derives.continue {c c' : Category} {x : Derivation c} {d : Derivation c'} {u v : List TokenKind}
    (hx : x.Derives g o u) (hd : x.Continues g o d v) : d.Derives g o (u ++ v) :=
  ⟨by rw [hd.1, hx.tokens], hd.2 hx.proper⟩

/-! ## Goals -/

/-- A result meets a goal with the tokens of the kinds `u`: it derives them, or it is what was there with them. -/
def Goal.Met (g : Grammar) (o : Options) : (goal : Goal) → goal.Result → List TokenKind → Prop
  | .derive _, d, u => d.Derives g o u
  | .extend x, d, u => d.tokens = x.tokens ++ u ∧ (x.Proper g o → d.Proper g o)
  | .arguments, a, u => a.tokens = u ∧ a.Proper g o

namespace Derivation

variable {g : Grammar} {o : Options} {c : Category} {u v : List TokenKind}

/-- Nothing more behind a derivation. -/
theorem met_extend_refl (x : Derivation c) : Goal.Met g o (.extend x) x [] := ⟨(List.append_nil _).symm, id⟩

/-- What extends `x` to `d` extends `y` to `d` if some of the tokens extend `y` to `x`. -/
theorem met_extend_trans {x y d : Derivation c} (hx : Goal.Met g o (.extend y) x u)
    (hd : Goal.Met g o (.extend x) d v) : Goal.Met g o (.extend y) d (u ++ v) :=
  ⟨by rw [hd.1, hx.1, List.append_assoc], hd.2 ∘ hx.2⟩

/-- An atom of one token is what the token stands for. -/
theorem derives_of_ofKind? {k : TokenKind} {x : Derivation .atom} {g : Grammar} {o : Options}
    (h : ofKind? k = some x) : x.Derives g o [k] := by
  cases k <;> cases h <;> exact ⟨rfl, trivial⟩

end Derivation

/-! ## What reading comes to -/

namespace TokenSource

variable {s : TokenSource} {first : Option Token} {ts rest : List Token}

/-- What stands first, a token or the end, and there is no error to look at. -/
structure Shows (s : TokenSource) (first : Option Token) (ts : List Token) : Prop where
  head : ts.head? = first
  advance : s.advance ts = .ok ()

theorem Shows.append (h : s.Shows rest.head? ts) (us : List Token) : s.Shows (us ++ rest).head? (us ++ ts) := by
  cases us with
  | nil => exact h
  | cons t us => exact ⟨rfl, rfl⟩

/-- There is an error to look at only where it ends the tokens. -/
theorem ending_of_advance {e : ParseError} (h : s.advance ts = .error e) : s.ending = .error e := by
  cases ts with
  | nil =>
    rw [TokenSource.advance, look] at h
    split at h
    · cases h
    · next he => cases h; exact he
  | cons t ts => cases h

theorem exists_look (h : s.advance ts = .ok ()) : ∃ t, s.look ts = .ok t := by
  rw [TokenSource.advance] at h
  split at h
  · next t ht => exact ⟨t, ht⟩
  · cases h

end TokenSource

namespace Reader

variable {α β γ : Type}

/-- Reads `us` as `a`, whatever is behind the token that stands first then. -/
def Passes (s : TokenSource) (m : Reader α) (us : List Token) (a : α) (first : Option Token) : Prop :=
  ∀ ending rest, (s.before ending).Shows first rest → m ending (us ++ rest) = .ok (a, rest)

/-- Fails behind `us`, whatever is behind the token that stands first then. -/
def Fails (s : TokenSource) (m : Reader α) (us : List Token) (first : Option Token) : Prop :=
  ∀ ending rest, (s.before ending).Shows first rest → ∃ e, m ending (us ++ rest) = .error e

/-- What reading comes to: what is read together with the kinds of the tokens that it is read from; or an error that
blames a token which cannot follow those in front of it, though these can be completed to something that is read; or
the error that ends the tokens. -/
inductive Outcome (s : TokenSource) (m : Reader α) (Q : α → List TokenKind → Prop)
    (ending : Except ParseError Token) (ts : List Token) : Prop
  | passes (us : List Token) {rest : List Token} {a : α} (hts : ts = us ++ rest)
    (hready : (s.before ending).advance rest = .ok ()) (hpasses : Passes s m us a rest.head?)
    (ha : Q a (us.map Token.kind))
  | blames (us : List Token) {rest : List Token} {t : Token} {cause : ParseError.Cause} (hts : ts = us ++ rest)
    (hlook : (s.before ending).look rest = .ok t) (herror : m ending ts = .error (.blaming t cause))
    (hcause : cause.isLexical = false) (hfails : Fails s m us rest.head?)
    (hcomplete : ∃ a ks, Q a (us.map Token.kind ++ ks))
  | faults {e : ParseError} (hending : ending = .error e) (herror : m ending ts = .error e)

namespace Outcome

variable {s : TokenSource} {ending : Except ParseError Token} {t : Token} {ts rest : List Token} {m m' : Reader α}
  {Q : α → List TokenKind → Prop} {R : β → List TokenKind → Prop}

/-- Both what is read and how tokens can be completed may be seen as something else. -/
theorem weaken {R : α → List TokenKind → Prop} (h : Outcome s m Q ending ts)
    (hpasses : ∀ us rest a, ts = us ++ rest → Q a (us.map Token.kind) → R a (us.map Token.kind))
    (hcomplete : ∀ us rest a ks, ts = us ++ rest → Q a (us.map Token.kind ++ ks) →
      ∃ b ks', R b (us.map Token.kind ++ ks')) : Outcome s m R ending ts := by
  cases h with
  | passes us hts hready h ha => exact .passes us hts hready h (hpasses _ _ _ hts ha)
  | blames us hts hlook herror hcause hfails h =>
    obtain ⟨a, ks, ha⟩ := h
    exact .blames us hts hlook herror hcause hfails (hcomplete _ _ a ks hts ha)
  | faults hending herror => exact .faults hending herror

theorem imp {R : α → List TokenKind → Prop} (h : Outcome s m Q ending ts) (hQ : ∀ a u, Q a u → R a u) :
    Outcome s m R ending ts :=
  h.weaken (fun _ _ _ _ ha => hQ _ _ ha) fun _ _ _ _ _ ha => ⟨_, _, hQ _ _ ha⟩

/-- A reader that passes `us` and then reads as another one does. -/
theorem behind (us : List Token) (hready : (s.before ending).advance rest = .ok ())
    (hm : Outcome s m (fun a u => Q a (us.map Token.kind ++ u)) ending rest)
    (h : ∀ ending' ts', (s.before ending').Shows rest.head? ts' → m' ending' (us ++ ts') = m ending' ts') :
    Outcome s m' Q ending (us ++ rest) := by
  have hrest : m' ending (us ++ rest) = m ending rest := h ending rest ⟨rfl, hready⟩
  cases hm with
  | @passes vs rest' a hts hready' hpasses ha =>
    subst hts
    refine .passes (us ++ vs) (by rw [List.append_assoc]) hready' ?_ (by rwa [List.map_append])
    intro ending' ts' hshows
    rw [List.append_assoc, h ending' _ (hshows.append vs), hpasses ending' ts' hshows]
  | @blames vs rest' t cause hts hlook herror hcause hfails hcomplete =>
    subst hts
    refine .blames (us ++ vs) (by rw [List.append_assoc]) hlook (hrest.trans herror) hcause ?_ ?_
    · intro ending' ts' hshows
      rw [List.append_assoc, h ending' _ (hshows.append vs)]
      exact hfails ending' ts' hshows
    · simpa only [List.map_append, List.append_assoc] using hcomplete
  | faults hending herror => exact .faults hending (hrest.trans herror)

/-- What the first reader reads can always be completed to something that both read, and the second one goes on with
the other tokens. -/
theorem bind {f : α → Reader β} (hm : Outcome s m Q ending ts) (hcomplete : ∀ a u, Q a u → ∃ b v, R b (u ++ v))
    (hf : ∀ a u rest, Q a u → u.length + rest.length = ts.length → (s.before ending).advance rest = .ok () →
      Outcome s (f a) (fun b v => R b (u ++ v)) ending rest) : Outcome s (m >>= f) R ending ts := by
  have hbind : ∀ ending ts, (m >>= f) ending ts = m ending ts >>= fun r => f r.1 ending r.2 := fun _ _ => rfl
  cases hm with
  | @passes us rest a hts hready hpasses ha =>
    subst hts
    have hlength : (us.map Token.kind).length + rest.length = (us ++ rest).length := by simp
    refine behind us hready (hf a _ rest ha hlength hready) fun ending' ts' hshows => ?_
    rw [hbind, hpasses ending' ts' hshows]
    rfl
  | @blames us rest t cause hts hlook herror hcause hfails hcomplete' =>
    obtain ⟨a, ks, ha⟩ := hcomplete'
    obtain ⟨b, v, hb⟩ := hcomplete _ _ ha
    refine .blames us hts hlook ?_ hcause ?_ ⟨b, ks ++ v, by rwa [← List.append_assoc]⟩
    · rw [hbind, herror]
      rfl
    · intro ending' ts' hshows
      obtain ⟨e, he⟩ := hfails ending' ts' hshows
      exact ⟨e, by rw [hbind, he]; rfl⟩
  | faults hending herror =>
    refine .faults hending ?_
    rw [hbind, herror]
    rfl

theorem pure {a : α} (hready : (s.before ending).advance ts = .ok ()) (ha : Q a []) :
    Outcome s (pure a) Q ending ts :=
  .passes [] rfl hready (fun _ _ _ => rfl) ha

theorem map {f : α → β} (hm : Outcome s m (fun a u => R (f a) u) ending ts) : Outcome s (f <$> m) R ending ts := by
  have hmap : f <$> m = m >>= fun a => Pure.pure (f a) := (bind_pure_comp f m).symm
  rw [hmap]
  refine hm.bind (fun a u ha => ⟨f a, [], by rwa [List.append_nil]⟩) fun a u rest ha _ hready => ?_
  exact .pure hready (by rwa [List.append_nil])

/-- An error that blames the token that stands first. -/
theorem fail (cause : TokenKind → ParseError.Cause) (hready : (s.before ending).advance ts = .ok ())
    (hm : ∀ ending' ts', (s.before ending').Shows ts.head? ts' →
      m ending' ts' = .error ((s.before ending').blame ts' cause))
    (hcause : ∀ k, (cause k).isLexical = false) (hcomplete : ∃ a ks, Q a ks) : Outcome s m Q ending ts := by
  obtain ⟨t, ht⟩ := TokenSource.exists_look hready
  refine .blames [] rfl ht ?_ (hcause t.kind) (fun ending' ts' hshows => ⟨_, hm ending' ts' hshows⟩) hcomplete
  rw [hm ending ts ⟨rfl, hready⟩, TokenSource.blame, ht]

/-! ### Steps -/

/-- A reader passes the token that stands first, unless an error is all that is left then. -/
theorem cons (hm : (s.before ending).advance ts = .ok () → Outcome s m (fun a u => Q a (t.kind :: u)) ending ts)
    (h : ∀ ending' ts', m' ending' (t :: ts') = (s.before ending').advance ts' >>= fun _ => m ending' ts') :
    Outcome s m' Q ending (t :: ts) := by
  cases hadvance : (s.before ending).advance ts with
  | error e =>
    refine .faults (TokenSource.ending_of_advance hadvance) ?_
    rw [h, hadvance]
    rfl
  | ok _ =>
    refine behind [t] hadvance (hm hadvance) fun ending' ts' hshows => ?_
    rw [List.singleton_append, h, hshows.advance]
    rfl

theorem branch {select : TokenKind → Option α} {other : Reader β} {next : α → Reader β}
    (hready : (s.before ending).advance ts = .ok ())
    (hother : (∀ t ∈ ts.head?, select t.kind = none) → Outcome s other R ending ts)
    (hnext : ∀ t rest a, ts = t :: rest → select t.kind = some a → (s.before ending).advance rest = .ok () →
      Outcome s (next a) (fun b v => R b (t.kind :: v)) ending rest) :
    Outcome s (branch s select other next) R ending ts := by
  have hnone : (∀ t ∈ ts.head?, select t.kind = none) → Outcome s (Reader.branch s select other next) R ending ts := by
    intro hselect
    refine behind [] hready (hother hselect) fun ending' ts' hshows => ?_
    cases ts' with
    | nil => rfl
    | cons t ts' => exact branch_cons_none (hselect t hshows.head.symm)
  cases ts with
  | nil => exact hnone (by simp)
  | cons t rest =>
    cases hselect : select t.kind with
    | none => exact hnone (by rintro _ ⟨⟩; exact hselect)
    | some a => exact cons (hnext t rest a rfl hselect) fun ending' ts' => branch_cons hselect

theorem branchOn {k : TokenKind} {other next : Reader β} (hready : (s.before ending).advance ts = .ok ())
    (hother : Outcome s other R ending ts)
    (hnext : ∀ rest, rest.length < ts.length → (s.before ending).advance rest = .ok () →
      Outcome s next (fun b v => R b (k :: v)) ending rest) :
    Outcome s (branchOn s k other next) R ending ts := by
  refine branch hready (fun _ => hother) ?_
  rintro t rest _ rfl hselect hready
  split at hselect
  · next hk => exact hk ▸ hnext rest (Nat.lt_succ_self _) hready
  · cases hselect

theorem expect {k : TokenKind} {what : Expected} (hready : (s.before ending).advance ts = .ok ()) :
    Outcome s (expect s k what) (fun _ u => u = [k]) ending ts := by
  rw [expect_eq]
  refine branchOn hready ?_ fun rest _ hready => pure hready rfl
  exact fail _ hready (fun _ _ _ => rfl) (fun _ => rfl) ⟨(), _, rfl⟩

theorem field (hready : (s.before ending).advance ts = .ok ()) :
    Outcome s (field s) (fun f u => u = [f.kind] ∧ f.isWord = true) ending ts := by
  rw [field_eq]
  refine branch hready (fun _ => ?_) fun t rest f _ hselect hready => ?_
  · exact fail _ hready (fun _ _ _ => rfl) (fun _ => rfl) ⟨.name "x", _, rfl, rfl⟩
  · obtain ⟨hk, hword⟩ := FieldToken.eq_of_ofKind? hselect
    exact pure hready ⟨by rw [hk], hword⟩

theorem opening (hready : (s.before ending).advance ts = .ok ()) :
    Outcome s (opening s) (fun _ u => u = [.leftParen]) ending ts := by
  cases ts with
  | nil =>
    refine fail (fun _ => .unexpectedEnd) hready (fun ending' ts' hshows => ?_) (fun _ => rfl) ⟨(), _, rfl⟩
    rw [List.head?_eq_none_iff.1 hshows.head]
    rfl
  | cons t rest =>
    by_cases hk : t.kind = .leftParen
    · refine cons (m := Pure.pure ()) (fun hready => pure hready (by rw [hk])) fun ending' ts' => ?_
      exact opening_cons hk
    · refine fail (fun k => if k = .finish then .unexpectedEnd else .unexpectedToken k) hready
        (fun ending' ts' hshows => ?_) (fun k => by split <;> rfl) ⟨(), _, rfl⟩
      obtain ⟨ts'', rfl⟩ := List.head?_eq_some_iff.1 hshows.head
      exact opening_cons_of_ne hk

theorem branchDot {other next : Reader β} (hready : (s.before ending).advance ts = .ok ())
    (hother : Outcome s other R ending ts)
    (hnext : s.options.memberAccess = true → ∀ rest, rest.length < ts.length →
      (s.before ending).advance rest = .ok () → Outcome s next (fun b v => R b (.operator "." :: v)) ending rest)
    (hcomplete : ∃ b v, R b v) : Outcome s (branchDot s other next) R ending ts := by
  cases haccess : s.options.memberAccess with
  | true =>
    rw [branchDot_eq haccess]
    exact branchOn hready hother (hnext haccess)
  | false =>
    by_cases hdot : ∃ t ∈ ts.head?, t.kind = .operator "."
    · obtain ⟨t, ht, hk⟩ := hdot
      refine fail (fun _ => .memberAccessDisabled) hready (fun ending' ts' hshows => ?_) (fun _ => rfl)
        hcomplete
      obtain ⟨ts'', rfl⟩ := List.head?_eq_some_iff.1 (hshows.head.trans ht)
      rw [branchDot_cons haccess, if_pos hk]
      rfl
    · refine behind [] hready hother fun ending' ts' hshows => ?_
      cases ts' with
      | nil => rfl
      | cons t ts' =>
        rw [List.nil_append, branchDot_cons haccess, if_neg fun hk => hdot ⟨t, hshows.head.symm, hk⟩]

theorem applies {op : String} {other next : Reader β} (hready : (s.before ending).advance ts = .ok ())
    (hnext : TokenSource.isApplied op ts = true → Outcome s next R ending ts)
    (hother : TokenSource.isApplied op ts = false → Outcome s other R ending ts) :
    Outcome s (do if ← applies op then next else other) R ending ts := by
  -- whether the operator is applied is seen at the token that stands first
  have happlied : ∀ ending' ts', (s.before ending').Shows ts.head? ts' →
      (do if ← Reader.applies op then next else other : Reader β) ending' ts' =
        (if TokenSource.isApplied op ts = true then next else other : Reader β) ending' ts' := by
    intro ending' ts' hshows
    show (if TokenSource.isApplied op ts' = true then next else other : Reader β) ending' ts' = _
    rw [TokenSource.isApplied, hshows.head]
    rfl
  cases h : TokenSource.isApplied op ts with
  | true =>
    refine behind [] hready (hnext h) fun ending' ts' hshows => ?_
    rw [List.nil_append, happlied ending' ts' hshows, h]
    rfl
  | false =>
    refine behind [] hready (hother h) fun ending' ts' hshows => ?_
    rw [List.nil_append, happlied ending' ts' hshows, h]
    rfl

end Outcome

end Reader

/-! ## Rules -/

/-- Prefix operators are passed before something closer than a factor is looked for. -/
def Goal.Unprefixed (s : TokenSource) : Goal → List Token → Prop
  | .derive .power, ts | .derive .postfixed, ts | .derive .application, ts =>
    ∀ t ∈ ts.head?, s.prefixOperator? t.kind = none
  | _, _ => True

/-- What the parser does for a goal comes to what meets it, or to the right error. -/
def Goal.Answered (s : TokenSource) (ending : Except ParseError Token) (goal : Goal) (ts : List Token) : Prop :=
  goal.Unprefixed s ts → (s.before ending).advance ts = .ok () →
    Reader.Outcome s (Reader.goal s goal) (goal.Met s.grammar s.options) ending ts

/-- The same for every goal where there are fewer tokens. -/
def Goal.AnsweredBelow (s : TokenSource) (ending : Except ParseError Token) (ts : List Token) : Prop :=
  ∀ rest : List Token, rest.length < ts.length → ∀ goal : Goal, goal.Answered s ending rest

namespace Goal.Answered

open Reckon.Derivation Reckon.Reader

variable {s : TokenSource} {ending : Except ParseError Token} {ts : List Token} {c c' : Category}

/-- A unit rule behind its part, and then what extends the result. -/
theorem extended (rule : Derivation c → Derivation c')
    (hrule : ∀ {x u}, x.Derives s.grammar s.options u → (rule x).Derives s.grammar s.options u)
    (hgoal : Reader.goal s (.derive c') = do Reader.goal s (.extend (rule (← Reader.goal s (.derive c)))))
    (hunprefixed : Goal.Unprefixed s (.derive c') ts → Goal.Unprefixed s (.derive c) ts)
    (hx : Goal.Answered s ending (.derive c) ts)
    (hd : ∀ x rest, rest.length ≤ ts.length → Goal.Answered s ending (.extend (rule x)) rest) :
    Goal.Answered s ending (.derive c') ts := by
  intro h hready
  rw [hgoal]
  refine (hx (hunprefixed h) hready).bind (fun x u hu => ?_) fun x u rest hu hlength hready => ?_
  · exact ⟨rule x, [], (hrule hu).continue (met_extend_refl _)⟩
  · exact (hd x rest (by omega) trivial hready).imp fun d v hd => (hrule hu).continue hd

theorem expression (hc : Goal.Answered s ending (.derive (.level .disjunction)) ts)
    (ih : Goal.AnsweredBelow s ending ts) :
    Goal.Answered s ending (.derive .expression) ts := by
  intro _ hready
  rw [goal_expression]
  have hsimple : ∀ {c u}, Derives s.grammar s.options c u → (simple c).Derives s.grammar s.options (u ++ []) := by
    intro c u hc
    rw [List.append_nil]
    exact ⟨hc.tokens, hc.proper⟩
  refine (hc trivial hready).bind (fun c u hc => ⟨_, _, hsimple hc⟩) fun c u rest hc hlength hready => ?_
  refine .branchOn hready (.pure hready (hsimple hc)) fun rest₁ hlt hready => ?_
  have hx := ih rest₁ (by omega) (.derive .expression) trivial hready
  refine hx.bind (fun x v hx => ⟨_, _, hc.choice hx (.plain _)⟩) fun x v rest₂ hx hlength₂ hready => ?_
  refine (Outcome.expect hready).bind ?_ fun _ w rest₃ hw hlength₃ hready => ?_
  · rintro _ _ rfl
    exact ⟨_, _, hc.choice hx (.plain _)⟩
  · have hy := ih rest₃ (by omega) (.derive .expression) trivial hready
    exact (hy.imp fun y z hy => hw ▸ hc.choice hx hy).map

/-- What is behind an operand, up to its exponent. -/
theorem exponent (x : Derivation .postfixed) (hready : (s.before ending).advance ts = .ok ())
    (ih : Goal.AnsweredBelow s ending ts) :
    Outcome s (Reader.exponent s x) (x.Continues s.grammar s.options) ending ts := by
  refine .branchOn hready (.pure hready ⟨by simp [Derivation.tokens], id⟩) fun rest hlt hready => ?_
  have hy := ih rest hlt (.derive .factor) trivial hready
  exact (hy.imp fun y u hy => ⟨by simp [Derivation.tokens, hy.tokens], fun hx => ⟨hx, hy.proper⟩⟩).map

theorem power (hx : Goal.Answered s ending (.derive .postfixed) ts)
    (ih : Goal.AnsweredBelow s ending ts) :
    Goal.Answered s ending (.derive .power) ts := by
  intro h hready
  rw [goal_power]
  refine (hx h hready).bind (fun x u hx => ?_) fun x u rest hx hlength hready => ?_
  · exact ⟨.base x, [], hx.continue ⟨by simp [Derivation.tokens], id⟩⟩
  · refine (exponent x hready fun rest' hlt => ih rest' (by omega)).imp fun d v hd => hx.continue hd

/-- What is behind an application, up to its exponent. -/
theorem trailing (x : Derivation .application) (hready : (s.before ending).advance ts = .ok ())
    (hd : ∀ x : Derivation .postfixed, Goal.Answered s ending (.extend x) ts)
    (ih : Goal.AnsweredBelow s ending ts) :
    Outcome s (Reader.trailing s x) (x.Continues s.grammar s.options) ending ts := by
  have hbase : ∀ {y u}, Goal.Met s.grammar s.options (.extend (applied x)) y u →
      x.Continues s.grammar s.options (base y) (u ++ []) := by
    intro y u hy
    rw [List.append_nil]
    exact hy
  refine (hd (applied x) trivial hready).bind (fun y u hy => ⟨.base y, [], hbase hy⟩)
    fun y u rest hy hlength hready => ?_
  refine (exponent y hready fun rest' hlt => ih rest' (by omega)).imp fun d v hd => ?_
  exact ⟨by rw [hd.1, hy.1, List.append_assoc]; rfl, hd.2 ∘ hy.2⟩

theorem application (hx : Goal.Answered s ending (.derive .callee) ts) :
    Goal.Answered s ending (.derive .application) ts := by
  intro hunprefixed hready
  rw [goal_application]
  refine .branch hready (fun _ => ?_) fun t rest op hts hselect => ?_
  · exact ((hx trivial hready).imp fun x u hx => ⟨hx.tokens, hx.proper⟩).map
  · rw [hunprefixed t (by rw [hts]; rfl)] at hselect
    cases hselect

theorem factor (hx : Goal.Answered s ending (.derive .power) ts)
    (ih : Goal.AnsweredBelow s ending ts) :
    Goal.Answered s ending (.derive .factor) ts := by
  intro _ hready
  rw [goal_factor]
  refine .branch hready (fun hselect => ?_) fun t rest op hts hselect hready => ?_
  · exact ((hx hselect hready).imp fun x u hx => ⟨hx.tokens, hx.proper⟩).map
  · obtain ⟨hk, hop⟩ := TokenSource.eq_of_prefixOperator? hselect
    have hrest : rest.length < ts.length := by rw [hts]; exact Nat.lt_succ_self _
    rw [hk]
    refine .applies hready (fun happlied => ?_) fun happlied => ?_
    · simp only [TokenSource.isApplied, Bool.and_eq_true, decide_eq_true_eq] at happlied
      obtain ⟨⟨hminus, hplus⟩, -⟩ := happlied
      have hoperation : ∀ {x u}, Derives s.grammar s.options x u →
          (operation op x).Derives s.grammar s.options (.operator op :: u) :=
        fun hx => hx.operation hop hminus hplus
      refine .map ((ih rest hrest (.derive .group) trivial hready).bind (fun x u hx => ?_)
        fun x u rest' hx hlength hready => ?_)
      · refine ⟨.base (.applied (.operation op x)), [], ?_⟩
        rw [List.append_nil]
        exact ⟨(hoperation hx).tokens, (hoperation hx).proper⟩
      · refine (trailing (.operation op x) hready (fun y => ih rest' (by omega) (.extend y))
          fun rest'' hlt => ih rest'' (by omega)).imp fun d v hd => ?_
        have hd := (hoperation hx).continue hd
        exact ⟨hd.tokens, hd.proper⟩
    · -- the operand does not start with a parenthesis, nor does it have to if nothing of it is read yet
      have hsign : ∀ us rest' ks, rest = us ++ rest' → us ≠ [] →
          op = "-" ∨ op = "+" ∨ (us.map Token.kind ++ ks).head? ≠ some .leftParen := by
        intro us rest' ks hus hne
        obtain ⟨t', us, rfl⟩ := List.exists_cons_of_ne_nil hne
        subst hus
        simpa [TokenSource.isApplied, Decidable.or_iff_not_imp_left] using happlied
      refine .map ((ih rest hrest (.derive .factor) trivial hready).weaken ?_ ?_)
      · intro us rest' x hus hx
        have hne : us ≠ [] := by
          rintro rfl
          obtain ⟨k, ks, he, -⟩ := x.exists_head
          rw [hx.tokens] at he
          cases he
        have hsign := hsign us rest' [] hus hne
        rw [List.append_nil] at hsign
        exact hx.signed hop hsign
      · intro us rest' x ks hus hx
        cases us with
        | nil =>
          refine ⟨plain .factor, _, (Derives.plain _).signed hop (.inr (.inr ?_))⟩
          simp [plain, Derivation.tokens]
        | cons t us => exact ⟨x, ks, hx.signed hop (hsign _ rest' ks hus (List.cons_ne_nil t us))⟩

theorem atom (hx : Goal.Answered s ending (.derive .group) ts) : Goal.Answered s ending (.derive .atom) ts := by
  intro _ hready
  rw [goal_atom]
  refine .branch hready (fun _ => ?_) fun t rest x _ hselect hready => ?_
  · exact ((hx trivial hready).imp fun x u hx => ⟨hx.tokens, hx.proper⟩).map
  · exact .pure hready (derives_of_ofKind? hselect)

theorem group (ih : Goal.AnsweredBelow s ending ts) :
    Goal.Answered s ending (.derive .group) ts := by
  intro _ hready
  rw [goal_group]
  refine (Outcome.opening hready).bind ?_ fun _ w rest hw hlength hready => ?_
  · rintro _ _ rfl
    exact ⟨_, _, (Derives.plain .expression).group⟩
  · subst hw
    rw [List.length_singleton] at hlength
    have hx := ih rest (by omega) (.derive .expression) trivial hready
    refine hx.bind (fun x u hx => ⟨_, _, hx.group⟩) fun x u rest' hx hlength' hready => ?_
    refine (Outcome.expect hready).bind ?_ fun _ w rest'' hw _ hready => ?_
    · rintro _ _ rfl
      exact ⟨_, [], hx.group⟩
    · subst hw
      exact .pure hready hx.group

theorem extend_level {l : Level} (x : Derivation (.level l))
    (ih : Goal.AnsweredBelow s ending ts) :
    Goal.Answered s ending (.extend x) ts := by
  intro _ hready
  rw [goal_extend_level]
  refine .branch hready (fun _ => .pure hready (met_extend_refl x)) fun t rest op hts hselect hready => ?_
  obtain ⟨hk, hop⟩ := Level.eq_of_operator? hselect
  have hbinary : ∀ {y u}, Derives s.grammar s.options y u →
      Goal.Met s.grammar s.options (.extend x) (x.binary op y) (.operator op :: u) := by
    intro y u hy
    exact ⟨by simp [Derivation.tokens, hy.tokens], fun hx => ⟨hx, hop, hy.proper⟩⟩
  have hrest : rest.length < ts.length := by rw [hts]; exact Nat.lt_succ_self _
  have hoperand : (Goal.derive l.operand).Unprefixed s rest := by cases l <;> trivial
  rw [hk]
  refine (ih rest hrest (.derive l.operand) hoperand hready).bind (fun y u hy => ?_)
    fun y u rest' hy hlength hready => ?_
  · exact ⟨x.binary op y, [], met_extend_trans (hbinary hy) (met_extend_refl _)⟩
  · exact (ih rest' (by omega) (.extend (x.binary op y)) trivial hready).imp fun d v hd =>
      met_extend_trans (hbinary hy) hd

theorem extend_postfixed (x : Derivation .postfixed)
    (ih : Goal.AnsweredBelow s ending ts) :
    Goal.Answered s ending (.extend x) ts := by
  intro _ hready
  rw [goal_extend_postfixed]
  refine .branchOn hready (.pure hready (met_extend_refl x)) fun rest hlt hready => ?_
  have hx : Goal.Met s.grammar s.options (.extend x) x.factorial [.operator "!"] :=
    ⟨by simp [Derivation.tokens], id⟩
  exact (ih rest hlt (.extend x.factorial) trivial hready).imp fun d v hd => met_extend_trans hx hd

theorem extend_callee (x : Derivation .callee)
    (ih : Goal.AnsweredBelow s ending ts) :
    Goal.Answered s ending (.extend x) ts := by
  intro _ hready
  rw [goal_extend_callee]
  refine .branchOn hready (.pure hready (met_extend_refl x)) fun rest hlt hready => ?_
  refine .branchOn hready ?_ fun rest' hlt' hready => ?_
  · have hcall : ∀ {args u}, Goal.Met s.grammar s.options .arguments args u →
        Goal.Met s.grammar s.options (.extend x) (x.call args) (.leftParen :: (u ++ [.rightParen])) := by
      rintro args u ⟨rfl, hproper⟩
      exact ⟨by simp [Derivation.tokens], fun hx => ⟨hx, hproper⟩⟩
    refine (ih rest hlt .arguments trivial hready).bind (fun args u hargs => ?_)
      fun args u rest hargs hlength hready => ?_
    · exact ⟨x.call args, [.rightParen], hcall hargs⟩
    · refine (Outcome.expect hready).bind ?_ fun _ w rest' hw hlength' hready => ?_
      · rintro _ _ rfl
        exact ⟨x.call args, [], hcall hargs⟩
      · subst hw
        refine (ih rest' (by omega) (.extend (x.call args)) trivial hready).imp fun d v hd => ?_
        simpa using met_extend_trans (hcall hargs) hd
  · have hx : Goal.Met s.grammar s.options (.extend x) x.invocation [.leftParen, .rightParen] :=
      ⟨by simp [Derivation.tokens], id⟩
    exact (ih rest' (by omega) (.extend x.invocation) trivial hready).imp fun d v hd => met_extend_trans hx hd

theorem extend_fields (x : Derivation .fields)
    (ih : Goal.AnsweredBelow s ending ts) :
    Goal.Answered s ending (.extend x) ts := by
  intro _ hready
  rw [goal_extend_fields]
  refine .branchDot hready (.pure hready (met_extend_refl x)) (fun haccess rest hlt hready => ?_)
    ⟨x, [], met_extend_refl x⟩
  have hmember : ∀ {f : FieldToken} {u}, u = [f.kind] ∧ f.isWord = true →
      Goal.Met s.grammar s.options (.extend x) (x.member f) (.operator "." :: u) := by
    rintro f _ ⟨rfl, hword⟩
    exact ⟨by simp [Derivation.tokens], fun hx => ⟨hx, haccess, hword⟩⟩
  refine (Outcome.field hready).bind (fun f u hf => ?_) fun f u rest' hf hlength hready => ?_
  · exact ⟨x.member f, [], met_extend_trans (hmember hf) (met_extend_refl _)⟩
  · exact (ih rest' (by omega) (.extend (x.member f)) trivial hready).imp fun d v hd =>
      met_extend_trans (hmember hf) hd

theorem arguments (hx : Goal.Answered s ending (.derive .expression) ts)
    (ih : Goal.AnsweredBelow s ending ts) :
    Goal.Answered s ending .arguments ts := by
  intro _ hready
  rw [goal_arguments]
  have hlast : ∀ {x u}, Derives s.grammar s.options x u →
      Goal.Met s.grammar s.options .arguments (Arguments.last x) (u ++ []) := by
    intro x u hx
    rw [List.append_nil]
    exact ⟨hx.tokens, hx.proper⟩
  refine (hx trivial hready).bind (fun x u hx => ⟨_, _, hlast hx⟩) fun x u rest hx hlength hready => ?_
  refine .branchOn hready (.pure hready (hlast hx)) fun rest' hlt hready => ?_
  have hrest := ih rest' (by omega) .arguments trivial hready
  exact (hrest.imp fun args v hargs => ⟨by simp [Arguments.tokens, hx.tokens, hargs.1], hx.proper, hargs.2⟩).map

end Goal.Answered

/-- What the parser does for any goal comes to what meets it, or to the right error. -/
theorem Goal.answered {s : TokenSource} {ending : Except ParseError Token} (goal : Goal) (ts : List Token) :
    goal.Answered s ending ts := by
  have ih : AnsweredBelow s ending ts := fun rest _ goal => answered goal rest
  match goal with
  | .derive .expression => exact .expression (answered (.derive (.level .disjunction)) ts) ih
  | .derive (.level l) =>
    have hoperand : (Goal.derive l.operand).Unprefixed s ts := by cases l <;> trivial
    exact .extended (.operand (l := l)) (fun hu => ⟨hu.tokens, hu.proper⟩) (Reader.goal_level l) (fun _ => hoperand)
      (answered (.derive l.operand) ts) fun x rest _ => answered (.extend (.operand x)) rest
  | .derive .factor => exact .factor (answered (.derive .power) ts) ih
  | .derive .power => exact .power (answered (.derive .postfixed) ts) ih
  | .derive .postfixed =>
    exact .extended .applied (fun hu => ⟨hu.tokens, hu.proper⟩) Reader.goal_postfixed id
      (answered (.derive .application) ts) fun x rest _ => answered (.extend (.applied x)) rest
  | .derive .application => exact .application (answered (.derive .callee) ts)
  | .derive .callee =>
    exact .extended .uncalled (fun hu => ⟨hu.tokens, hu.proper⟩) Reader.goal_callee (fun _ => trivial)
      (answered (.derive .fields) ts) fun x rest _ => answered (.extend (.uncalled x)) rest
  | .derive .fields =>
    exact .extended .whole (fun hu => ⟨hu.tokens, hu.proper⟩) Reader.goal_fields (fun _ => trivial)
      (answered (.derive .atom) ts) fun x rest _ => answered (.extend (.whole x)) rest
  | .derive .atom => exact .atom (answered (.derive .group) ts)
  | .derive .group => exact .group ih
  | .extend (c := .level l) x => exact .extend_level x ih
  | .extend (c := .postfixed) x => exact .extend_postfixed x ih
  | .extend (c := .callee) x => exact .extend_callee x ih
  | .extend (c := .fields) x => exact .extend_fields x ih
  | .extend (c := .expression) x | .extend (c := .factor) x | .extend (c := .power) x
  | .extend (c := .application) x | .extend (c := .atom) x | .extend (c := .group) x =>
    -- no rule goes on with a derivation of the other categories
    intro _ hready
    rw [Reader.goal_extend_eq_pure x rfl]
    exact .pure hready (Derivation.met_extend_refl x)
  | .arguments => exact .arguments (answered (.derive .expression) ts) ih
termination_by (ts.length, goal.rank)
decreasing_by
  all_goals first
    | exact Prod.Lex.left _ _ (by assumption)
    | exact Goal.descend (by omega)
        (by first | exact l.rank_operand_lt | exact Category.rank_level_pos _ | exact Nat.succ_pos _ | decide)

end Reckon
