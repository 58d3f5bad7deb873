import Reckon.Proofs.Rendering.Depth

/-!
# Parentheses around operands

A derivation knows which of its parentheses are there to group an operand (`Derivation.groups`): not those around the
arguments of a call, nor those that an operator is applied with. Between the parentheses of such a pair there is an
expression, and if it is a number alone, this number can stand in the place of the pair (`Grouping.Surrounds`). That
goes through the rules of the grammar, since a rule puts tokens around those of its parts (`Grouping.Surrounds.rule`).
-/

namespace Reckon

variable {g : Grammar} {o : Options}

/-! ## Groups -/

/-- A pair of parentheses by the tokens in front of it, between them and behind it. -/
structure Grouping where
  /-- The tokens in front of the opening parenthesis. -/
  before : List TokenKind
  /-- The tokens between the parentheses. -/
  inside : List TokenKind
  /-- The tokens behind the closing parenthesis. -/
  after : List TokenKind
  deriving DecidableEq

/-- The same pair with more tokens in front and behind. -/
def Grouping.within (left right : List TokenKind) (p : Grouping) : Grouping :=
  ⟨left ++ p.before, p.inside, p.after ++ right⟩

mutual

/-- The parentheses of a derivation that group an operand. Those around arguments and around what a prefix operator is
applied to are not among them. -/
def Derivation.groups : {c : Category} → Derivation c → List Grouping
  | _, .simple x => x.groups
  | _, .choice c x y =>
    c.groups.map (.within [] (.operator "?" :: x.tokens ++ .operator ":" :: y.tokens)) ++
      x.groups.map (.within (c.tokens ++ [.operator "?"]) (.operator ":" :: y.tokens)) ++
      y.groups.map (.within (c.tokens ++ .operator "?" :: x.tokens ++ [.operator ":"]) [])
  | _, .operand x => x.groups
  | _, .binary x op y =>
    x.groups.map (.within [] (.operator op :: y.tokens)) ++ y.groups.map (.within (x.tokens ++ [.operator op]) [])
  | _, .unsigned x => x.groups
  | _, .signed op x => x.groups.map (.within [.operator op] [])
  | _, .base x => x.groups
  | _, .power x y =>
    x.groups.map (.within [] (.operator "^" :: y.tokens)) ++ y.groups.map (.within (x.tokens ++ [.operator "^"]) [])
  | _, .applied x => x.groups
  | _, .factorial x => x.groups.map (.within [] [.operator "!"])
  | _, .operation op (.group x) => x.groups.map (.within [.operator op, .leftParen] [.rightParen])
  | _, .called x => x.groups
  | _, .uncalled x => x.groups
  | _, .invocation f => f.groups.map (.within [] [.leftParen, .rightParen])
  | _, .call f args =>
    f.groups.map (.within [] (.leftParen :: args.tokens ++ [.rightParen])) ++
      args.groups.map (.within (f.tokens ++ [.leftParen]) [.rightParen])
  | _, .whole x => x.groups
  | _, .member x field => x.groups.map (.within [] [.operator ".", field.kind])
  | _, .name _ => []
  | _, .number _ => []
  | _, .string _ => []
  | _, .inner (.group x) => ⟨[], x.tokens, []⟩ :: x.groups.map (.within [.leftParen] [.rightParen])
  | _, .group x => x.groups.map (.within [.leftParen] [.rightParen])

/-- The same for arguments. -/
def Arguments.groups : Arguments → List Grouping
  | .last x => x.groups
  | .more x rest =>
    x.groups.map (.within [] (.comma :: rest.tokens)) ++ rest.groups.map (.within (x.tokens ++ [.comma]) [])

end

/-- The tokens derive the same expression as the derivation does. -/
def Derivation.Matches (g : Grammar) (o : Options) {c : Category} (d : Derivation c) (ks : List TokenKind) : Prop :=
  ∃ d' : Derivation c, d'.Proper g o ∧ d'.expr = d.expr ∧ d'.tokens = ks

/-- The same for arguments. -/
def Arguments.Matches (g : Grammar) (o : Options) (args : Arguments) (ks : List TokenKind) : Prop :=
  ∃ args' : Arguments, args'.Proper g o ∧ args'.exprs = args.exprs ∧ args'.tokens = ks

/-- A pair of parentheses among tokens groups an expression where an operand stands, and if this is a number, the
property `P` holds of the tokens without the parentheses. -/
structure Grouping.Surrounds (g : Grammar) (o : Options) (P : List TokenKind → Prop) (ks : List TokenKind)
    (p : Grouping) : Prop where
  tokens_eq : ks = p.before ++ .leftParen :: p.inside ++ .rightParen :: p.after
  run_before : Phase.operand.run p.before = .operand
  exists_expression : ∃ x : Derivation .expression, x.tokens = p.inside ∧ x.Proper g o ∧ x.Plain
  replaced : ∀ v, p.inside = [.number v] → P (p.before ++ .number v :: p.after)

/-- What derives a number alone stands for it. -/
theorem Derivation.expr_of_number {x : Derivation .expression} {v : Float} (hx : x.tokens = [.number v])
    (hproper : x.Proper g o) : x.expr = .number v := by
  let number : Derivation (.level .sum) := .operand (l := .sum) (.operand (l := .product) (.ofAtom (.number v)))
  have hnumber : number.ofSum.Derives g o [.number v] := ⟨rfl, trivial⟩
  rw [Derives.unique ⟨hx, hproper⟩ hnumber]
  rfl

namespace Grouping.Surrounds

/-- Pairs of parentheses are pairs among more tokens as well. -/
theorem map_within {P Q : List TokenKind → Prop} {ks all left right : List TokenKind} {ps : List Grouping}
    (h : ∀ p ∈ ps, Surrounds g o P ks p) (hall : all = left ++ ks ++ right)
    (hleft : Phase.operand.run left = .operand) (hPQ : ∀ ks', P ks' → Q (left ++ ks' ++ right)) :
    ∀ p ∈ ps.map (within left right), Surrounds g o Q all p := by
  intro p hp
  obtain ⟨p, hmem, rfl⟩ := List.mem_map.1 hp
  have hp := h p hmem
  constructor
  · rw [hall, hp.tokens_eq]
    simp [within]
  · rw [within, Phase.run_append, hleft, hp.run_before]
  · exact hp.exists_expression
  · intro v hv
    simpa [within] using hPQ _ (hp.replaced v hv)

variable {c c' : Category} {x : Derivation c}

/-- A rule that puts tokens around those of a derivation. -/
theorem rule {left right : List TokenKind} (rule : Derivation c → Derivation c')
    (h : ∀ p ∈ x.groups, Surrounds g o (x.Matches g o) x.tokens p) (hleft : Phase.operand.run left = .operand)
    (hrule : ∀ x', (rule x').tokens = left ++ x'.tokens ++ right ∧ (x'.expr = x.expr → (rule x').expr = (rule x).expr) ∧
      (x'.Proper g o → (rule x').Proper g o)) :
    ∀ p ∈ x.groups.map (within left right), Surrounds g o ((rule x).Matches g o) (rule x).tokens p := by
  refine map_within h (hrule x).1 hleft ?_
  rintro _ ⟨x', hproper, hexpr, rfl⟩
  obtain ⟨htokens, hexpr', hproper'⟩ := hrule x'
  exact ⟨rule x', hproper' hproper, hexpr' hexpr, htokens⟩

/-- A rule that leaves the tokens of a derivation. -/
theorem unit (rule : Derivation c → Derivation c')
    (hrule : ∀ x', (rule x').tokens = x'.tokens ∧ (rule x').expr = x'.expr ∧ (x'.Proper g o → (rule x').Proper g o))
    (h : ∀ p ∈ x.groups, Surrounds g o (x.Matches g o) x.tokens p) :
    ∀ p ∈ x.groups, Surrounds g o ((rule x).Matches g o) (rule x).tokens p := by
  intro p hp
  have hp := h p hp
  refine ⟨(hrule x).1.trans hp.tokens_eq, hp.run_before, hp.exists_expression, fun v hv => ?_⟩
  obtain ⟨x', hproper, hexpr, htokens⟩ := hp.replaced v hv
  obtain ⟨htokens', hexpr', hproper'⟩ := hrule x'
  exact ⟨rule x', hproper' hproper, hexpr'.trans (hexpr.trans (hrule x).2.1.symm), htokens'.trans htokens⟩

end Grouping.Surrounds

mutual

/-- The parentheses of a derivation that group an operand surround an expression. -/
theorem Derivation.surrounds : {c : Category} → (d : Derivation c) → d.Proper g o → d.Plain →
    ∀ p ∈ d.groups, p.Surrounds g o (d.Matches g o) d.tokens
  | _, .simple x, hd, h => .unit .simple (fun _ => ⟨rfl, rfl, id⟩) (x.surrounds hd h)
  | _, .operand (l := l) x, hd, h => .unit (.operand (l := l)) (fun _ => ⟨rfl, rfl, id⟩) (x.surrounds hd h)
  | _, .unsigned x, hd, h => .unit .unsigned (fun _ => ⟨rfl, rfl, id⟩) (x.surrounds hd h)
  | _, .base x, hd, h => .unit .base (fun _ => ⟨rfl, rfl, id⟩) (x.surrounds hd h)
  | _, .applied x, hd, h => .unit .applied (fun _ => ⟨rfl, rfl, id⟩) (x.surrounds hd h)
  | _, .called x, hd, h => .unit .called (fun _ => ⟨rfl, rfl, id⟩) (x.surrounds hd h)
  | _, .uncalled x, hd, h => .unit .uncalled (fun _ => ⟨rfl, rfl, id⟩) (x.surrounds hd h)
  | _, .whole x, hd, h => .unit .whole (fun _ => ⟨rfl, rfl, id⟩) (x.surrounds hd h)
  | _, .choice c x y, ⟨hc, hx, hy⟩, ⟨hc', hx', hy'⟩ => by
    refine List.forall_mem_append.2 ⟨List.forall_mem_append.2 ⟨?_, ?_⟩, ?_⟩
    · refine .rule (.choice · x y) (c.surrounds hc hc') rfl fun c' => ⟨?_, ?_, fun h => ⟨h, hx, hy⟩⟩
      · simp [Derivation.tokens]
      · exact fun h => by simp only [Derivation.expr, h]
    · refine .rule (.choice c · y) (x.surrounds hx hx') ?_ fun x' => ⟨?_, ?_, fun h => ⟨hc, h, hy⟩⟩
      · simp [c.run_tokens hc hc', Phase.next_question]
      · simp [Derivation.tokens]
      · exact fun h => by simp only [Derivation.expr, h]
    · refine .rule (.choice c x ·) (y.surrounds hy hy') ?_ fun y' => ⟨?_, ?_, fun h => ⟨hc, hx, h⟩⟩
      · simp [c.run_tokens hc hc', Phase.next_question, x.run_tokens hx hx', Phase.next_colon]
      · simp [Derivation.tokens]
      · exact fun h => by simp only [Derivation.expr, h]
  | _, .binary (l := l) x op y, ⟨hx, hop, hy⟩, ⟨hx', hy'⟩ => by
    have hinfix := Phase.next_infix (Expr.not_dot_of_binary (.inr ⟨l, hop⟩))
    refine List.forall_mem_append.2 ⟨?_, ?_⟩
    · refine .rule (.binary · op y) (x.surrounds hx hx') rfl fun x' => ⟨?_, ?_, fun h => ⟨h, hop, hy⟩⟩
      · simp [Derivation.tokens]
      · exact fun h => by simp only [Derivation.expr, h]
    · refine .rule (.binary x op ·) (y.surrounds hy hy') ?_ fun y' => ⟨?_, ?_, fun h => ⟨hx, hop, h⟩⟩
      · simp [x.run_tokens hx hx', hinfix]
      · simp [Derivation.tokens]
      · exact fun h => by simp only [Derivation.expr, h]
  | _, .signed op x, ⟨hunary, _, hx⟩, ⟨hsign, hx'⟩ => by
    refine .rule (.signed op) (x.surrounds hx hx') ?_ fun x' => ⟨?_, ?_, fun h => ⟨hunary, ?_, h⟩⟩
    · rw [Phase.run_cons, Phase.next_sign hsign, Phase.run_nil]
    · simp [Derivation.tokens]
    · exact fun h => by simp only [Derivation.expr, h]
    · exact hsign.imp_right .inl
  | _, .power x y, ⟨hx, hy⟩, ⟨hx', hy'⟩ => by
    refine List.forall_mem_append.2 ⟨?_, ?_⟩
    · refine .rule (.power · y) (x.surrounds hx hx') rfl fun x' => ⟨?_, ?_, fun h => ⟨h, hy⟩⟩
      · simp [Derivation.tokens]
      · exact fun h => by simp only [Derivation.expr, h]
    · refine .rule (.power x ·) (y.surrounds hy hy') ?_ fun y' => ⟨?_, ?_, fun h => ⟨hx, h⟩⟩
      · simp [x.run_tokens hx hx', Phase.next_power]
      · simp [Derivation.tokens]
      · exact fun h => by simp only [Derivation.expr, h]
  | _, .factorial x, hx, hx' => by
    refine .rule .factorial (x.surrounds hx hx') rfl fun x' => ⟨?_, ?_, fun h => h⟩
    · simp [Derivation.tokens]
    · exact fun h => by simp only [Derivation.expr, h]
  | _, .operation op (.group x), ⟨hunary, hminus, hplus, hx⟩, hx' => by
    refine .rule (fun x => .operation op (.group x)) (x.surrounds hx hx') ?_
      fun x' => ⟨?_, ?_, fun h => ⟨hunary, hminus, hplus, h⟩⟩
    · simp
    · simp [Derivation.tokens]
    · exact fun h => by simp only [Derivation.expr, h]
  | _, .invocation f, hf, hf' => by
    refine .rule .invocation (f.surrounds hf hf') rfl fun f' => ⟨?_, ?_, fun h => h⟩
    · simp [Derivation.tokens]
    · exact fun h => by simp only [Derivation.expr, h]
  | _, .call f args, ⟨hf, hargs⟩, ⟨hf', hargs'⟩ => by
    refine List.forall_mem_append.2 ⟨?_, ?_⟩
    · refine .rule (.call · args) (f.surrounds hf hf') rfl fun f' => ⟨?_, ?_, fun h => ⟨h, hargs⟩⟩
      · simp [Derivation.tokens]
      · exact fun h => by simp only [Derivation.expr, h]
    · refine .map_within (args.surrounds hargs hargs') (by simp [Derivation.tokens]) (by simp) ?_
      rintro _ ⟨args', hproper, hexprs, rfl⟩
      exact ⟨.call f args', ⟨hf, hproper⟩, by simp only [Derivation.expr, hexprs], by simp [Derivation.tokens]⟩
  | _, .member x field, ⟨hx, hfield⟩, hx' => by
    refine .rule (.member · field) (x.surrounds hx hx') rfl fun x' => ⟨?_, ?_, fun h => ⟨h, hfield⟩⟩
    · simp [Derivation.tokens]
    · exact fun h => by simp only [Derivation.expr, h]
  | _, .name _, _, _ | _, .number _, _, _ | _, .string _, _, _ => nofun
  | _, .inner (.group x), hx, hx' => by
    refine List.forall_mem_cons.2 ⟨⟨rfl, rfl, ⟨x, rfl, hx, hx'⟩, fun v hv => ?_⟩, ?_⟩
    · exact ⟨.number v, trivial, (Derivation.expr_of_number hv hx).symm, rfl⟩
    · refine .rule (fun x => .inner (.group x)) (x.surrounds hx hx') (by simp) fun x' => ⟨?_, ?_, fun h => h⟩
      · simp [Derivation.tokens]
      · exact fun h => by simp only [Derivation.expr, h]
  | _, .group x, hx, hx' => by
    refine .rule .group (x.surrounds hx hx') (by simp) fun x' => ⟨?_, ?_, fun h => h⟩
    · simp [Derivation.tokens]
    · exact fun h => by simp only [Derivation.expr, h]

theorem Arguments.surrounds : (args : Arguments) → args.Proper g o → args.Plain →
    ∀ p ∈ args.groups, p.Surrounds g o (args.Matches g o) args.tokens
  | .last x, hx, hx' => by
    intro p hp
    obtain ⟨htokens, hrun, hexpression, hreplaced⟩ := x.surrounds hx hx' p hp
    refine ⟨htokens, hrun, hexpression, fun v hv => ?_⟩
    obtain ⟨x', hproper, hexpr, htokens'⟩ := hreplaced v hv
    exact ⟨.last x', hproper, by rw [Arguments.exprs, hexpr, Arguments.exprs], htokens'⟩
  | .more x rest, ⟨hx, hrest⟩, ⟨hx', hrest'⟩ => by
    refine List.forall_mem_append.2 ⟨?_, ?_⟩
    · refine .map_within (x.surrounds hx hx') (by simp [Arguments.tokens]) rfl ?_
      rintro _ ⟨x', hproper, hexpr, rfl⟩
      exact ⟨.more x' rest, ⟨hproper, hrest⟩, by simp only [Arguments.exprs, hexpr], by simp [Arguments.tokens]⟩
    · refine .map_within (rest.surrounds hrest hrest') (by simp [Arguments.tokens]) (by simp) ?_
      rintro _ ⟨rest', hproper, hexprs, rfl⟩
      exact ⟨.more x rest', ⟨hx, hproper⟩, by simp only [Arguments.exprs, hexprs], by simp [Arguments.tokens]⟩

end

end Reckon
