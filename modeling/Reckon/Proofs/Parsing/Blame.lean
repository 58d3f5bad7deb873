import Reckon.Grammar.Standard
import Reckon.Proofs.Lexing.Faults
import Reckon.Proofs.Parsing.Completeness

/-!
# What errors blame

The parser accepts tokens of some kinds, followed by the end, if these have a derivation (`accepts_iff_derives`). An
error of the syntax blames the first token that is impossible: what stands in front of it can be completed to tokens
that are accepted, and with it this is no longer so (`Program.first_impossible_of_parse`). Every error, one of the
syntax or one of a single token, points into the code (`Program.pointsInto_of_parse`).
-/

namespace Reckon

variable {g : Grammar} {o : Options} {code : String}

mutual

/-- No derivation derives the end of a code. -/
theorem Derivation.finish_not_mem_tokens : {c : Category} → (d : Derivation c) → .finish ∉ d.tokens
  | _, .simple x | _, .operand x | _, .unsigned x | _, .base x | _, .applied x | _, .called x | _, .uncalled x
  | _, .whole x | _, .inner x => x.finish_not_mem_tokens
  | _, .choice c x y => by
    simp [Derivation.tokens, c.finish_not_mem_tokens, x.finish_not_mem_tokens, y.finish_not_mem_tokens]
  | _, .binary x _ y => by simp [Derivation.tokens, x.finish_not_mem_tokens, y.finish_not_mem_tokens]
  | _, .power x y => by simp [Derivation.tokens, x.finish_not_mem_tokens, y.finish_not_mem_tokens]
  | _, .signed _ x | _, .operation _ x | _, .factorial x | _, .invocation x | _, .group x => by
    simp [Derivation.tokens, x.finish_not_mem_tokens]
  | _, .call f args => by simp [Derivation.tokens, f.finish_not_mem_tokens, args.finish_not_mem_tokens]
  | _, .member x field => by cases field <;> simp [Derivation.tokens, FieldToken.kind, x.finish_not_mem_tokens]
  | _, .name _ | _, .number _ | _, .string _ => by simp [Derivation.tokens]

theorem Arguments.finish_not_mem_tokens : (args : Arguments) → .finish ∉ args.tokens
  | .last x => x.finish_not_mem_tokens
  | .more x rest => by simp [Arguments.tokens, x.finish_not_mem_tokens, rest.finish_not_mem_tokens]

end

/-- The parser accepts tokens of these kinds if the end follows them. -/
def Accepts (g : Grammar) (o : Options) (ks : List TokenKind) : Prop :=
  ∃ ts e d, ts.map Token.kind = ks ∧ e.kind = .finish ∧ Derivation.ofTokens ⟨g, o, .ok e⟩ ts = .ok d

theorem accepts_iff_derives {ks : List TokenKind} :
    Accepts g o ks ↔ ∃ d : Derivation .expression, d.Derives g o ks := by
  constructor
  · rintro ⟨ts, e, d, rfl, _, h⟩
    exact ⟨d, (Derivation.derives_of_ofTokens h).2⟩
  · rintro ⟨d, hd⟩
    refine ⟨ks.map TokenKind.token, TokenKind.finish.token, d, TokenKind.map_kind_token ks, rfl, ?_⟩
    refine Derivation.ofTokens_of_derives ⟨_, rfl⟩ ?_
    rwa [TokenKind.map_kind_token]

/-! ## The first impossible token -/

namespace Derivation

variable {s : TokenSource} {us rest ts : List Token} {t : Token} {e : ParseError}

/-- Where reading fails behind some tokens, these and what stands first there start no derivation. -/
theorem Derives.not_fails {ending : Except ParseError Token} {d : Derivation .expression}
    (hends : (s.before ending).Ends) (hd : d.Derives s.grammar s.options ((us ++ rest).map Token.kind)) :
    ¬Reader.Fails s (Reader.whole s) us rest.head? := by
  intro hfails
  obtain ⟨e, he⟩ := hfails ending rest ⟨rfl, hends.advance rest⟩
  rw [Reader.whole_eq, ofTokens_of_derives (s := s.before ending) hends hd] at he
  cases he

end Derivation

/-- Where reading fails behind some tokens, no accepted tokens start with these and the token that stands there, the
end counted as one. -/
theorem Accepts.not_prefix {s : TokenSource} {us rest : List Token} {t : Token}
    (hfails : Reader.Fails s (Reader.whole s) us rest.head?) (hlook : s.look rest = .ok t)
    (hrest : ∀ t ∈ rest, t.kind ≠ .finish) (hending : ∀ t, s.ending = .ok t → t.kind = .finish)
    {ks : List TokenKind} (hks : Accepts s.grammar s.options ks) :
    ¬us.map Token.kind ++ [t.kind] <+: ks ++ [.finish] := by
  obtain ⟨d, hd⟩ := accepts_iff_derives.1 hks
  have hends : (s.before (.ok TokenKind.finish.token)).Ends := ⟨_, rfl⟩
  intro hprefix
  cases rest with
  | nil =>
    -- the end is to blame, so nothing may end here
    have hkind : t.kind = .finish := hending t hlook
    rw [hkind, List.prefix_concat_iff] at hprefix
    rcases hprefix with heq | hprefix
    · have hus : us.map Token.kind = ks := List.append_cancel_right heq
      have hd : d.Derives s.grammar s.options ((us ++ []).map Token.kind) := by rwa [List.append_nil, hus]
      exact hd.not_fails hends hfails
    · refine d.finish_not_mem_tokens ?_
      rw [hd.tokens]
      exact hprefix.subset (List.mem_append_right _ (List.mem_singleton_self _))
  | cons t' rest =>
    cases hlook
    rcases List.prefix_concat_iff.1 hprefix with heq | ⟨later, rfl⟩
    · have hkind := (List.append_inj' heq rfl).2
      exact absurd (List.singleton_inj.1 hkind) (hrest t (List.mem_cons_self))
    · have hd : d.Derives s.grammar s.options ((us ++ t :: later.map TokenKind.token).map Token.kind) := by
        rw [List.map_append, List.map_cons, TokenKind.map_kind_token]
        simpa using hd
      exact hd.not_fails hends hfails

/-- The error of a program is that of the derivation. -/
theorem Program.ofTokens_of_parse {e : ParseError} (h : Program.parse g o code = .error e) :
    Derivation.ofTokens ⟨g, o, (Tokens.ofCode g o code).ending⟩ (Tokens.ofCode g o code).list = .error e := by
  rw [Program.parse, Expr.parse, Derivation.parse] at h
  cases hd : Derivation.ofTokens ⟨g, o, (Tokens.ofCode g o code).ending⟩ (Tokens.ofCode g o code).list with
  | ok d =>
    rw [hd] at h
    cases h
  | error e' =>
    rw [hd] at h
    cases h
    rfl

/-- What stands first behind some of the tokens is one of the tokens, the end counted as one. -/
theorem Tokens.exists_withEnd_eq {ts : Tokens} {us rest : List Token} {t : Token} (hts : ts.list = us ++ rest)
    (hlook : TokenSource.look ⟨g, o, ts.ending⟩ rest = .ok t) : ∃ later, ts.withEnd = us ++ t :: later := by
  rw [withEnd, hts, List.append_assoc]
  cases rest with
  | nil =>
    have hending : ts.ending = .ok t := hlook
    rw [hending]
    exact ⟨[], rfl⟩
  | cons t' rest =>
    cases hlook
    exact ⟨rest ++ ts.ending.toOption.toList, rfl⟩

/-- An error is the one that ends the tokens, or it blames the first token that is impossible. -/
theorem Program.blames_of_parse {e : ParseError} (h : Program.parse g o code = .error e) :
    (Tokens.ofCode g o code).ending = .error e ∨ e.cause.isLexical = false ∧
      ∃ before t after, (Tokens.ofCode g o code).withEnd = before ++ t :: after ∧ e = .blaming t e.cause ∧
        (∃ ks, Accepts g o (before.map Token.kind ++ ks)) ∧
        ∀ ks, Accepts g o ks → ¬before.map Token.kind ++ [t.kind] <+: ks ++ [.finish] := by
  rcases Derivation.blames_of_ofTokens (ofTokens_of_parse h) with
    hending | ⟨us, rest, t, hts, hlook, he, hcause, ⟨d, ks, hd⟩, hfails⟩
  · exact .inl hending
  · obtain ⟨hlist, hend⟩ := (Cursor.returns_ofCursor (g := g) (o := o) (.ofCode code)).kinds
    have hrest : ∀ t ∈ rest, t.kind ≠ .finish := fun t ht => hlist t (hts ▸ List.mem_append_right us ht)
    obtain ⟨after, hwithEnd⟩ := Tokens.exists_withEnd_eq hts hlook
    exact .inr ⟨hcause, us, t, after, hwithEnd, he, ⟨ks, accepts_iff_derives.2 ⟨d, hd⟩⟩,
      fun ks hks => hks.not_prefix hfails hlook hrest hend⟩

/-- An error of the syntax blames the first impossible token: the tokens in front of it start tokens that the parser
accepts, and with it they do not, where the end of the code counts as the last token. No other token stands where the
error does. -/
theorem Program.first_impossible_of_parse {e : ParseError} (h : Program.parse g o code = .error e)
    (hcause : e.cause.isLexical = false) :
    ∃ before t after, (Tokens.ofCode g o code).withEnd = before ++ t :: after ∧ e = .blaming t e.cause ∧
      (∀ u ∈ before ++ after, u.location ≠ e.location) ∧
      (∃ ks, Accepts g o (before.map Token.kind ++ ks)) ∧
      ∀ ks, Accepts g o ks → ¬before.map Token.kind ++ [t.kind] <+: ks ++ [.finish] := by
  have hcovers : Tokens.Covers code (Tokens.ofCode g o code).ending 0 (Tokens.ofCode g o code).list :=
    Cursor.standsIn_ofCode.covers
  rcases blames_of_parse h with hending | ⟨-, before, t, after, hts, he, haccepts, hnot⟩
  · rw [(Cursor.standsIn_ofCode.fault_of_ending hending).2.isLexical] at hcause
    cases hcause
  · refine ⟨before, t, after, hts, he, fun u hu hlocation => ?_, haccepts, hnot⟩
    have hpairwise := hcovers.pairwise_withEnd.2
    rw [show (⟨(Tokens.ofCode g o code).list, (Tokens.ofCode g o code).ending⟩ : Tokens) = Tokens.ofCode g o code
      from rfl, hts, List.pairwise_append, List.pairwise_cons] at hpairwise
    obtain ⟨-, ⟨hafter, -⟩, hbefore⟩ := hpairwise
    have hoffset : u.location.offset = t.location.offset := by rw [hlocation, he]; rfl
    rcases List.mem_append.1 hu with hu | hu
    · exact (hbefore u hu t List.mem_cons_self).ne hoffset
    · exact (hafter u hu).ne' hoffset

/-- The second name of `x y` is to blame: formulas start with a name, but none with two of them. -/
theorem Program.first_impossible_of_parse_names :
    let e : ParseError := ⟨.expected .finish, ⟨2, 1, 3⟩, ['y']⟩
    Program.parse .standard .standard "x y" = .error e ∧ e.cause.isLexical = false ∧
      ∃ before t after, (Tokens.ofCode .standard .standard "x y").withEnd = before ++ t :: after ∧
        e = .blaming t e.cause ∧ (∀ u ∈ before ++ after, u.location ≠ e.location) ∧
        (∃ ks, Accepts .standard .standard (before.map Token.kind ++ ks)) ∧
        ∀ ks, Accepts .standard .standard ks → ¬before.map Token.kind ++ [t.kind] <+: ks ++ [.finish] := by
  intro e
  let x : Token := ⟨.name "x", ⟨0, 1, 1⟩, ['x']⟩
  let y : Token := ⟨.name "y", ⟨2, 1, 3⟩, ['y']⟩
  have hx : (Cursor.ofCode "x y").step .standard .standard = .token x ⟨⟨1, 1, 2⟩, [' ', 'y']⟩ := rfl
  have hy : Cursor.step .standard .standard ⟨⟨1, 1, 2⟩, [' ', 'y']⟩ = .token y ⟨⟨3, 1, 4⟩, []⟩ := rfl
  have hend : Cursor.step .standard .standard ⟨⟨3, 1, 4⟩, []⟩ = .finish ⟨.finish, ⟨3, 1, 4⟩, []⟩ := rfl
  have hparse : Program.parse .standard .standard "x y" = .error e := by
    let s : TokenSource := ⟨.standard, .standard, .ok ⟨.finish, ⟨3, 1, 4⟩, []⟩⟩
    have hs : s.Ends := ⟨_, rfl⟩
    -- the parser reads a name and stops in front of the other one
    have htokens : [x].map Token.kind = (Derivation.plain .expression).tokens := by
      simp [x, Derivation.plain, Derivation.tokens, Level.operand]
    have hstops : Stops .expression [y] := .cons (by decide)
    have hproper := (Derivation.Derives.plain (g := s.grammar) (o := s.options) .expression).proper
    obtain ⟨_, hgoal⟩ := Parses.of_extend hstops ((Derivation.plain .expression).parses hs hproper htokens)
    have hofTokens : Derivation.ofTokens s [x, y] = .error e := by
      rw [Derivation.ofTokens, hs.advance]
      show Derivation.parseGoal s (.derive .expression) ([x] ++ [y]) >>= _ = _
      rw [hgoal]
      rfl
    rw [Program.parse, Expr.parse, Derivation.parse, Tokens.ofCode, Tokens.ofCursor_of_token hx,
      Tokens.ofCursor_of_token hy, Tokens.ofCursor_of_finish hend, hofTokens]
    rfl
  exact ⟨hparse, rfl, first_impossible_of_parse hparse rfl⟩

/-! ## Places of errors -/

theorem utf8ByteSize_ofList_eq (cs : List Char) : (String.ofList cs).utf8ByteSize = utf8Length cs := by
  induction cs with
  | nil => rfl
  | cons c cs ih =>
    rw [String.ofList_cons, String.utf8ByteSize_append, String.utf8ByteSize_singleton, ih]
    rfl

/-- A part of a code ends between two of its characters. -/
theorem isValid_of_append {before after : List Char} (h : code.toList = before ++ after) :
    String.Pos.Raw.IsValid code ⟨utf8Length before⟩ := by
  refine String.Pos.Raw.isValid_iff_exists_append.2 ⟨.ofList before, .ofList after, ?_, ?_⟩
  · rw [← String.ofList_append, ← h, String.ofList_toList]
  · rw [← utf8ByteSize_ofList_eq]
    rfl

/-- What stands in a code starts and ends between two of its characters. -/
theorem StandsAt.isValid {offset : Nat} {cs : List Char} (h : StandsAt code offset cs) :
    String.Pos.Raw.IsValid code ⟨offset⟩ ∧ String.Pos.Raw.IsValid code ⟨offset + utf8Length cs⟩ := by
  obtain ⟨before, after, hcode, rfl⟩ := h
  have hstart : code.toList = before ++ (cs ++ after) := by rw [hcode, List.append_assoc]
  refine ⟨isValid_of_append hstart, ?_⟩
  rw [← utf8Length_append]
  exact isValid_of_append hcode

/-- The range of an error starts and ends between characters of the code, the text of the error is what stands there,
and its line and its column are those of the start. -/
structure ParseError.PointsInto (code : String) (e : ParseError) : Prop where
  start : String.Pos.Raw.IsValid code ⟨e.range.1⟩
  stop : String.Pos.Raw.IsValid code ⟨e.range.2⟩
  le : e.range.1 ≤ e.range.2
  inside : e.range.2 ≤ code.utf8ByteSize
  text : StandsAt code e.range.1 e.text
  location : e.location = .ofOffset code e.range.1

theorem ParseError.StandsIn.pointsInto {e : ParseError} (h : e.StandsIn code) : e.PointsInto code where
  start := h.text.isValid.1
  stop := h.text.isValid.2
  le := Nat.le_add_right _ _
  inside := h.text.isValid.2.le_rawEndPos
  text := h.text
  location := h.location

/-- Every error points into the code. The error of a token is the one that ends the tokens when they are asked for one
by one, and its text is what the cause speaks of. Any other error has the place and the range of a token that is
returned without an error, the end counted as one. -/
theorem Program.pointsInto_of_parse {e : ParseError} (h : Program.parse g o code = .error e) :
    e.PointsInto code ∧
      (e.cause.isLexical = true →
        (∃ ts, (Cursor.ofCode code).Returns g o ts (.error e)) ∧ e.cause.Concerns e.text) ∧
      (e.cause.isLexical = false → ∃ ts ending t, (Cursor.ofCode code).Returns g o ts ending ∧
        t ∈ Tokens.withEnd ⟨ts, ending⟩ ∧ e = .blaming t e.cause ∧ e.range = (t.location.offset, t.stop)) := by
  have hreturns := Cursor.returns_ofCursor (g := g) (o := o) (.ofCode code)
  have hcovers : Tokens.Covers code (Tokens.ofCode g o code).ending 0 (Tokens.ofCode g o code).list :=
    Cursor.standsIn_ofCode.covers
  rcases blames_of_parse h with hending | ⟨hcause, before, t, after, hts, he, -⟩
  · obtain ⟨hstands, hconcerns⟩ := Cursor.standsIn_ofCode.fault_of_ending hending
    refine ⟨hstands.pointsInto, fun _ => ⟨⟨_, hending ▸ hreturns⟩, hconcerns⟩, fun hcause => ?_⟩
    rw [hconcerns.isLexical] at hcause
    cases hcause
  · have ht : t ∈ (Tokens.ofCode g o code).withEnd := by
      rw [hts]
      exact List.mem_append_right _ List.mem_cons_self
    have hstands : e.StandsIn code := he ▸ (hcovers.standsIn t ht).blaming e.cause
    refine ⟨hstands.pointsInto, fun hlexical => ?_, fun _ => ⟨_, _, t, hreturns, ht, he, ?_⟩⟩
    · rw [hcause] at hlexical
      cases hlexical
    · rw [he]
      rfl

/-- A refused escape in a string, behind a character of two bytes. -/
theorem Program.pointsInto_of_parse_escape :
    let e : ParseError := ⟨.invalidEscape 'q', ⟨3, 1, 3⟩, ['\\', 'q']⟩
    Program.parse .standard .standard "'é\\q'" = .error e ∧ e.range = (3, 5) ∧ e.PointsInto "'é\\q'" ∧
      ∃ ts, (Cursor.ofCode "'é\\q'").Returns .standard .standard ts (.error e) := by
  intro e
  have hfault : (Cursor.ofCode "'é\\q'").step .standard .standard = .fault e := rfl
  have hparse : Program.parse .standard .standard "'é\\q'" = .error e := by
    rw [Program.parse, Expr.parse, Derivation.parse, Tokens.ofCode, Tokens.ofCursor_of_fault hfault]
    rfl
  obtain ⟨hpoints, hlexical, -⟩ := pointsInto_of_parse hparse
  exact ⟨hparse, rfl, hpoints, (hlexical rfl).1⟩

end Reckon
