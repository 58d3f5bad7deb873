import Reckon.Proofs.Lexing.Coverage
import Reckon.Proofs.Rendering.Groups
import Reckon.Proofs.Rendering.Seams

/-!
# Which parentheses are necessary

In what is written for a program, a pair of parentheses that groups an operand (`IsGroup`) is left out. If the program
is still read, the tokens are a derivation of it that is less deep than the tokens that were written, and these are the
least deep of all (`Derivation.depths_kinds_le`), up to one for a number in front of a dot. So what was in the pair is
one number (`Grouping.Surrounds.eq_number`), and its numeral is closed, since there would be fewer tokens otherwise
(`Grouping.Surrounds.wordCount_lt`). The other way round, a closed numeral is read in front of a dot all the same
(`Grouping.Surrounds.parse_of_number`). Both together are `Program.parse_without_group`.
-/

namespace Reckon

variable {g : Grammar} {o : Options}

/-! ## Places -/

/-- The pair is one among these tokens, and its parentheses stand at these places. -/
def Grouping.StandsIn (ts : List Token) (opening closing : Location) (p : Grouping) : Prop :=
  ∃ before t inside u after, ts = before ++ t :: inside ++ u :: after ∧
    p = ⟨before.map Token.kind, inside.map Token.kind, after.map Token.kind⟩ ∧
    t.location = opening ∧ u.location = closing

/-- A code has the text `inside` in a pair of parentheses that groups an operand: the two characters stand where the
lexer finds the parentheses of a pair that its derivation groups an operand with. -/
structure IsGroup (g : Grammar) (o : Options) (code : String) (before inside after : List Char) : Prop where
  text : code.toList = before ++ '(' :: inside ++ ')' :: after
  grouping : ∃ d p, Derivation.parse g o code = .ok d ∧ p ∈ d.groups ∧
    p.StandsIn (Tokens.ofCode g o code).list (Location.start.afterText before)
      (Location.start.afterText (before ++ '(' :: inside))

/-- Texts that a code starts with are the same if they end at the same place. -/
theorem Location.afterText_inj {xs ys xs' ys' : List Char} (h : xs ++ xs' = ys ++ ys')
    (hplace : start.afterText xs = start.afterText ys) : xs = ys := by
  have hlength : utf8Length xs = utf8Length ys := by
    have hoffset := congrArg Location.offset hplace
    rw [offset_afterText, offset_afterText] at hoffset
    omega
  have hnil : ∀ as, utf8Length as = 0 → as = [] := by
    intro as has
    by_contra hne
    exact (utf8Length_pos hne).ne' has
  rcases List.append_eq_append_iff.1 h with ⟨as, rfl, -⟩ | ⟨as, rfl, -⟩
  · rw [utf8Length_append] at hlength
    rw [hnil as (by omega), List.append_nil]
  · rw [utf8Length_append] at hlength
    rw [hnil as (by omega), List.append_nil]

theorem Phase.before_paren {k : TokenKind} (hk : k.isParen = true) (ph : Phase) : ph.before k = [] := by
  cases k with
  | leftParen | rightParen => cases ph <;> rfl
  | _ => cases hk

/-- Where tokens are written, a parenthesis among them stands behind what is written for the tokens in front of it. -/
theorem Tokens.location_paren (hg : g.IsDotless) {ks ls : List TokenKind} {k : TokenKind} (hk : k.isParen = true)
    (h : Spaced WritesClosed g o none .operand (ks ++ k :: ls)) {code : String}
    (hcode : code.toList = Phase.operand.write (ks ++ k :: ls)) {ts ts' : List Token} {t : Token}
    (hlist : (ofCode g o code).list = ts ++ t :: ts') (hlength : ts.length = ks.length) :
    t.location = Location.start.afterText (Phase.operand.write ks) := by
  rw [Phase.write_append] at hcode
  obtain ⟨hks, hls⟩ := Spaced.append_iff.1 h
  have hheads := hls.heads (Phase.heads_nil _)
  rw [List.append_nil] at hheads
  have hc : (Cursor.ofCode code).rest = _ := hcode
  obtain ⟨us, hkinds, hfirst⟩ := ofCursor_write hg hks hheads hc
  have hrest := Cursor.rest_forward hc
  have hlater := hls.2.heads (Phase.heads_nil _)
  rw [List.append_nil] at hlater
  have hparen := (hls.1.begins hg hlater).ofCursor (c := (Cursor.ofCode code).forward (Phase.operand.write ks).length)
    (by rw [hrest, Phase.write, Phase.before_paren hk, List.nil_append, List.append_assoc])
  rw [ofCode, hfirst, hparen] at hlist
  have huslength : us.length = ks.length := by rw [← hkinds, List.length_map]
  obtain ⟨_, heq⟩ := List.append_inj hlist (by omega)
  obtain ⟨rfl, _⟩ := List.cons_eq_cons.1 heq
  have htake : (Cursor.ofCode code).rest.take (Phase.operand.write ks).length = Phase.operand.write ks := by
    rw [hc, List.take_left]
  exact congrArg Location.start.afterText htake

/-! ## Without the parentheses -/

namespace Grouping

/-- The tokens without the pair. -/
def without (p : Grouping) : List TokenKind :=
  p.before ++ (p.inside ++ p.after)

/-- A number at the end of what is inside is in front of a dot behind the pair. -/
def Joins (p : Grouping) (v : Float) : Prop :=
  p.inside.getLast? = some (.number v) ∧ p.after.head? = some (.operator ".")

namespace Surrounds

variable {P : List TokenKind → Prop} {ks : List TokenKind} {p : Grouping}

theorem run_inside (h : p.Surrounds g o P ks) : Phase.operand.run p.inside = .operator := by
  obtain ⟨x, hx, hproper, hplain⟩ := h.exists_expression
  rw [← hx]
  exact x.run_tokens hproper hplain

theorem nesting_inside (h : p.Surrounds g o P ks) : nesting p.inside = 0 := by
  obtain ⟨x, hx, -⟩ := h.exists_expression
  rw [← hx]
  exact x.nesting_tokens

theorem wordCount_inside_pos (h : p.Surrounds g o P ks) : 0 < wordCount p.inside := by
  obtain ⟨x, hx, -⟩ := h.exists_expression
  rw [← hx]
  exact x.wordCount_pos

/-- No number is directly in front of the pair. -/
theorem getLast?_before_ne (h : p.Surrounds g o P ks) (v : Float) : p.before.getLast? ≠ some (.number v) := by
  intro hlast
  obtain ⟨ls, hls⟩ := List.getLast?_eq_some_iff.1 hlast
  have hrun := h.run_before
  rw [hls, Phase.run_append, Phase.run_cons, Phase.next_number] at hrun
  cases hrun

theorem wordCount_without (h : p.Surrounds g o P ks) : wordCount p.without = wordCount ks := by
  rw [h.tokens_eq, without]
  simp [wordCount_cons, TokenKind.isParen]

/-- Without the pair, what is inside is less deep. -/
theorem depths_without (h : p.Surrounds g o P ks) : depths 0 ks = depths 0 p.without + wordCount p.inside := by
  have hinside := depths_succ (nesting p.before) p.inside
  rw [h.tokens_eq, without, List.append_assoc, depths_append, depths_append 0 p.before]
  simp only [List.cons_append, depths, depths_append, TokenKind.isParen, TokenKind.turn, h.nesting_inside, if_true]
  simp only [Int.zero_add, Int.add_zero, Int.add_neg_cancel_right, hinside]
  omega

/-- Without the pair, the number at the end of what was inside may be in front of a dot, but no other number. -/
theorem seams_without (h : p.Surrounds g o P ks) (hks : seams ks = 0) : seams p.without =
    if p.inside.getLast?.any TokenKind.isNumber ∧ p.after.head? = some (.operator ".") then 1 else 0 := by
  have hbefore : ¬(p.before.getLast?.any TokenKind.isNumber = true) := by
    intro hany
    obtain ⟨k, hk, hnumber⟩ := (Option.any_eq_true _ _).1 hany
    cases k with
    | number v => exact h.getLast?_before_ne v hk
    | _ => cases hnumber
  have hsplit := seams_le_append p.before (.leftParen :: (p.inside ++ .rightParen :: p.after))
  have hsplit' := seams_le_append p.inside (.rightParen :: p.after)
  rw [h.tokens_eq, List.append_assoc, List.cons_append] at hks
  rw [hks, seams] at hsplit
  rw [seams] at hsplit'
  rw [without, seams_append p.before, if_neg fun hseam => hbefore hseam.1, seams_append p.inside]
  omega

section

variable (h : p.Surrounds g o P ks)

include h

theorem spaced_parts {N : Float → Prop} (hks : Spaced N g o none .operand ks) :
    Spaced N g o (some .leftParen) .operand p.before ∧ Spaced N g o (some .rightParen) .operand p.inside ∧
      Spaced N g o none .operator p.after := by
  rw [h.tokens_eq, List.append_assoc, Spaced.append_iff, List.cons_append, Spaced, Phase.next_leftParen,
    Spaced.append_iff, Spaced, Phase.next_rightParen] at hks
  exact ⟨hks.1, hks.2.2.1, hks.2.2.2.2⟩

/-- Without the pair the tokens still fit, if the number that comes in front of a dot is closed. -/
theorem spaced_without (hks : Spaced (fun _ => False) g o none .operand ks)
    (hclosed : ∀ v, p.Joins v → WritesClosed v) : Spaced WritesClosed g o none .operand p.without := by
  obtain ⟨hbefore, hinside, hafter⟩ := h.spaced_parts hks
  have himp : ∀ v : Float, False → WritesClosed v := fun _ => False.elim
  refine Spaced.append_iff.2 ⟨?_, ?_⟩
  · refine (hbefore.mono himp).change_next (by simp) ?_
    rintro _ hlast v rfl _
    exact absurd hlast (h.getLast?_before_ne v)
  · rw [h.run_before, Spaced.append_iff, h.run_inside]
    refine ⟨(hinside.mono himp).change_next (by simp) ?_, hafter.mono himp⟩
    rintro _ hlast v rfl hdot
    exact hclosed v ⟨hlast, by rwa [Option.or_none] at hdot⟩

theorem write_eq : Phase.operand.write ks = Phase.operand.write p.before ++
    '(' :: Phase.operand.write p.inside ++ ')' :: Phase.operator.write p.after := by
  rw [h.tokens_eq, Phase.write_append, Phase.write_rightParen, Phase.write_append, Phase.write_leftParen]

theorem write_without : Phase.operand.write p.without =
    Phase.operand.write p.before ++ Phase.operand.write p.inside ++ Phase.operator.write p.after := by
  rw [without, Phase.write_append, h.run_before, Phase.write_append, h.run_inside, List.append_assoc]

/-- The parentheses stand behind what is written for the tokens in front of them. -/
theorem locations (hg : g.IsDotless) (hks : Spaced WritesClosed g o none .operand ks) {code : String}
    (hcode : code.toList = Phase.operand.write ks) {ts ts' ts'' : List Token} {t u : Token}
    (hlist : (Tokens.ofCode g o code).list = ts ++ t :: ts' ++ u :: ts'') (hbefore : ts.length = p.before.length)
    (hinside : ts'.length = p.inside.length) :
    t.location = Location.start.afterText (Phase.operand.write p.before) ∧
      u.location = Location.start.afterText (Phase.operand.write p.before ++ '(' :: Phase.operand.write p.inside) := by
  rw [h.tokens_eq] at hks hcode
  have hclosing := Tokens.location_paren hg rfl hks hcode hlist (by simp [hbefore, hinside])
  rw [List.append_assoc] at hks hcode hlist
  have hopening := Tokens.location_paren hg rfl hks hcode hlist hbefore
  rw [Phase.write_append, Phase.write_leftParen] at hclosing
  exact ⟨hopening, hclosing⟩

/-- What is written for the tokens around the parentheses is the text around them. -/
theorem text_eq (hg : g.IsDotless) (hks : Spaced WritesClosed g o none .operand ks) {code : String}
    (hcode : code.toList = Phase.operand.write ks) {before inside after : List Char}
    (htext : code.toList = before ++ '(' :: inside ++ ')' :: after)
    (hplace : p.StandsIn (Tokens.ofCode g o code).list (Location.start.afterText before)
      (Location.start.afterText (before ++ '(' :: inside))) :
    before = Phase.operand.write p.before ∧ inside = Phase.operand.write p.inside ∧
      after = Phase.operator.write p.after := by
  obtain ⟨ts, t, ts', u, ts'', hlist, hp, ht, hu⟩ := hplace
  have hlengths : ts.length = p.before.length ∧ ts'.length = p.inside.length := by
    rw [hp]
    simp
  obtain ⟨hopening, hclosing⟩ := h.locations hg hks hcode hlist hlengths.1 hlengths.2
  have hwritten : before ++ '(' :: inside ++ ')' :: after = _ := htext.symm.trans (hcode.trans h.write_eq)
  rw [hu] at hclosing
  rw [ht] at hopening
  have hsecond := Location.afterText_inj hwritten hclosing
  have hlast := hwritten
  rw [hsecond] at hlast
  rw [List.append_assoc, List.append_assoc] at hwritten
  obtain rfl := Location.afterText_inj hwritten hopening
  exact ⟨rfl, (List.cons_eq_cons.1 (List.append_cancel_left hsecond)).2,
    (List.cons_eq_cons.1 (List.append_cancel_left hlast)).2⟩

/-- The pair is one among the tokens that are read. -/
theorem standsIn (hg : g.IsDotless) (hks : Spaced WritesClosed g o none .operand ks) {code : String}
    (hcode : code.toList = Phase.operand.write ks) : p.StandsIn (Tokens.ofCode g o code).list
      (Location.start.afterText (Phase.operand.write p.before))
      (Location.start.afterText (Phase.operand.write p.before ++ '(' :: Phase.operand.write p.inside)) := by
  have hkinds := (scans_iff.1 (hks.scans hg hcode)).2
  rw [h.tokens_eq] at hkinds
  obtain ⟨us, _, hsplit, hus, hts''⟩ := List.map_eq_append_iff.1 hkinds
  obtain ⟨u, ts'', rfl, hu, hafter⟩ := List.map_eq_cons_iff.1 hts''
  obtain ⟨ts, _, rfl, hbefore, hts'⟩ := List.map_eq_append_iff.1 hus
  obtain ⟨t, ts', rfl, ht, hinside⟩ := List.map_eq_cons_iff.1 hts'
  obtain ⟨hopening, hclosing⟩ := h.locations hg hks hcode hsplit (by simp [← hbefore]) (by simp [← hinside])
  exact ⟨ts, t, ts', u, ts'', hsplit, by rw [hbefore, hinside, hafter], hopening, hclosing⟩

end

/-! ### A number that goes on with the dot -/

theorem run_after (h : p.Surrounds g o P ks) (hrun : Phase.operand.run ks = .operator) :
    Phase.operator.run p.after = .operator := by
  rw [h.tokens_eq, Phase.run_append, Phase.run_cons, Phase.next_rightParen] at hrun
  exact hrun

/-- A number that comes in front of a dot without the pair, with the tokens around it. -/
theorem exists_seam (h : p.Surrounds g o P ks) (hks : Spaced (fun _ => False) g o none .operand ks)
    (hrun : Phase.operand.run ks = .operator) {v : Float} (hv : p.Joins v) :
    ∃ us k ls, p.without = us ++ .number v :: .operator "." :: k :: ls ∧
      Spaced WritesClosed g o (some (.number v)) .operand us ∧ Phase.operand.run us = .operand ∧ Unsigned v ∧
      k.Fits WritesClosed g o .field (ls.head?.or none) ∧ Spaced WritesClosed g o none .operator ls := by
  obtain ⟨hbefore, hinside, hafter⟩ := h.spaced_parts (hks.mono fun _ => False.elim)
  obtain ⟨is, his⟩ := List.getLast?_eq_some_iff.1 hv.1
  obtain ⟨ls, hls⟩ := List.head?_eq_some_iff.1 hv.2
  have hafterRun := h.run_after hrun
  rw [his, Spaced.append_iff] at hinside
  obtain ⟨hfirst, ⟨hphase, hunsigned, -⟩, -⟩ := hinside
  rw [hls] at hafter hafterRun
  cases ls with
  | nil => cases hafterRun
  | cons k ls =>
    obtain ⟨-, hfield, hlater⟩ := hafter
    refine ⟨p.before ++ is, k, ls, by simp [without, his, hls], ?_, ?_, hunsigned, hfield, hfield.next_field ▸ hlater⟩
    · rw [Spaced.append_iff, h.run_before]
      refine ⟨hbefore.change_next (by simp) ?_, hfirst⟩
      rintro _ hlast v rfl _
      exact absurd hlast (h.getLast?_before_ne v)
    · rw [Phase.run_append, h.run_before]
      exact hphase

/-- Without the pair, a number whose numeral is not closed takes the dot behind it along, so there are fewer words. -/
theorem wordCount_lt (hg : g.IsDotless) (h : p.Surrounds g o P ks) (hks : Spaced (fun _ => False) g o none .operand ks)
    (hrun : Phase.operand.run ks = .operator) {v : Float} (hv : p.Joins v) (hopen : ¬WritesClosed v) {code : String}
    (hcode : code.toList = Phase.operand.write p.without) {e : Token} (he : (Tokens.ofCode g o code).ending = .ok e) :
    wordCount ((Tokens.ofCode g o code).list.map Token.kind) < wordCount ks := by
  obtain ⟨us, k, ls, hwithout, hus, husRun, hunsigned, hk, hls⟩ := h.exists_seam hks hrun hv
  rw [hwithout] at hcode
  rw [← h.wordCount_without, hwithout]
  exact Tokens.wordCount_ofCode_seam hg hus husRun hunsigned hopen hk hls hcode he

/-! ### Depths -/

/-- If the tokens were not the deeper ones, the pair is around a number in front of a dot. -/
theorem eq_number (h : p.Surrounds g o P ks) (hseams : seams ks = 0) (hleast : depths 0 ks ≤ burden p.without) :
    ∃ v, p.inside = [.number v] ∧ p.Joins v := by
  have hpos := h.wordCount_inside_pos
  have hdepths := h.depths_without
  have hjunction := h.seams_without hseams
  unfold burden at hleast
  split at hjunction
  · next hjoins =>
    obtain ⟨k, hlast, hnumber⟩ := (Option.any_eq_true _ _).1 hjoins.1
    obtain ⟨x, hx, -⟩ := h.exists_expression
    rw [← hx] at hlast hdepths hpos
    have hparen : k.isParen = false := by
      cases k with
      | number v => rfl
      | _ => cases hnumber
    have hsingle := x.eq_singleton (by omega) hlast hparen
    cases k with
    | number v => exact ⟨v, hx ▸ hsingle, hx ▸ hlast, hjoins.2⟩
    | _ => cases hnumber
  · omega

end Surrounds

end Grouping

/-! ## Removing a pair -/

/-- What is written for an expression whose numbers are unsigned is read as the expression. -/
theorem Expr.parse_render (hg : g.IsDotless) {e : Expr} (he : e.PrintableWith Unsigned g o false) :
    Expr.parse g o e.program.render = .ok e := by
  have hspells := e.printableWith_canSpell.1 (he.imp fun _ _ hv => Expr.canSpell_of_unsigned hv)
  rw [Expr.parse_rendered hg hspells, he.spelled_eq]

/-- A code is read as the program of an expression if it is read as the expression. -/
theorem Program.parse_eq_program_iff (hg : g.IsReadable) {e : Expr} (he : e.PrintableWith Unsigned g o false)
    {code : String} : Program.parse g o code = .ok e.program ↔ Expr.parse g o code = .ok e := by
  rw [Program.parse_eq_ok_iff]
  constructor
  · rintro ⟨e', he', hprogram⟩
    obtain ⟨d, hd, rfl⟩ := Expr.parse_eq_ok_iff.1 he'
    have hsame := Expr.parse_render hg.dotless (Derivation.printable_of_parse hg.reads hd)
    rw [hprogram, Expr.parse_render hg.dotless he] at hsame
    rw [he', Except.ok.inj hsame]
  · exact fun h => ⟨e, h, rfl⟩

/-- What is written for an expression has the derivations of the tokens of the expression. -/
theorem Derivation.parse_render_iff (hg : g.IsDotless) {e : Expr} (he : e.PrintableWith Unsigned g o false)
    {d : Derivation .expression} :
    Derivation.parse g o e.program.render = .ok d ↔ d.tokens = e.kinds g o ∧ d.Proper g o := by
  obtain ⟨hends, hkinds⟩ := scans_iff.1 (e.scans_rendered hg he)
  rw [Derivation.parse_eq_ok_iff, and_iff_right hends, hkinds]
  exact ⟨fun h => ⟨h.tokens, h.proper⟩, fun h => ⟨h.1, h.2⟩⟩

/-- The parentheses of what is written for an expression. -/
theorem Derivation.surrounds_of_parse_render (hg : g.IsDotless) {e : Expr} (he : e.PrintableWith Unsigned g o false)
    {d : Derivation .expression} (hd : Derivation.parse g o e.program.render = .ok d) :
    ∀ p ∈ d.groups, p.Surrounds g o (d.Matches g o) (e.kinds g o) := by
  obtain ⟨htokens, hproper⟩ := (Derivation.parse_render_iff hg he).1 hd
  have hspaced := he.spaced
  rw [← htokens] at hspaced ⊢
  exact d.surrounds hproper (d.plain_of_spaced hproper hspaced)

/-- The pairs of parentheses in what is written for an expression are those of its derivation, in the texts that are
written for the tokens around them. -/
theorem isGroup_render_iff (hg : g.IsDotless) {e : Expr} (he : e.PrintableWith Unsigned g o false)
    {d : Derivation .expression} (hd : Derivation.parse g o e.program.render = .ok d)
    {before inside after : List Char} : IsGroup g o e.program.render before inside after ↔ ∃ p ∈ d.groups,
      before = Phase.operand.write p.before ∧ inside = Phase.operand.write p.inside ∧
        after = Phase.operator.write p.after := by
  have hspaced : Spaced WritesClosed g o none .operand (e.kinds g o) := he.spaced.mono fun _ => False.elim
  have hwritten := Expr.toList_render he
  have hsurrounds := Derivation.surrounds_of_parse_render hg he hd
  constructor
  · rintro ⟨htext, d', p, hd', hp, hplace⟩
    obtain rfl : d = d' := Except.ok.inj (hd.symm.trans hd')
    exact ⟨p, hp, (hsurrounds p hp).text_eq hg hspaced hwritten htext hplace⟩
  · rintro ⟨p, hp, rfl, rfl, rfl⟩
    exact ⟨hwritten.trans (hsurrounds p hp).write_eq, d, p, hd, hp, (hsurrounds p hp).standsIn hg hspaced hwritten⟩

namespace Grouping.Surrounds

variable {e : Expr} {P : List TokenKind → Prop} {p : Grouping} {code : String}

/-- If the expression is read without the pair, the pair is around a number in front of a dot, whose numeral is
closed. -/
theorem number_of_parse (hg : g.IsDotless) (he : e.PrintableWith Unsigned g o false)
    (h : p.Surrounds g o P (e.kinds g o)) (hcode : code.toList = Phase.operand.write p.without)
    (hparse : Expr.parse g o code = .ok e) : ∃ v, p.inside = [.number v] ∧ p.Joins v ∧ WritesClosed v := by
  obtain ⟨d, hd, rfl⟩ := Expr.parse_eq_ok_iff.1 hparse
  obtain ⟨⟨t, hends⟩, hderives⟩ := Derivation.parse_eq_ok_iff.1 hd
  -- otherwise the number and the dot are one token, and there are too few of them
  have hclosed : ∀ v, p.Joins v → WritesClosed v := by
    intro v hv
    by_contra hopen
    have hless := h.wordCount_lt hg he.spaced (Expr.run_kinds _ he) hv hopen hcode hends
    rw [← hderives.tokens, d.wordCount_tokens (g := g) (o := o)] at hless
    exact hless.false
  have hwithout := h.spaced_without he.spaced hclosed
  have htokens : d.tokens = p.without := by
    rw [hderives.tokens, (scans_iff.1 (hwithout.scans hg hcode)).2]
  have hleast := d.depths_kinds_le hderives.proper (d.plain_of_spaced hderives.proper (htokens ▸ hwithout))
  rw [Category.priority, enclose_conditional, htokens] at hleast
  obtain ⟨v, hv, hjoins⟩ := h.eq_number he.spaced.seams_eq_zero hleast
  exact ⟨v, hv, hjoins, hclosed v hjoins⟩

/-- Without a pair around a number whose numeral is closed the expression is read all the same. -/
theorem parse_of_number (hg : g.IsDotless) (he : e.PrintableWith Unsigned g o false) {d : Derivation .expression}
    (hd : d.expr = e) (h : p.Surrounds g o (d.Matches g o) (e.kinds g o))
    (hcode : code.toList = Phase.operand.write p.without) {v : Float} (hv : p.inside = [.number v])
    (hclosed : WritesClosed v) : Expr.parse g o code = .ok e := by
  have hjoins : ∀ w, p.Joins w → WritesClosed w := by
    rintro w ⟨hlast, -⟩
    rw [hv] at hlast
    cases hlast
    exact hclosed
  obtain ⟨d', hproper, hexpr, htokens⟩ := h.replaced v hv
  obtain ⟨hends, hkinds⟩ := scans_iff.1 ((h.spaced_without he.spaced hjoins).scans hg hcode)
  have hderives : d'.Derives g o ((Tokens.ofCode g o code).list.map Token.kind) := by
    refine ⟨?_, hproper⟩
    rw [htokens, hkinds, without, hv]
    rfl
  exact Expr.parse_eq_ok_iff.2 ⟨d', Derivation.parse_eq_ok_iff.2 ⟨hends, hderives⟩, hexpr.trans hd⟩

/-- The text inside is a closed numeral if there is nothing but a number that is written so. -/
theorem isClosed_iff (hg : g.IsDotless) {ks : List TokenKind} (h : p.Surrounds g o P ks)
    (hks : Spaced WritesClosed g o none .operand ks) :
    Numeral.IsClosed (Phase.operand.write p.inside) ↔ ∃ v, p.inside = [.number v] ∧ WritesClosed v := by
  have hwrite : ∀ v, Phase.operand.write [.number v] = (Rendered.ofNumber v).text := by
    intro v
    simp [Phase.write, Phase.before, Phase.behind, TokenKind.spelling]
  constructor
  · intro hclosed
    have hinside : Spaced WritesClosed g o none .operand p.inside :=
      (h.spaced_parts hks).2.1.change_next (by simp) (by simp)
    have hnumber : Scans g o (Phase.operand.write p.inside ++ []) [.number _] :=
      (Numeral.begins_of_length hclosed.1 hclosed.length_eq).scans (.finish rfl)
    have hcode : (String.ofList (Phase.operand.write p.inside)).toList = Phase.operand.write p.inside :=
      String.toList_ofList
    rw [List.append_nil, ← hcode] at hnumber
    have htokens := (scans_iff.1 (hinside.scans hg hcode)).2.symm.trans (scans_iff.1 hnumber).2
    rw [htokens, hwrite] at hclosed
    exact ⟨_, htokens, hclosed⟩
  · rintro ⟨v, hv, hclosed⟩
    rw [hv, hwrite]
    exact hclosed

end Grouping.Surrounds

/-- Of the pairs of parentheses that group an operand in what is written for the program of a code, those around a
numeral that a dot does not go on with can be left out, and no others; these are in front of a dot. -/
theorem Program.parse_without_group (hg : g.IsReadable) {code : String} {s : Program}
    (hs : Program.parse g o code = .ok s) {before inside after : List Char}
    (h : IsGroup g o s.render before inside after) :
    (Program.parse g o (String.ofList (before ++ inside ++ after)) = .ok s ↔ Numeral.IsClosed inside) ∧
      (Numeral.IsClosed inside → after.head? = some '.') := by
  obtain ⟨e, he, rfl⟩ := Program.parse_eq_ok_iff.1 hs
  have hprintable : e.PrintableWith Unsigned g o false := by
    obtain ⟨d, hd, rfl⟩ := Expr.parse_eq_ok_iff.1 he
    exact Derivation.printable_of_parse hg.reads hd
  obtain ⟨d, hd, hexpr⟩ := Expr.parse_eq_ok_iff.1 (Expr.parse_render hg.dotless hprintable)
  obtain ⟨p, hp, rfl, rfl, rfl⟩ := (isGroup_render_iff hg.dotless hprintable hd).1 h
  have hsurrounds := Derivation.surrounds_of_parse_render hg.dotless hprintable hd p hp
  obtain ⟨text, htext⟩ : ∃ text, text = String.ofList (Phase.operand.write p.before ++ Phase.operand.write p.inside ++
    Phase.operator.write p.after) := ⟨_, rfl⟩
  have hcode : text.toList = Phase.operand.write p.without := by
    rw [htext, String.toList_ofList, hsurrounds.write_without]
  rw [← htext, Program.parse_eq_program_iff hg hprintable,
    hsurrounds.isClosed_iff hg.dotless (hprintable.spaced.mono fun _ => False.elim)]
  have hnumber := hsurrounds.number_of_parse hg.dotless hprintable hcode
  have hread : (∃ v, p.inside = [.number v] ∧ WritesClosed v) → Expr.parse g o text = .ok e := by
    rintro ⟨v, hv, hclosed⟩
    exact hsurrounds.parse_of_number hg.dotless hprintable hexpr hcode hv hclosed
  refine ⟨⟨fun hparse => ?_, hread⟩, fun hclosed => ?_⟩
  · obtain ⟨v, hv, -, hclosed⟩ := hnumber hparse
    exact ⟨v, hv, hclosed⟩
  · obtain ⟨v, -, hjoins, -⟩ := hnumber (hread hclosed)
    obtain ⟨ks, hks⟩ := List.head?_eq_some_iff.1 hjoins.2
    rw [hks, Phase.write_dot]
    rfl

/-- The parentheses around a sum that is multiplied are necessary. -/
theorem Program.parse_without_group_product :
    Program.parse Grammar.standard .standard "(1 + 2) * 3" =
        .ok [.number 1, .number 2, .binary "+", .number 3, .binary "*"] ∧
      IsGroup Grammar.standard .standard (Program.render [.number 1, .number 2, .binary "+", .number 3, .binary "*"])
        [] "1 + 2".toList " * 3".toList ∧
      Program.parse Grammar.standard .standard "1 + 2 * 3" ≠
        .ok [.number 1, .number 2, .binary "+", .number 3, .binary "*"] := by
  let sum : Derivation (.level .sum) :=
    .binary (l := .sum) (.operand (l := .sum) (.operand (l := .product) (.ofAtom (.number 1)))) "+"
      (.operand (l := .product) (.ofAtom (.number 2)))
  let d : Derivation .expression := .ofSum (.operand (l := .sum)
    (.binary (l := .product) (.operand (l := .product) (.ofAtom (.inner (.group (.ofSum sum))))) "*"
      (.ofAtom (.number 3))))
  have he : d.expr.PrintableWith Unsigned Grammar.standard .standard false := by
    have hone : Unsigned 1 := by decide
    have htwo : Unsigned 2 := by decide
    have hthree : Unsigned 3 := by decide
    exact ⟨⟨by decide, .inl (by decide)⟩, .inr ⟨.product, by decide⟩,
      ⟨⟨by decide, .inl (by decide)⟩, .inr ⟨.sum, by decide⟩, hone, htwo⟩, hthree⟩
  have hd : Derivation.parse Grammar.standard .standard d.expr.program.render = .ok d := by
    refine (Derivation.parse_render_iff Grammar.isReadable_standard.dotless he).2 ⟨by decide +kernel, ?_⟩
    simp [d, sum, Derivation.ofSum, Derivation.ofAtom, Derivation.Proper, Level.operators]
  have hgroup : IsGroup Grammar.standard .standard d.expr.program.render [] "1 + 2".toList " * 3".toList := by
    refine (isGroup_render_iff Grammar.isReadable_standard.dotless he hd).2 ?_
    exact ⟨⟨[], [.number 1, .operator "+", .number 2], [.operator "*", .number 3]⟩, by decide, by decide +kernel⟩
  have hrender : d.expr.program.render = "(1 + 2) * 3" := by decide +kernel
  have hs := (Program.parse_eq_program_iff Grammar.isReadable_standard he).2 (Expr.parse_eq_ok_iff.2 ⟨d, hd, rfl⟩)
  rw [hrender] at hs
  have hiff := (Program.parse_without_group Grammar.isReadable_standard hs hgroup).1
  have hopen : ¬Numeral.IsClosed "1 + 2".toList := by
    unfold Numeral.IsClosed
    decide
  exact ⟨hs, hgroup, fun hsame => hopen (hiff.1 hsame)⟩

/-- The parentheses around a number with a point that a field is taken of are not necessary. -/
theorem Program.parse_without_group_pointed :
    Program.parse Grammar.standard .standard "1.5.x" = .ok [.number 1.5, .member "x"] ∧
      IsGroup Grammar.standard .standard (Program.render [.number 1.5, .member "x"]) [] "1.5".toList ".x".toList ∧
      Program.parse Grammar.standard .standard (String.ofList ([] ++ "1.5".toList ++ ".x".toList)) =
        .ok [.number 1.5, .member "x"] := by
  let number : Derivation (.level .sum) := .operand (l := .sum) (.operand (l := .product) (.ofAtom (.number 1.5)))
  let member : Derivation .fields := .member (.whole (.inner (.group (.ofSum number)))) (.name "x")
  let d : Derivation .expression := .ofSum
    (.operand (l := .sum) (.operand (l := .product) (.unsigned (.base (.applied (.called (.uncalled member)))))))
  have he : d.expr.PrintableWith Unsigned Grammar.standard .standard false := by
    have hfield : (Expr.name "x").Printable Grammar.standard .standard false :=
      Expr.printable_name (by decide) (by decide) (by decide)
    have hnumber : Unsigned 1.5 := by decide +kernel
    exact ⟨rfl, by decide, .inl hfield, hnumber⟩
  have hd : Derivation.parse Grammar.standard .standard d.expr.program.render = .ok d := by
    refine (Derivation.parse_render_iff Grammar.isReadable_standard.dotless he).2 ⟨by decide +kernel, ?_⟩
    simp [d, member, number, Derivation.ofSum, Derivation.ofAtom, Derivation.Proper]
    decide
  let p : Grouping := ⟨[], [.number 1.5], [.operator ".", .name "x"]⟩
  have hp : p ∈ d.groups := by decide +kernel
  have hgroup : IsGroup Grammar.standard .standard d.expr.program.render [] "1.5".toList ".x".toList := by
    exact (isGroup_render_iff Grammar.isReadable_standard.dotless he hd).2 ⟨p, hp, by decide +kernel⟩
  have hclosed : WritesClosed 1.5 := by
    unfold WritesClosed Numeral.IsClosed
    decide +kernel
  have hread : Expr.parse Grammar.standard .standard "1.5.x" = .ok d.expr :=
    (Derivation.surrounds_of_parse_render Grammar.isReadable_standard.dotless he hd p hp).parse_of_number
      Grammar.isReadable_standard.dotless he rfl (by decide +kernel) rfl hclosed
  have hs := (Program.parse_eq_program_iff Grammar.isReadable_standard he).2 hread
  exact ⟨hs, hgroup, hs⟩

end Reckon
