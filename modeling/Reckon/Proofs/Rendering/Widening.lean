import Reckon.Proofs.Rendering.Reparsing

/-!
# Wider grammars and options

With more symbolic operators switched on, and with more operators that may stand in front of an operand, a code that was
read is read as the same (`Widens`, `Derivation.parse_widen`): a symbol that is switched off is no token, and no other
rule of the lexer reads it as one. So what a grammar and options do not read can be compared with what they read once
they have the operators that signed numbers and NaN are written with: the code of an expression is read only if each of
its numbers can be written (`Expr.exists_parse_render_iff`). All other parts of what has been read can
(`Program.printable_of_parse`). And to switch on symbolic operators changes no code that is read already
(`Program.parse_more_symbols`).
-/

namespace Reckon

open Lexeme

variable {g g' : Grammar} {o o' : Options}

/-- The second grammar and options have the constants and the words of the first ones, their symbolic operators and
their prefix operators, and possibly more of these. -/
structure Widens (g : Grammar) (o : Options) (g' : Grammar) (o' : Options) : Prop where
  constants : g'.constant? = g.constant?
  words : ∀ w : String, IsWord w.toList → (g'.isOperator w && o'.enables w) = (g.isOperator w && o.enables w)
  symbols : ∀ op ∈ symbols, o.enables op = true → o'.enables op = true
  unary : ∀ op, g.isUnary op = true → g'.isUnary op = true
  memberAccess : o.memberAccess = true → o'.memberAccess = true

/-! ## Tokens -/

section Tokens

variable {cs : List Char} {l : Lexeme}

theorem Widens.wordOperator?_eq (hw : Widens g o g' o') (cs : List Char) :
    wordOperator? g' o' cs = wordOperator? g o cs := by
  simp only [wordOperator?]
  by_cases hzero : wordLength false cs = 0
  · simp only [hzero, ofLength?, Nat.lt_irrefl, dif_neg, not_false_eq_true]
    split <;> split <;> rfl
  · obtain ⟨w, rest, hcs, hlength, hword, _⟩ := exists_word hzero
    have htake : cs.take (wordLength false cs) = w := by rw [← hlength, hcs, List.take_left]
    rw [htake, hw.words _ (by rwa [String.toList_ofList])]

theorem Widens.constant?_eq (hw : Widens g o g' o') (cs : List Char) :
    Lexeme.constant? g' cs = Lexeme.constant? g cs := by
  rw [Lexeme.constant?, Lexeme.constant?, hw.constants]

/-- The characters that symbolic operators start with. -/
def symbolStarts : List Char := "<>=!|+-*/%^?:.∙•".toList

theorem mem_symbolStarts {c : Char} {s : Nat × String} (h : symbol? (c :: cs) = some s) : c ∈ symbolStarts := by
  have hpairs : ∀ p ∈ pairSymbols, p.1 ∈ symbolStarts := by decide
  have hsingles : ∀ c ∈ singleSymbols, c ∈ symbolStarts := List.all_iff_forall_prop.1 (by decide)
  rw [symbol?] at h
  split at h
  · next d hd => exact hpairs _ (List.contains_iff_mem.1 (Option.filter_eq_some_iff.1 hd).2)
  · split at h
    · next hc => exact hsingles c (List.contains_iff_mem.1 hc)
    · split at h
      · next hc => rcases hc with rfl | rfl <;> decide
      · cases h

/-- Where a symbolic operator starts, neither a mark nor a word does. -/
theorem words_eq_none_of_symbol? {s : Nat × String} (h : symbol? cs = some s) :
    (mark? cs <|> wordOperator? g o cs <|> Lexeme.constant? g cs <|> name? cs) = none := by
  cases cs with
  | nil => cases h
  | cons c cs =>
    have hc := mem_symbolStarts h
    have hstarts : ∀ c ∈ symbolStarts, Text.isAlphabetic c = false ∧ c ∉ ['$', '_', '(', ')', ','] :=
      List.all_iff_forall_prop.1 (by decide +kernel)
    obtain ⟨halphabetic, hother⟩ := hstarts c hc
    have hword : ∀ dots, wordLength dots (c :: cs) = 0 := fun dots => by
      rw [wordLength, if_neg (Bool.eq_false_iff.1 halphabetic)]
    have hname : nameLength (c :: cs) = 0 := by
      rw [nameLength, if_neg, hword]
      rintro (rfl | rfl)
      · exact hother (by decide)
      · exact hother (by decide)
    have hmark : mark? (c :: cs) = none := by
      unfold mark?
      split
      · next heq => cases heq; exact absurd (by decide) hother
      · next heq => cases heq; exact absurd (by decide) hother
      · next heq => cases heq; exact absurd (by decide) hother
      · rfl
    have hoperator : wordOperator? g o (c :: cs) = none := by
      simp only [wordOperator?, hword]
      split <;> rfl
    have hconstant : Lexeme.constant? g (c :: cs) = none := by
      simp only [Lexeme.constant?, hword]
      split <;> rfl
    rw [hmark, hoperator, hconstant, name?, hname]
    rfl

/-- A token other than a string stays the same token. -/
theorem Widens.plain?_eq (hw : Widens g o g' o') (h : plain? g o cs = some l) : plain? g' o' cs = some l := by
  rw [plain?] at h ⊢
  rw [hw.wordOperator?_eq, hw.constant?_eq]
  cases hsymbol : symbol? cs with
  | none =>
    have hnone : ∀ o : Options, symbolOperator? o cs = none := fun o => by rw [symbolOperator?, hsymbol]
    rw [hnone] at h ⊢
    exact h
  | some s =>
    obtain ⟨n, op⟩ := s
    rw [words_eq_none_of_symbol? hsymbol] at h ⊢
    cases henabled : o.enables op with
    | true =>
      have henabled' := hw.symbols op (mem_symbols_of_symbol? hsymbol) henabled
      have hsame : symbolOperator? o' cs = symbolOperator? o cs := by
        simp only [symbolOperator?, hsymbol, henabled, henabled']
      rw [hsame]
      exact h
    | false =>
      -- a symbol that is switched off is no token, so it was a number that has been read
      have hoff : symbolOperator? o cs = none := by simp [symbolOperator?, hsymbol, henabled]
      rw [hoff] at h
      simp only [Option.orElse_eq_orElse, Option.orElse_eq_or, Option.or_none] at h ⊢
      rw [← Option.or_assoc, h]
      rfl

/-- A token stays the same token. -/
theorem Widens.recognise_eq (hw : Widens g o g' o') (h : recognise g o cs = .ok l) : recognise g' o' cs = .ok l := by
  cases cs with
  | nil => cases h
  | cons c cs =>
    rw [recognise] at h ⊢
    split at h
    · next hquote =>
      rw [if_pos hquote]
      exact h
    · next hquote =>
      rw [if_neg hquote]
      split at h
      · next l' hl =>
        cases h
        rw [hw.plain?_eq hl]
      · cases h

/-- The tokens of a code stay the same. -/
theorem Scans.widen (hw : Widens g o g' o') {ks : List TokenKind} (h : Scans g o cs ks) : Scans g' o' cs ks := by
  induction h with
  | finish h => exact .finish h
  | token h _ ih => exact .token (hw.recognise_eq h) ih

end Tokens

/-! ## Derivations -/

mutual

/-- A derivation follows the rules of a wider grammar. -/
theorem Derivation.Proper.widen (hw : Widens g o g' o') : {c : Category} → (d : Derivation c) → d.Proper g o →
    d.Proper g' o'
  | _, .simple x, h | _, .operand x, h | _, .unsigned x, h | _, .base x, h | _, .applied x, h | _, .factorial x, h
  | _, .called x, h | _, .uncalled x, h | _, .invocation x, h | _, .whole x, h | _, .inner x, h | _, .group x, h =>
    Derivation.Proper.widen hw x h
  | _, .choice c x y, ⟨hc, hx, hy⟩ =>
    ⟨Derivation.Proper.widen hw c hc, Derivation.Proper.widen hw x hx, Derivation.Proper.widen hw y hy⟩
  | _, .binary (l := l) x _op y, ⟨hx, hop, hy⟩ =>
    ⟨Derivation.Proper.widen hw x hx, hop, Derivation.Proper.widen hw y hy⟩
  | _, .signed op x, ⟨hop, hhead, hx⟩ => ⟨hw.unary op hop, hhead, Derivation.Proper.widen hw x hx⟩
  | _, .power x y, ⟨hx, hy⟩ => ⟨Derivation.Proper.widen hw x hx, Derivation.Proper.widen hw y hy⟩
  | _, .operation op x, ⟨hop, hminus, hplus, hx⟩ =>
    ⟨hw.unary op hop, hminus, hplus, Derivation.Proper.widen hw x hx⟩
  | _, .call f args, ⟨hf, hargs⟩ => ⟨Derivation.Proper.widen hw f hf, Arguments.Proper.widen hw args hargs⟩
  | _, .member x _field, ⟨hx, haccess, hword⟩ => ⟨Derivation.Proper.widen hw x hx, hw.memberAccess haccess, hword⟩
  | _, .name _, _ | _, .number _, _ | _, .string _, _ => trivial

/-- The same for arguments. -/
theorem Arguments.Proper.widen (hw : Widens g o g' o') : (args : Arguments) → args.Proper g o → args.Proper g' o'
  | .last x, h => Derivation.Proper.widen hw x h
  | .more x rest, ⟨hx, hrest⟩ => ⟨Derivation.Proper.widen hw x hx, Arguments.Proper.widen hw rest hrest⟩

end

/-- A code that is read is read as the same in a wider grammar. -/
theorem Derivation.parse_widen (hw : Widens g o g' o') {code : String} {d : Derivation .expression}
    (h : Derivation.parse g o code = .ok d) : Derivation.parse g' o' code = .ok d := by
  obtain ⟨hends, hderives⟩ := Derivation.parse_eq_ok_iff.1 h
  have hscans : Scans g o code.toList d.tokens := scans_iff.2 ⟨hends, hderives.tokens.symm⟩
  obtain ⟨hends', hkinds⟩ := scans_iff.1 (hscans.widen hw)
  exact Derivation.parse_eq_ok_iff.2 ⟨hends', hkinds.symm, Derivation.Proper.widen hw d hderives.proper⟩

theorem Expr.parse_widen (hw : Widens g o g' o') {code : String} {e : Expr} (h : Expr.parse g o code = .ok e) :
    Expr.parse g' o' code = .ok e := by
  obtain ⟨d, hd, he⟩ := Expr.parse_eq_ok_iff.1 h
  exact Expr.parse_eq_ok_iff.2 ⟨d, Derivation.parse_widen hw hd, he⟩

/-! ## Expressions -/

theorem IsOperator.widen (hw : Widens g o g' o') {op : String} (h : IsOperator g o op) : IsOperator g' o' op := by
  rcases h.spelling with hsymbol | ⟨hword, hoperator⟩
  · exact ⟨hw.symbols op hsymbol h.enabled, .inl hsymbol⟩
  · have hboth := hw.words op hword
    rw [hoperator, h.enabled, Bool.and_self, Bool.and_eq_true] at hboth
    exact ⟨hboth.2, .inr ⟨hword, hboth.1⟩⟩

theorem IsVariable.widen (hw : Widens g o g' o') {n : String} (h : IsVariable g o n) : IsVariable g' o' n := by
  refine ⟨h.name, fun hword hoperator => ?_⟩
  have hboth := hw.words n hword
  rw [hoperator, Bool.true_and] at hboth
  rw [hboth, Bool.and_eq_false_imp]
  exact h.free hword

theorem IsConstant.of_widen (hw : Widens g o g' o') {n : String} (h : IsConstant g' n) : IsConstant g n :=
  ⟨h.1, by rw [← hw.constants]; exact h.2⟩

namespace Expr

variable {N : Float → Prop}

theorem IsField.widen (hw : Widens g o g' o') {dotted : Bool} {field : String} (h : IsField g o dotted field) :
    IsField g' o' dotted field := by
  rcases h with ⟨hvariable, hconstant⟩ | ⟨hword, hoperator, henabled⟩
  · exact .inl ⟨hvariable.widen hw, fun hc => hconstant (hc.of_widen hw)⟩
  · have hop := IsOperator.widen hw ⟨henabled, .inr ⟨hword, hoperator⟩⟩
    have hboth := hw.words field hword
    rw [hoperator, henabled, Bool.and_self, Bool.and_eq_true] at hboth
    exact .inr ⟨hword, hboth⟩

mutual

/-- What can be written can be written with more operators. -/
theorem PrintableWith.widen (hw : Widens g o g' o') : (e : Expr) → ∀ {dotted : Bool}, e.PrintableWith N g o dotted →
    e.PrintableWith N g' o' dotted
  | .number _, _, h | .string _, _, h => h
  | .name _, _, ⟨hn, hconstant⟩ => ⟨hn.widen hw, fun hc => hconstant (hc.of_widen hw)⟩
  | .unary op x, _, ⟨hop, hunary, hx⟩ =>
    ⟨hop.widen hw, hunary.imp_right (hw.unary op), PrintableWith.widen hw x hx⟩
  | .binary _ x y, _, ⟨hop, hbinary, hx, hy⟩ =>
    ⟨hop.widen hw, hbinary, PrintableWith.widen hw x hx, PrintableWith.widen hw y hy⟩
  | .choice c x y, _, ⟨hquestion, hcolon, hc, hx, hy⟩ =>
    ⟨hquestion.widen hw, hcolon.widen hw, PrintableWith.widen hw c hc, PrintableWith.widen hw x hx,
      PrintableWith.widen hw y hy⟩
  | .call f args, _, ⟨hf, hargs⟩ => ⟨PrintableWith.widen hw f hf, AllPrintableWith.widen hw args hargs⟩
  | .member x _, _, ⟨haccess, hdot, hfield, hx⟩ =>
    ⟨hw.memberAccess haccess, hw.symbols "." (by decide) hdot, hfield.widen hw, PrintableWith.widen hw x hx⟩

theorem AllPrintableWith.widen (hw : Widens g o g' o') : (es : List Expr) → AllPrintableWith N g o es →
    AllPrintableWith N g' o' es
  | [], _ => trivial
  | x :: rest, ⟨hx, hrest⟩ => ⟨PrintableWith.widen hw x hx, AllPrintableWith.widen hw rest hrest⟩

end

end Expr

/-! ## Signs -/

theorem Capability.mem_operators_of_guard? {op : String} {c : Capability} (h : Capability.guard? op = some c) :
    op ∈ c.operators :=
  List.contains_iff_mem.1 (List.find?_some (p := fun c : Capability => c.operators.contains op) h)

/-- An operator is switched on by its capability, if it has one, and by its text. -/
theorem Options.enables_iff {o : Options} {op : String} : o.enables op = true ↔
    (∀ c, Capability.guard? op = some c → o.allows c = true) ∧ op ∉ o.disabled := by
  rw [Options.enables, Bool.and_eq_true, decide_eq_true_eq]
  refine and_congr_left' ?_
  split
  · next c hc => simp [hc]
  · next hnone => simp [hnone]

/-- A capability switches none but the operators it guards. -/
theorem Options.enables_setCapability {o : Options} {c : Capability} {on : Bool} {op : String}
    (hop : op ∉ c.operators) : (o.setCapability c on).enables op = o.enables op := by
  rw [Bool.eq_iff_iff, Options.enables_iff, Options.enables_iff]
  refine and_congr_left' (forall₂_congr fun d hd => ?_)
  have hne : d ≠ c := by
    rintro rfl
    exact hop (Capability.mem_operators_of_guard? hd)
  simp [Options.setCapability, hne]

/-- The options with the operators that signed numbers and NaN are written with. -/
def Options.withSigns (o : Options) : Options where
  allows c := c = .subtract || c = .divide || o.allows c
  memberAccess := o.memberAccess
  disabled := (o.disabled.erase "-").erase "/"

theorem Options.enables_withSigns {o : Options} {op : String} :
    o.withSigns.enables op = true ↔ op = "-" ∨ op = "/" ∨ o.enables op = true := by
  rw [Options.enables_iff, Options.enables_iff]
  simp only [Options.withSigns, NameSet.mem_erase, Bool.or_eq_true, decide_eq_true_eq]
  by_cases hminus : op = "-"
  · subst hminus
    have hguard : Capability.guard? "-" = some .subtract := by decide
    simp [hguard]
  · by_cases hslash : op = "/"
    · subst hslash
      have hguard : Capability.guard? "/" = some .divide := by decide
      simp [hguard]
    · have hother : ∀ c, Capability.guard? op = some c → c ≠ .subtract ∧ c ≠ .divide := by
        intro c hc
        have hmem := Capability.mem_operators_of_guard? hc
        constructor
        · rintro rfl
          exact hminus (List.mem_singleton.1 hmem)
        · rintro rfl
          exact hslash (List.mem_singleton.1 hmem)
      grind

/-- The grammar in which `-` may stand in front of an operand. -/
def Grammar.withMinus (g : Grammar) : Grammar :=
  { g with isUnary := fun op => op = "-" || g.isUnary op }

theorem widens_withSigns (g : Grammar) (o : Options) : Widens g o g.withMinus o.withSigns where
  constants := rfl
  words w hword := by
    have hne : ¬(w = "-" ∨ w = "/") := by
      rintro (rfl | rfl)
      · exact absurd hword (by decide)
      · exact absurd hword (by decide)
    have hminus : w ≠ "-" := fun h => hne (.inl h)
    have hoperator : g.withMinus.isOperator w = g.isOperator w := by
      simp [Grammar.isOperator, Grammar.withMinus, hminus]
    have henables : o.withSigns.enables w = o.enables w := by
      rw [Bool.eq_iff_iff, Options.enables_withSigns, ← or_assoc, or_iff_right hne]
    rw [hoperator, henables]
  symbols _ _ h := Options.enables_withSigns.2 (.inr (.inr h))
  unary op h := by simp [Grammar.withMinus, h]
  memberAccess := id

/-- With these operators every number can be written. -/
theorem Expr.canSpell_withSigns (g : Grammar) (o : Options) (v : Float) :
    Expr.CanSpell g.withMinus o.withSigns v := by
  have hop : ∀ op, op = "-" ∨ op = "/" → IsOperator g.withMinus o.withSigns op := by
    intro op hop
    refine ⟨Options.enables_withSigns.2 (hop.imp_right .inl), .inl ?_⟩
    rcases hop with rfl | rfl <;> decide
  rw [Expr.CanSpell]
  split
  · exact hop "/" (.inr rfl)
  · split
    · exact ⟨hop "-" (.inl rfl), rfl⟩
    · trivial

/-! ## What is read back -/

namespace Expr

/-- A number can be written if what it is read back as can. -/
theorem canSpell_of_spellNumber {v : Float} {dotted : Bool}
    (h : (spellNumber v).PrintableWith (fun _ => True) g o dotted) : CanSpell g o v := by
  rw [spellNumber] at h
  rw [CanSpell]
  split at h
  · next hnan => rw [if_pos hnan]; exact h.1
  · next hnan =>
    rw [if_neg hnan]
    split at h
    · next hsign => rw [if_pos hsign]; exact ⟨h.1, h.2.1.resolve_left (by decide)⟩
    · next hsign => rw [if_neg hsign]; trivial

mutual

/-- An expression can be written if what it is read back as can. -/
theorem printable_of_spelled : (e : Expr) → ∀ {dotted : Bool},
    e.spelled.PrintableWith (fun _ => True) g o dotted → e.Printable g o dotted
  | .number _, _, h => canSpell_of_spellNumber h
  | .string _, _, h | .name _, _, h => h
  | .unary _ x, _, ⟨hop, hunary, hx⟩ => ⟨hop, hunary, printable_of_spelled x hx⟩
  | .binary _ x y, _, ⟨hop, hbinary, hx, hy⟩ =>
    ⟨hop, hbinary, printable_of_spelled x hx, printable_of_spelled y hy⟩
  | .choice c x y, _, ⟨hquestion, hcolon, hc, hx, hy⟩ =>
    ⟨hquestion, hcolon, printable_of_spelled c hc, printable_of_spelled x hx, printable_of_spelled y hy⟩
  | .call f args, _, ⟨hf, hargs⟩ => ⟨printable_of_spelled f hf, allPrintable_of_allSpelled args hargs⟩
  | .member x _, _, ⟨haccess, hdot, hfield, hx⟩ => ⟨haccess, hdot, hfield, printable_of_spelled x hx⟩

theorem allPrintable_of_allSpelled : (es : List Expr) → AllPrintableWith (fun _ => True) g o (allSpelled es) →
    AllPrintable g o es
  | [], _ => trivial
  | x :: rest, ⟨hx, hrest⟩ => ⟨printable_of_spelled x hx, allPrintable_of_allSpelled rest hrest⟩

end

/-- What is read can be written apart from its numbers. -/
theorem printableWith_of_parse {code : String} {e : Expr} (h : Expr.parse g o code = .ok e) :
    e.PrintableWith (fun _ => True) g o false := by
  obtain ⟨d, hd, rfl⟩ := Expr.parse_eq_ok_iff.1 h
  exact Derivation.printable_of_parse (fun _ _ => trivial) hd

/-- What is written for an expression is read back, as what it is spelled as, exactly if its numbers can be written. -/
theorem exists_parse_render_iff (hg : g.IsDotless) {e : Expr} (he : e.PrintableWith (fun _ => True) g o false) :
    (∃ e', Expr.parse g o e.program.render = .ok e') ↔ e.Printable g o false := by
  refine ⟨fun ⟨e', he'⟩ => ?_, fun h => ⟨_, Expr.parse_rendered hg h⟩⟩
  have hw := widens_withSigns g o
  have hprintable : e.Printable g.withMinus o.withSigns false :=
    e.printableWith_canSpell.1 ((PrintableWith.widen hw e he).imp fun v _ _ => canSpell_withSigns g o v)
  have hdotless : g.withMinus.IsDotless := hg
  have hsame := Expr.parse_rendered hdotless hprintable
  rw [Expr.parse_widen hw he'] at hsame
  cases hsame
  exact e.printable_of_spelled (printableWith_of_parse he')

end Expr

/-! ## Programs -/

/-- The names, operators and fields of a program that has been read can be written. -/
theorem Program.printable_of_parse {code : String} {p : Program} (h : Program.parse g o code = .ok p) :
    ∀ i ∈ Program.nested p, Expr.PrintableStep g o i := by
  obtain ⟨e, he, rfl⟩ := Program.parse_eq_ok_iff.1 h
  exact Expr.PrintableWith.forall_nested e (Expr.printableWith_of_parse he)

/-- A code that is read is the same program with more symbolic operators, or with access to fields. -/
theorem Program.parse_more_symbols
    (hwords : ∀ w : String, IsWord w.toList → g.isOperator w = true → o'.enables w = o.enables w)
    (hsymbols : ∀ op ∈ Reckon.symbols, o.enables op = true → o'.enables op = true)
    (haccess : o.memberAccess = true → o'.memberAccess = true) {code : String} {p : Program}
    (h : Program.parse g o code = .ok p) : Program.parse g o' code = .ok p := by
  have hwidens : Widens g o g o' := by
    refine ⟨rfl, fun w hword => ?_, hsymbols, fun _ => id, haccess⟩
    cases hoperator : g.isOperator w with
    | false => rfl
    | true => rw [hwords w hword hoperator]
  obtain ⟨e, he, hp⟩ := map_eq_ok.1 h
  exact map_eq_ok.2 ⟨e, Expr.parse_widen hwidens he, hp⟩

/-- The operator `!` does not take the first character of `!=`. -/
theorem Program.parse_more_symbols_factorial :
    let o := Options.standard.setCapability .factorial false
    let p : Program := [.load "x", .load "y", .binary "!="]
    (∀ w : String, IsWord w.toList → Grammar.standard.isOperator w = true →
        Options.standard.enables w = o.enables w) ∧
      (∀ op ∈ Reckon.symbols, o.enables op = true → Options.standard.enables op = true) ∧
      o.memberAccess = Options.standard.memberAccess ∧ o.enables "!" ≠ Options.standard.enables "!" ∧
      Program.parse .standard o "x != y" = .ok p ∧ Program.parse .standard .standard "x != y" = .ok p := by
  intro o p
  have hwords : ∀ w : String, IsWord w.toList → Grammar.standard.isOperator w = true →
      Options.standard.enables w = o.enables w := by
    intro w hword _
    refine (Options.enables_setCapability fun hfactorial => ?_).symm
    obtain rfl := List.mem_singleton.1 hfactorial
    exact absurd hword (by decide)
  have hsymbols : ∀ op ∈ Reckon.symbols, o.enables op = true → Options.standard.enables op = true := by decide
  have hx : (Expr.name "x").Printable Grammar.standard o false :=
    Expr.printable_name (by decide) (by decide) (by decide)
  have hy : (Expr.name "y").Printable Grammar.standard o false :=
    Expr.printable_name (by decide) (by decide) (by decide)
  have hne : (Expr.binary "!=" (.name "x") (.name "y")).Printable Grammar.standard o false :=
    ⟨⟨by decide, .inl (by decide)⟩, .inr ⟨.comparison, by decide⟩, hx, hy⟩
  have hp : Program.parse .standard o "x != y" = .ok p := by
    have h := Program.parse_render_program Grammar.isReadable_standard hne rfl
    have hrender : (Expr.binary "!=" (.name "x") (.name "y")).program.render = "x != y" := by decide +kernel
    rwa [hrender] at h
  exact ⟨hwords, hsymbols, rfl, by decide, hp, Program.parse_more_symbols hwords hsymbols id hp⟩

end Reckon
