import Reckon.Program.Render
import Reckon.Proofs.Rendering.Scanning

/-!
# Spelling tokens

Each token can be written so that it is found again in front of other text: marks and strings in front of any text
(`Begins.leftParen` and so on), operators, names and numbers in front of what follows them in a formula (`Follows`): a
dot if a field is taken, and a blank, a mark or `!` otherwise. The rules of the lexer are told apart by the first
character: a letter, `$` or `_` leaves only words (`plain?_eq_of_not_mem`), and a symbol leaves only the symbolic
operators.
-/

namespace Reckon

open Lexeme

variable {g : Grammar} {o : Options} {rest : List Char}

/-- What stands behind an operand: a dot if a field is taken of it, and otherwise a blank, a mark, `!` or nothing. -/
def Follows (dotted : Bool) (rest : List Char) : Prop :=
  if dotted then rest.head? = some '.' else ∀ c ∈ rest.head?, c ∈ [' ', ')', ',', '(', '!']

theorem Follows.of_mem {c : Char} {rest : List Char} (hc : c ∈ [' ', ')', ',', '(', '!']) :
    Follows false (c :: rest) := by
  rintro _ ⟨⟩
  exact hc

theorem Follows.dot (rest : List Char) : Follows true ('.' :: rest) := by
  rw [Follows, if_pos rfl]
  rfl

theorem Follows.nil : Follows false [] := fun _ h => nomatch h

theorem Follows.mem {dotted : Bool} (h : Follows dotted rest) :
    ∀ c ∈ rest.head?, c ∈ ['.', ' ', ')', ',', '(', '!'] := by
  cases dotted with
  | true =>
    intro c hc
    rw [Follows, if_pos rfl] at h
    rw [h] at hc
    cases hc
    exact .head _
  | false => exact fun c hc => .tail _ (h c hc)

/-- Without dots, what follows an operand does not go on with a word, and what follows it without one does not with
dots either. -/
theorem Follows.not_isWordChar {dotted : Bool} (h : Follows dotted rest) :
    ∀ c ∈ rest.head?, isWordChar (!dotted) c = false := by
  cases dotted with
  | true =>
    intro c hc
    rw [Follows, if_pos rfl] at h
    rw [h] at hc
    cases hc
    rfl
  | false =>
    have hall : ∀ c ∈ [' ', ')', ',', '(', '!'], isWordChar true c = false :=
      List.all_iff_forall_prop.1 (by decide)
    exact fun c hc => hall c (h c hc)

theorem Follows.not_isWordChar_false {dotted : Bool} (h : Follows dotted rest) :
    ∀ c ∈ rest.head?, isWordChar false c = false := by
  intro c hc
  have hword := h.not_isWordChar c hc
  cases dotted with
  | true => exact hword
  | false => exact not_isWordChar_of_true hword

/-! ## Words -/

/-- The characters that start a number, a symbolic operator or a mark. -/
def specials : List Char := "0123456789.<>=!|+-*/%^?:∙•(),".toList

theorem not_mem_specials_of_isAlphabetic {c : Char} (h : Text.isAlphabetic c = true) :
    c ∉ specials ∧ c ≠ '"' ∧ c ≠ '\'' ∧ isBlank c = false := by
  have hall : ∀ c ∈ '"' :: '\'' :: ' ' :: '\t' :: '\n' :: '\r' :: specials, Text.isAlphabetic c = false :=
    List.all_iff_forall_prop.1 (by decide +kernel)
  have hmem : c ∉ '"' :: '\'' :: ' ' :: '\t' :: '\n' :: '\r' :: specials := by
    intro hc
    rw [hall c hc] at h
    cases h
  simp only [List.mem_cons, not_or] at hmem
  obtain ⟨hquote, hquote', hblank, htab, hnewline, hreturn, hspecial⟩ := hmem
  exact ⟨hspecial, hquote, hquote', by simp [isBlank, hblank, htab, hnewline, hreturn]⟩

theorem mem_specials_of_isDigit {c : Char} (h : Numeral.isDigit c = true) : c ∈ specials := by
  have hall : ∀ n < 58, 48 ≤ n → Char.ofNat n ∈ specials := by decide
  simp only [Numeral.isDigit, Bool.and_eq_true, decide_eq_true_eq, Char.le_def, UInt32.le_iff_toNat_le] at h
  have hval : c.toNat = c.val.toNat := rfl
  have h0 : '0'.val.toNat = 48 := rfl
  have h9 : '9'.val.toNat = 57 := rfl
  have hmem := hall c.toNat (by omega) (by omega)
  rwa [Char.ofNat_toNat] at hmem

theorem numeralLength_eq_zero {c : Char} {cs : List Char} (h : Numeral.isDigit c = false)
    (hdot : c = '.' → ∀ d ∈ cs.head?, Numeral.isDigit d = false) : Numeral.length (c :: cs) = 0 := by
  have hcount : Numeral.digitCount (c :: cs) = 0 := by
    rw [Numeral.digitCount, List.takeWhile_cons, if_neg (Bool.eq_false_iff.1 h)]
    rfl
  have hmantissa : Numeral.mantissaLength (c :: cs) = 0 := by
    rw [Numeral.mantissaLength, hcount, List.drop_zero]
    split
    · next heq =>
      cases heq
      have hfraction : Numeral.digitCount cs = 0 := by
        have hnone : ∀ c ∈ ([] : List Char), Numeral.isDigit c = true := List.forall_mem_nil _
        exact Numeral.digitCount_append hnone (hdot rfl)
      rw [hfraction]
      rfl
    · rfl
  rw [Numeral.length, hmantissa]
  rfl

theorem radixInteger?_eq_none {c : Char} {cs : List Char} (h : c ≠ '0') : radixInteger? (c :: cs) = none := by
  unfold radixInteger?
  split
  · next heq =>
    cases heq
    exact absurd rfl h
  · rfl

/-- A text that starts with a letter, `$` or `_`, or with a character that starts no token. -/
def StartsPlain (cs : List Char) : Prop :=
  ∃ c ∈ cs.head?, c ∉ specials ∧ c ≠ '"' ∧ c ≠ '\'' ∧ isBlank c = false

theorem StartsWord.startsPlain {cs : List Char} (h : StartsWord cs) : StartsPlain cs := by
  obtain ⟨c, hc, halphabetic⟩ := h
  exact ⟨c, hc, not_mem_specials_of_isAlphabetic halphabetic⟩

theorem StartsPlain.append {cs : List Char} (h : StartsPlain cs) (rest : List Char) : StartsPlain (cs ++ rest) := by
  obtain ⟨c, hc, hplain⟩ := h
  exact ⟨c, by rw [Option.mem_def] at hc ⊢; rw [List.head?_append, hc]; rfl, hplain⟩

theorem StartsPlain.isDigit_eq_false {cs : List Char} (h : StartsPlain cs) :
    ∀ c ∈ cs.head?, Numeral.isDigit c = false := by
  obtain ⟨c, hc, hspecial, -⟩ := h
  intro d hd
  cases (Option.mem_unique hc hd : c = d)
  exact Bool.eq_false_iff.2 fun hdigit => hspecial (mem_specials_of_isDigit hdigit)

theorem IsName.startsPlain {cs : List Char} (h : IsName cs) : StartsPlain cs := by
  rcases h with h | ⟨c, w, rfl, rfl | rfl, _⟩
  · exact h.1.startsPlain
  · exact ⟨_, rfl, by decide⟩
  · exact ⟨_, rfl, by decide⟩

/-- Only words start with a character that is not special. -/
theorem plain?_eq_of_not_mem {c : Char} {cs : List Char} (h : c ∉ specials) :
    plain? g o (c :: cs) = (wordOperator? g o (c :: cs) <|> Lexeme.constant? g (c :: cs) <|> name? (c :: cs)) := by
  have hdigit : Numeral.isDigit c = false := Bool.eq_false_iff.2 fun hd => h (mem_specials_of_isDigit hd)
  have hnumber : decimalNumber? (c :: cs) = none := by
    have hdot : c ≠ '.' := fun hc => h (hc ▸ by decide)
    simp only [decimalNumber?, numeralLength_eq_zero hdigit fun hc => absurd hc hdot]
    rfl
  have hsymbol : symbol? (c :: cs) = none := by
    have hpair : (cs.head?.filter fun d => pairSymbols.contains (c, d)) = none := by
      rw [Option.filter_eq_none_iff]
      intro d _ hd
      have hfirst : ∀ p ∈ pairSymbols, p.1 ∈ specials := by decide
      exact h (hfirst _ (List.contains_iff_mem.1 hd))
    have hsingle : ∀ c ∈ singleSymbols, c ∈ specials := List.all_iff_forall_prop.1 (by decide)
    have hdot : ¬(c = '∙' ∨ c = '•') := by
      rintro (rfl | rfl)
      · exact h (by decide)
      · exact h (by decide)
    rw [symbol?, hpair]
    simp only
    rw [if_neg fun hc => h (hsingle c (List.contains_iff_mem.1 hc)), if_neg hdot]
  have hmark : mark? (c :: cs) = none := by
    unfold mark?
    split
    · next heq => cases heq; exact absurd (by decide) h
    · next heq => cases heq; exact absurd (by decide) h
    · next heq => cases heq; exact absurd (by decide) h
    · rfl
  have hzero : c ≠ '0' := fun hc => h (hc ▸ by decide)
  rw [plain?, radixInteger?_eq_none hzero, hnumber, symbolOperator?, hsymbol, hmark]
  rfl

theorem gapLength_eq_zero {c : Char} {cs : List Char} (hblank : isBlank c = false)
    (hslash : c = '/' → cs.head? ≠ some '*') : gapLength .outside (c :: cs) = 0 := by
  rw [gapLength, if_neg (Bool.eq_false_iff.1 hblank), if_neg fun h => hslash h.1 h.2]

theorem recognise_eq_ok {c : Char} {cs : List Char} {l : Lexeme} (hquote : c ≠ '"') (hquote' : c ≠ '\'')
    (h : plain? g o (c :: cs) = some l) : recognise g o (c :: cs) = .ok l := by
  rw [recognise, if_neg (not_or.2 ⟨hquote, hquote'⟩), h]

/-- A word that the rules for words find. -/
theorem Begins.of_word {cs : List Char} {k : TokenKind} (hpos : 0 < cs.length) (hstart : StartsPlain cs)
    (h : (wordOperator? g o (cs ++ rest) <|> Lexeme.constant? g (cs ++ rest) <|> name? (cs ++ rest)) =
      some ⟨cs.length, k, hpos⟩) : Begins g o cs rest k := by
  have hrecognise : ∀ text, StartsPlain text → ∀ l,
      (wordOperator? g o text <|> Lexeme.constant? g text <|> name? text) = some l →
      gapLength .outside text = 0 ∧ recognise g o text = .ok l := by
    rintro (_ | ⟨c, cs⟩) ⟨_, hc, hspecial, hquote, hquote', hblank⟩ l hl
    · cases hc
    · cases hc
      have hslash : c = '/' → cs.head? ≠ some '*' := fun hc => absurd (hc ▸ by decide) hspecial
      exact ⟨gapLength_eq_zero hblank hslash, recognise_eq_ok hquote hquote' ((plain?_eq_of_not_mem hspecial).trans hl)⟩
  obtain ⟨hgap, htoken⟩ := hrecognise _ (hstart.append rest) _ h
  exact ⟨hpos, hgap, htoken⟩

/-- A word that is an operator of the grammar. -/
theorem Begins.wordOperator {op : String} (hword : IsWord op.toList) (hop : g.isOperator op = true)
    (henabled : o.enables op = true) (hrest : ∀ c ∈ rest.head?, isWordChar false c = false) :
    Begins g o op.toList rest (.operator op) := by
  have hlength := wordLength_append hword hrest
  have htake : String.ofList ((op.toList ++ rest).take op.toList.length) = op := by
    rw [List.take_left, String.ofList_toList]
  have hpos : 0 < op.toList.length := by
    obtain ⟨c, hc, _⟩ := hword.1
    obtain ⟨w, hw⟩ := List.head?_eq_some_iff.1 hc
    rw [hw]
    exact Nat.succ_pos _
  have hoperator : wordOperator? g o (op.toList ++ rest) = some ⟨op.toList.length, .operator op, hpos⟩ := by
    simp only [wordOperator?, hlength, htake, hop, henabled, Bool.and_self, if_true, ofLength?, dif_pos hpos]
  exact .of_word hpos hword.1.startsPlain (by rw [hoperator]; rfl)

theorem IsName.length_pos {cs : List Char} (h : IsName cs) : 0 < cs.length := by
  rcases h with ⟨⟨c, hc, _⟩, _⟩ | ⟨c, w, rfl, _, _⟩
  · obtain ⟨w, rfl⟩ := List.head?_eq_some_iff.1 hc
    exact Nat.succ_pos _
  · exact Nat.succ_pos _

theorem nameLength_append {cs : List Char} (h : IsName cs) (hrest : ∀ c ∈ rest.head?, isWordChar false c = false) :
    nameLength (cs ++ rest) = cs.length := by
  rcases h with hword | ⟨c, w, rfl, hc, hword⟩
  · have hlength := wordLength_append hword hrest
    have hstart := hword.1
    obtain ⟨c, hc, -⟩ := hword.1
    obtain ⟨w, rfl⟩ := List.head?_eq_some_iff.1 hc
    rw [List.cons_append, nameLength, if_neg fun hc => not_startsWord hc w hstart]
    exact hlength
  · have hpos := IsName.length_pos (.inl hword)
    rw [List.cons_append, nameLength, if_pos hc, wordLength_append hword hrest]
    simp only
    rw [if_neg hpos.ne', List.length_cons, Nat.add_comm]

/-- A word that is no constant is not taken for one, and no word is that has a dot behind it. -/
theorem constant?_eq_none (hg : g.IsDotless) {dotted : Bool} {n : String} (hword : IsWord n.toList)
    (hconstant : IsConstant g n → dotted = true) (hrest : Follows dotted rest) :
    Lexeme.constant? g (n.toList ++ rest) = none := by
  cases dotted with
  | false =>
    have hlength := wordLength_append hword hrest.not_isWordChar
    have hnone : g.constant? n = none := by
      by_contra hsome
      exact Bool.false_ne_true (hconstant ⟨hword, hsome⟩)
    simp only [Lexeme.constant?, Bool.not_false ▸ hlength, List.take_left, String.ofList_toList, hnone]
  | true =>
    obtain ⟨tail, rfl⟩ := List.head?_eq_some_iff.1 hrest
    have htake : (n.toList ++ '.' :: tail).take (wordLength true (n.toList ++ '.' :: tail)) =
        n.toList ++ '.' :: tail.takeWhile (Lexeme.isWordChar true) := by
      rw [wordLength_eq_takeWhile (hword.1.append _), ← List.prefix_iff_eq_take.1 (List.takeWhile_prefix _),
        List.takeWhile_append_of_pos (hword.isWordChar true), List.takeWhile_cons, if_pos (by decide)]
    simp only [Lexeme.constant?, htake]
    split
    · next l hl =>
      have hdot := hg _ l hl
      rw [String.toList_ofList] at hdot
      exact absurd (List.mem_append_right _ (.head _)) hdot
    · rfl

/-- A name, in front of a dot if it is also a constant. -/
theorem Begins.name (hg : g.IsDotless) {dotted : Bool} {n : String} (hn : IsVariable g o n)
    (hconstant : IsConstant g n → dotted = true) (hrest : Follows dotted rest) : Begins g o n.toList rest (.name n) := by
  have hpos := hn.name.length_pos
  have hlength := nameLength_append hn.name hrest.not_isWordChar_false
  have htake : String.ofList ((n.toList ++ rest).take n.toList.length) = n := by
    rw [List.take_left, String.ofList_toList]
  have hname : name? (n.toList ++ rest) = some ⟨n.toList.length, .name n, hpos⟩ := by
    simp only [name?, hlength, htake, ofLength?, dif_pos hpos]
  have hnone : wordOperator? g o (n.toList ++ rest) = none ∧ Lexeme.constant? g (n.toList ++ rest) = none := by
    rcases hn.name with hword | ⟨c, w, hw, hc, _⟩
    · have hwordLength := wordLength_append hword hrest.not_isWordChar_false
      have hfree := hn.free hword
      constructor
      · have hoff : (g.isOperator n && o.enables n) = false := by
          rw [Bool.and_eq_false_imp]
          exact hfree
        simp only [wordOperator?, hwordLength, htake, hoff, Bool.false_eq_true, if_false]
      · exact constant?_eq_none hg hword hconstant hrest
    · have hstart : ¬StartsWord (n.toList ++ rest) := by
        rw [hw, List.cons_append]
        exact not_startsWord hc _
      simp only [wordOperator?, Lexeme.constant?, wordLength_eq_zero hstart]
      constructor
      · split <;> rfl
      · split <;> rfl
  exact .of_word hpos hn.name.startsPlain (by rw [hnone.1, hnone.2, hname]; rfl)

/-! ## Symbols -/

/-- How the text of a symbolic operator starts. -/
theorem exists_head_of_mem_symbols {op : String} (h : op ∈ symbols) : ∃ c w, op.toList = c :: w ∧
    (isBlank c = false ∧ Numeral.isDigit c = false ∧ c ≠ '"' ∧ c ≠ '\'') ∧ (c = '/' → op = "/") ∧
      (c = '.' → op = ".") := by
  simp only [symbols, pairSymbols, singleSymbols, List.map_cons, List.map_nil, List.cons_append, List.nil_append,
    List.mem_cons, List.not_mem_nil, or_false] at h
  rcases h with rfl | rfl | rfl | rfl | rfl | rfl | rfl | rfl | rfl | rfl | rfl | rfl | rfl | rfl | rfl | rfl | rfl <;>
    exact ⟨_, _, rfl, by decide, by decide, by decide⟩

/-- A symbolic operator that the rule for symbols finds. -/
theorem Begins.of_symbol {op : String} (hop : op ∈ symbols) (henabled : o.enables op = true)
    (hsymbol : symbol? (op.toList ++ rest) = some (op.toList.length, op)) (hslash : op = "/" → rest.head? ≠ some '*')
    (hdot : op = "." → ∀ d ∈ rest.head?, Numeral.isDigit d = false) : Begins g o op.toList rest (.operator op) := by
  obtain ⟨c, w, hw, ⟨hblank, hdigit, hquote, hquote'⟩, hc, hc'⟩ := exists_head_of_mem_symbols hop
  have hpos : 0 < op.toList.length := by
    rw [hw]
    exact Nat.succ_pos _
  have hgap : gapLength .outside (op.toList ++ rest) = 0 := by
    rw [hw, List.cons_append]
    refine gapLength_eq_zero hblank fun he => ?_
    cases hc he
    cases hw
    exact hslash rfl
  have hnumber : decimalNumber? (op.toList ++ rest) = none := by
    have hlength : Numeral.length (op.toList ++ rest) = 0 := by
      rw [hw, List.cons_append]
      refine numeralLength_eq_zero hdigit fun he => ?_
      cases hc' he
      cases hw
      exact hdot rfl
    simp only [decimalNumber?, hlength]
    rfl
  have hradix : radixInteger? (op.toList ++ rest) = none := by
    rw [hw, List.cons_append]
    refine radixInteger?_eq_none ?_
    rintro rfl
    cases hdigit
  have hoperator : symbolOperator? o (op.toList ++ rest) = some ⟨op.toList.length, .operator op, hpos⟩ := by
    simp only [symbolOperator?, hsymbol, henabled, if_true, ofLength?, dif_pos hpos]
  have htoken : recognise g o (op.toList ++ rest) = .ok ⟨op.toList.length, .operator op, hpos⟩ := by
    have hplain : plain? g o (op.toList ++ rest) = some ⟨op.toList.length, .operator op, hpos⟩ := by
      rw [plain?, hradix, hnumber, hoperator]
      rfl
    generalize Lexeme.mk op.toList.length (.operator op) hpos = l at hplain ⊢
    rw [hw, List.cons_append] at hplain ⊢
    exact recognise_eq_ok hquote hquote' hplain
  exact ⟨hpos, hgap, htoken⟩

/-- A symbol is found where no longer one starts. -/
theorem symbol?_append {op : String} (hop : op ∈ symbols)
    (hrest : ∀ d ∈ rest.head?, ∀ c, op = String.ofList [c] → (c, d) ∉ pairSymbols) :
    symbol? (op.toList ++ rest) = some (op.toList.length, op) := by
  rcases List.mem_append.1 hop with hpair | hsingle
  · obtain ⟨⟨c, d⟩, hmem, rfl⟩ := List.mem_map.1 hpair
    have hhead : (Option.filter (fun d => pairSymbols.contains (c, d)) (some d)) = some d :=
      if_pos (List.contains_iff_mem.2 hmem)
    rw [String.toList_ofList, List.cons_append, symbol?, List.cons_append, List.head?_cons, hhead]
    rfl
  · obtain ⟨c, hmem, rfl⟩ := List.mem_map.1 hsingle
    have hnone : (rest.head?.filter fun d => pairSymbols.contains (c, d)) = none := by
      rw [Option.filter_eq_none_iff]
      intro d hd hcontains
      exact hrest d hd c rfl (List.contains_iff_mem.1 hcontains)
    rw [String.toList_ofList, List.cons_append, symbol?, List.nil_append, hnone]
    exact if_pos (List.contains_iff_mem.2 hmem)

/-- An operator in front of what follows an operand. -/
theorem Begins.operator {op : String} {dotted : Bool} (hop : IsOperator g o op) (hrest : Follows dotted rest) :
    Begins g o op.toList rest (.operator op) := by
  rcases hop.spelling with hsymbol | ⟨hword, hoperator⟩
  · have hfirst : ∀ d ∈ ['.', ' ', ')', ',', '(', '!'], (∀ p ∈ pairSymbols, p.2 ≠ d) ∧ d ≠ '*' ∧
        Numeral.isDigit d = false :=
      List.all_iff_forall_prop.1 (by decide)
    have hhead : ∀ d ∈ rest.head?, (∀ p ∈ pairSymbols, p.2 ≠ d) ∧ d ≠ '*' ∧ Numeral.isDigit d = false :=
      fun d hd => hfirst d (hrest.mem d hd)
    refine .of_symbol hsymbol hop.enabled ?_ ?_ ?_
    · exact symbol?_append hsymbol fun d hd c _ hmem => (hhead d hd).1 _ hmem rfl
    · intro _ hstar
      exact (hhead '*' hstar).2.1 rfl
    · exact fun _ d hd => (hhead d hd).2.2
  · exact .wordOperator hword hoperator hop.enabled hrest.not_isWordChar_false

/-- A sign in front of any text. -/
theorem Begins.sign {op : String} (hop : op = "-" ∨ op = "+") (henabled : o.enables op = true) :
    Begins g o op.toList rest (.operator op) := by
  have hfirst : ∀ p ∈ pairSymbols, p.1 ≠ '-' ∧ p.1 ≠ '+' := by decide
  have hsymbol : op ∈ symbols := by
    rcases hop with rfl | rfl
    · decide
    · decide
  refine .of_symbol hsymbol henabled (symbol?_append hsymbol fun d _ c hc hmem => ?_) ?_ ?_
  · rcases hop with rfl | rfl
    · exact (hfirst _ hmem).1 (List.singleton_inj.1 (String.ofList_injective hc)).symm
    · exact (hfirst _ hmem).2 (List.singleton_inj.1 (String.ofList_injective hc)).symm
  · rintro rfl
    exact absurd hop (by decide)
  · rintro rfl
    exact absurd hop (by decide)

/-- A dot in front of a name. -/
theorem Begins.dot (henabled : o.enables "." = true) (hrest : ∀ d ∈ rest.head?, Numeral.isDigit d = false) :
    Begins g o ['.'] rest (.operator ".") := by
  have hsymbol : "." ∈ symbols := by decide
  refine .of_symbol hsymbol henabled (symbol?_append hsymbol fun d _ c hc hmem => ?_) ?_ fun _ => hrest
  · have hfirst : ∀ p ∈ pairSymbols, p.1 ≠ '.' := by decide
    exact hfirst _ hmem (List.singleton_inj.1 (String.ofList_injective hc)).symm
  · exact fun he => absurd he (by decide)

/-! ## Marks, strings and numbers -/

/-- A character that the rule for marks finds. -/
theorem Begins.of_mark {c : Char} {k : TokenKind} (hc : c ∈ ['(', ')', ','])
    (hmark : mark? (c :: rest) = some ⟨1, k, Nat.one_pos⟩) : Begins g o [c] rest k := by
  have hfirst : ∀ c ∈ ['(', ')', ','], isBlank c = false ∧ Numeral.isDigit c = false ∧ c ≠ '"' ∧ c ≠ '\'' ∧ c ≠ '/' ∧
      c ≠ '.' ∧ c ≠ '0' ∧ (∀ p ∈ pairSymbols, p.1 ≠ c) ∧ c ∉ singleSymbols ∧ ¬(c = '∙' ∨ c = '•') :=
    List.all_iff_forall_prop.1 (by decide)
  obtain ⟨hblank, hdigit, hquote, hquote', hslash, hdot, hzero, hpairs, hsingle, hproduct⟩ := hfirst c hc
  have hnumber : decimalNumber? (c :: rest) = none := by
    simp only [decimalNumber?, numeralLength_eq_zero hdigit fun he => absurd he hdot]
    rfl
  have hsymbol : symbol? (c :: rest) = none := by
    have hpair : (rest.head?.filter fun d => pairSymbols.contains (c, d)) = none := by
      rw [Option.filter_eq_none_iff]
      intro d _ hd
      exact hpairs _ (List.contains_iff_mem.1 hd) rfl
    rw [symbol?, hpair]
    simp only
    rw [if_neg fun he => hsingle (List.contains_iff_mem.1 he), if_neg hproduct]
  refine ⟨Nat.one_pos, gapLength_eq_zero hblank fun he => absurd he hslash, recognise_eq_ok hquote hquote' ?_⟩
  change plain? g o (c :: rest) = _
  rw [plain?, radixInteger?_eq_none hzero, hnumber, symbolOperator?, hsymbol, hmark]
  rfl

theorem Begins.leftParen : Begins g o ['('] rest .leftParen :=
  .of_mark (by decide) rfl

theorem Begins.rightParen : Begins g o [')'] rest .rightParen :=
  .of_mark (by decide) rfl

theorem Begins.comma : Begins g o [','] rest .comma :=
  .of_mark (by decide) rfl

/-- A string literal in front of any text. -/
theorem Begins.string (s : String) : Begins g o (Text.Quoted.encode s.toList) rest (.string s) := by
  obtain ⟨_, hquoted⟩ := quoted_encode s.toList rest
  refine ⟨Nat.succ_pos _, rfl, ?_⟩
  have htoken : recognise g o ('"' :: (s.toList.flatMap Text.Quoted.escape ++ '"' :: rest)) =
      .ok ⟨(s.toList.flatMap Text.Quoted.escape).length + 2, .string (String.ofList s.toList), Nat.succ_pos _⟩ := by
    rw [recognise, if_pos (.inl rfl), hquoted]
  rw [String.ofList_toList] at htoken
  simpa [Text.Quoted.encode] using htoken

/-- Where a numeral starts, and no integer in another base, there are no gap and no string, and the numeral is the
token. -/
theorem recognise_numeral {cs : List Char} (hradix : radixInteger? cs = none) (hpos : 0 < Numeral.length cs) :
    gapLength .outside cs = 0 ∧ recognise g o cs = .ok
      ⟨Numeral.length cs, .number ((Numeral.decimal (cs.take (Numeral.length cs))).toFloat false), hpos⟩ := by
  have hplain : plain? g o cs =
      some ⟨Numeral.length cs, .number ((Numeral.decimal (cs.take (Numeral.length cs))).toFloat false), hpos⟩ := by
    have hnumber : decimalNumber? cs = some ⟨Numeral.length cs, _, hpos⟩ := dif_pos hpos
    rw [plain?, hradix, hnumber]
    rfl
  have hnone : ∀ d ∈ ['"', '\'', ' ', '\t', '\n', '\r', '/'], ∀ tail, Numeral.length (d :: tail) = 0 := by
    intro d hd tail
    simp only [List.mem_cons, List.not_mem_nil, or_false] at hd
    rcases hd with rfl | rfl | rfl | rfl | rfl | rfl | rfl <;> rfl
  cases cs with
  | nil => cases hpos
  | cons c cs =>
    have hne : ∀ d ∈ ['"', '\'', ' ', '\t', '\n', '\r', '/'], c ≠ d := by
      rintro d hd rfl
      exact Nat.ne_of_gt hpos (hnone c hd cs)
    have hblank : isBlank c = false := by
      simp [isBlank, hne ' ' (by decide), hne '\t' (by decide), hne '\n' (by decide), hne '\r' (by decide)]
    exact ⟨gapLength_eq_zero hblank fun hslash => absurd hslash (hne '/' (by decide)),
      recognise_eq_ok (hne '"' (by decide)) (hne '\'' (by decide)) hplain⟩

/-- A number that the rule for decimals finds. -/
theorem Begins.of_numeral {cs : List Char} {v : Float} (hne : cs ≠ []) (hradix : radixInteger? (cs ++ rest) = none)
    (hlength : Numeral.length (cs ++ rest) = cs.length) (hvalue : (Numeral.decimal cs).toFloat false = v) :
    Begins g o cs rest (.number v) := by
  have hpos : 0 < Numeral.length (cs ++ rest) := by
    rw [hlength]
    exact List.length_pos_iff.2 hne
  obtain ⟨hgap, htoken⟩ := recognise_numeral (g := g) (o := o) hradix hpos
  refine ⟨List.length_pos_iff.2 hne, hgap, ?_⟩
  simpa only [hlength, List.take_left, hvalue] using htoken

/-- What follows an operand goes on with a numeral only by a dot. -/
theorem Follows.ends {dotted : Bool} (h : Follows dotted rest) : Numeral.Ends (dotted = true) rest := by
  have hall : ∀ c ∈ ['.', ' ', ')', ',', '(', '!'], Numeral.isDigit c = false ∧ c ≠ 'e' ∧ c ≠ 'E' :=
    List.all_iff_forall_prop.1 (by decide)
  intro c hc
  obtain ⟨hdigit, he, hE⟩ := hall c (h.mem c hc)
  refine ⟨hdigit, ?_, he, hE⟩
  rintro rfl
  cases dotted with
  | true => rfl
  | false => exact absurd (h '.' hc) (by decide)

theorem radixInteger?_eq_none_of_head? {c : Char} {cs : List Char} (h : ∀ d ∈ cs.head?, d ≠ 'x' ∧ d ≠ 'b') :
    radixInteger? (c :: cs) = none := by
  unfold radixInteger?
  split
  · next mark tail heq =>
    cases heq
    obtain ⟨hx, hb⟩ := h mark rfl
    simp only [hx, hb, false_and, if_false]
  · rfl

/-- Digits do not start an integer in another base, whatever mark of no base follows. -/
theorem radixInteger?_digits {ds : List Char} (hne : ds ≠ []) (h : ∀ d ∈ ds, Numeral.isDigit d = true)
    (hrest : ∀ d ∈ rest.head?, d ≠ 'x' ∧ d ≠ 'b') : radixInteger? (ds ++ rest) = none := by
  obtain ⟨c, ds, rfl⟩ := List.exists_cons_of_ne_nil hne
  refine radixInteger?_eq_none_of_head? fun d hd => ?_
  cases ds with
  | nil => exact hrest d hd
  | cons d' ds =>
    cases hd
    have hdigit := h d (.tail _ (.head _))
    constructor
    · rintro rfl
      cases hdigit
    · rintro rfl
      cases hdigit

/-- Digits and a point do not start an integer in another base. -/
theorem radixInteger?_pointed {whole fraction : List Char} (hne : whole ≠ [])
    (hdigits : ∀ d ∈ whole ++ fraction, Numeral.isDigit d = true) {dotted : Bool} (hrest : Follows dotted rest) :
    radixInteger? (Numeral.pointed whole fraction ++ rest) = none := by
  rw [Numeral.pointed, List.append_assoc]
  refine radixInteger?_digits hne (fun d hd => hdigits d (List.mem_append_left _ hd)) fun d hd => ?_
  by_cases hf : fraction = []
  · rw [if_pos hf, List.nil_append] at hd
    have hall : ∀ d ∈ ['.', ' ', ')', ',', '(', '!'], d ≠ 'x' ∧ d ≠ 'b' := List.all_iff_forall_prop.1 (by decide)
    exact hall d (hrest.mem d hd)
  · rw [if_neg hf] at hd
    cases hd
    decide

/-- An unsigned number in front of what follows it, which is a dot only if the dot does not go on with the numeral. -/
theorem Begins.number {v : Float} (hv : Unsigned v) {dotted : Bool} (hrest : Follows dotted rest)
    (hclosed : dotted = true → Numeral.IsClosed (Rendered.ofNumber v).text) :
    Begins g o (Rendered.ofNumber v).text rest (.number v) := by
  obtain ⟨hnan, hsign⟩ := unsigned_iff.1 hv
  cases hinf : v.isInf with
  | true =>
    have htext : (Rendered.ofNumber v).text = "1e999".toList := by
      simp only [Rendered.ofNumber, hnan, hsign, hinf, Bool.false_eq_true, if_false, if_true]
      rfl
    have hnines : ∀ c ∈ ['9', '9', '9'], Numeral.isDigit c = true := List.all_iff_forall_prop.1 (by decide)
    have hcount : Numeral.digitCount ('9' :: '9' :: '9' :: rest) = 3 :=
      Numeral.digitCount_append hnines fun c hc => (hrest.ends c hc).1
    have hlength : Numeral.length ('1' :: 'e' :: '9' :: '9' :: '9' :: rest) = 5 := by
      have hmantissa : Numeral.mantissaLength ('1' :: 'e' :: '9' :: '9' :: '9' :: rest) = 1 := rfl
      have hexponent : Numeral.exponentLength ('e' :: '9' :: '9' :: '9' :: rest) = 4 := by
        simp [Numeral.exponentLength, hcount]
      rw [Numeral.length, hmantissa]
      exact congrArg (1 + ·) hexponent
    rw [htext]
    refine Begins.of_numeral (by decide) rfl hlength ?_
    rw [hv.eq_of_isInf hinf]
    decide +kernel
  | false =>
    have htext : (Rendered.ofNumber v).text = (Numeral.write v).toList := by
      simp only [Rendered.ofNumber, hnan, hsign, hinf, Bool.false_eq_true, if_false]
    obtain ⟨whole, fraction, hwrite, hne, hdigits, hvalue⟩ := Numeral.exists_pointed_eq_write hv hinf
    rw [htext, hwrite] at hclosed ⊢
    rw [← Numeral.decimal_pointed hne hdigits] at hvalue
    have hends : Numeral.Ends (fraction ≠ []) rest := by
      intro d hd
      obtain ⟨hdigit, hdot, hexponent⟩ := hrest.ends d hd
      exact ⟨hdigit, fun he => Numeral.fraction_ne_nil_of_isClosed hdigits (hclosed (hdot he)), hexponent⟩
    have hlength := Numeral.length_pointed_append hne hdigits hends
    have hradix := radixInteger?_pointed hne hdigits hrest
    exact Begins.of_numeral (by simp [Numeral.pointed, hne]) hradix hlength hvalue

end Reckon
