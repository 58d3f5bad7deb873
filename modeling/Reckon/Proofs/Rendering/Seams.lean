import Reckon.Proofs.Lexing.Lookahead
import Reckon.Proofs.Rendering.Depth

/-!
# Numbers in front of dots

A numeral that a dot does not go on with is one token (`Numeral.IsClosed.recognise`). Any other number that is written
in front of a dot takes the dot along, and what looks like an exponent in the name of the field (`Numeral.length_seam`);
what is left of that name is one token more, or none (`Tokens.ofCursor_tail`). So there are fewer tokens than were
written (`Tokens.wordCount_seam`).
-/

namespace Reckon

open Lexeme

variable {g : Grammar} {o : Options} {rest : List Char}

/-! ## Closed numerals -/

namespace Numeral

/-- A closed numeral is a numeral as a whole. -/
theorem IsClosed.length_eq {cs : List Char} (h : IsClosed cs) : length cs = cs.length := by
  have hsettled := settled_length (cs ++ ['.']) cs.length [] h.2.le .nil
  rw [List.take_left, List.append_nil, h.2] at hsettled
  exact hsettled

/-- A text that is a numeral as a whole is read as a number. -/
theorem begins_of_length {cs : List Char} (hne : cs ≠ []) (hlength : length cs = cs.length) :
    Begins g o cs [] (.number ((decimal cs).toFloat false)) := by
  have hradix : radixInteger? cs = none := by
    unfold radixInteger?
    split
    · next mark tail =>
      have hone : ∀ c ∈ ['x', 'b'], length ('0' :: c :: tail) = 1 := by
        intro c hc
        rcases List.mem_pair.1 hc with rfl | rfl <;> rfl
      have hmark : ∀ c ∈ ['x', 'b'], mark ≠ c := by
        rintro c hc rfl
        rw [hone mark hc] at hlength
        simp at hlength
      simp only [hmark 'x' (by decide), hmark 'b' (by decide), false_and, if_false]
    · rfl
  exact .of_numeral hne (by rwa [List.append_nil]) (by rwa [List.append_nil]) rfl

/-- Digits with a point and more digits are closed. -/
theorem isClosed_pointed {whole fraction : List Char} (hne : whole ≠ []) (hfraction : fraction ≠ [])
    (h : ∀ c ∈ whole ++ fraction, isDigit c = true) : IsClosed (pointed whole fraction) := by
  refine ⟨by simp [pointed, hne], length_pointed_append hne h ?_⟩
  rintro _ ⟨⟩
  exact ⟨rfl, fun _ => hfraction, by decide⟩

end Numeral

/-- A number whose numeral is not closed is written with digits alone. -/
theorem digits_of_not_writesClosed {v : Float} (hv : Unsigned v) (h : ¬WritesClosed v) :
    (Rendered.ofNumber v).text ≠ [] ∧ ∀ c ∈ (Rendered.ofNumber v).text, Numeral.isDigit c = true := by
  obtain ⟨hnan, hsign⟩ := unsigned_iff.1 hv
  cases hinf : v.isInf with
  | true =>
    have htext : (Rendered.ofNumber v).text = "1e999".toList := by
      simp only [Rendered.ofNumber, hnan, hsign, hinf, Bool.false_eq_true, if_false, if_true]
      rfl
    rw [WritesClosed, htext] at h
    exact absurd ⟨by decide, by decide⟩ h
  | false =>
    have htext : (Rendered.ofNumber v).text = (Numeral.write v).toList := by
      simp only [Rendered.ofNumber, hnan, hsign, hinf, Bool.false_eq_true, if_false]
    obtain ⟨whole, fraction, hwrite, hne, hdigits, -⟩ := Numeral.exists_pointed_eq_write hv hinf
    rw [WritesClosed, htext, hwrite] at h
    have hnone : fraction = [] := by
      by_contra hfraction
      exact h (Numeral.isClosed_pointed hne hfraction hdigits)
    rw [hnone, List.append_nil] at hdigits
    rw [htext, hwrite, hnone, Numeral.pointed, if_pos rfl, List.append_nil]
    exact ⟨hne, hdigits⟩

/-! ## Numerals that go on -/

/-- A text that starts with a letter, `$` or `_` and goes on with letters, digits and underscores. -/
def IsTail (w : List Char) : Prop :=
  StartsPlain w ∧ ∀ c ∈ w.tail, isWordChar false c = true

theorem IsName.isTail {w : List Char} (h : IsName w) : IsTail w := by
  refine ⟨h.startsPlain, ?_⟩
  rcases h with h | ⟨c, w, rfl, _, h⟩
  · exact fun c hc => h.2 c (List.mem_of_mem_tail hc)
  · exact h.2

theorem startsPlain_of_isWordChar {c : Char} {w : List Char} (hc : isWordChar false c = true)
    (hdigit : Numeral.isDigit c = false) : StartsPlain (c :: w) := by
  simp only [isWordChar, hdigit, Bool.or_false, Bool.false_and, Bool.or_eq_true, decide_eq_true_eq] at hc
  rcases hc with hc | rfl
  · exact ⟨c, rfl, not_mem_specials_of_isAlphabetic hc⟩
  · exact ⟨_, rfl, by decide⟩

/-- What follows an operand has no sign. -/
theorem Follows.not_sign {dotted : Bool} (h : Follows dotted rest) : ∀ c ∈ rest.head?, ¬(c = '+' ∨ c = '-') := by
  have hall : ∀ c ∈ ['.', ' ', ')', ',', '(', '!'], ¬(c = '+' ∨ c = '-') := List.all_iff_forall_prop.1 (by decide)
  exact fun c hc => hall c (h.mem c hc)

namespace Numeral

/-- The digits at the start of a text, and what is behind them. -/
theorem exists_digits (cs : List Char) : ∃ ds ls, cs = ds ++ ls ∧ (∀ c ∈ ds, isDigit c = true) ∧
    ∀ c ∈ ls.head?, isDigit c = false := by
  refine ⟨cs.takeWhile isDigit, cs.dropWhile isDigit, List.takeWhile_append_dropWhile.symm,
    List.all_eq_true.1 List.all_takeWhile, fun c hc => ?_⟩
  have hnot := List.head?_dropWhile_not isDigit cs
  rw [Option.mem_def.1 hc] at hnot
  simpa using hnot

/-- Of the name of a field, an exponent takes the letter and the digits behind it, if any. -/
theorem exists_exponent {w : List Char} (hw : IsTail w) {dotted : Bool} (hrest : Follows dotted rest) :
    ∃ w₁ w₂, w = w₁ ++ w₂ ∧ (w₂ = [] ∨ IsTail w₂) ∧ exponentLength (w ++ rest) = w₁.length := by
  obtain ⟨⟨c, hc, hplain⟩, htail⟩ := hw
  obtain ⟨cs, rfl⟩ := List.head?_eq_some_iff.1 hc
  have hwhole : ∃ w₁ w₂, c :: cs = w₁ ++ w₂ ∧ (w₂ = [] ∨ IsTail w₂) ∧ 0 = w₁.length :=
    ⟨[], c :: cs, rfl, .inr ⟨⟨c, hc, hplain⟩, htail⟩, rfl⟩
  by_cases he : c = 'e' ∨ c = 'E'
  · have hsign : ∀ s ∈ (cs ++ rest).head?, ¬(s = '+' ∨ s = '-') := by
      cases cs with
      | nil => exact hrest.not_sign
      | cons d ds =>
        rintro _ ⟨⟩ hs
        have hd := htail d (.head _)
        rcases hs with rfl | rfl
        · exact absurd hd (by decide)
        · exact absurd hd (by decide)
    obtain ⟨ds, ls, rfl, hdigits, hls⟩ := exists_digits cs
    have hlater : ∀ c ∈ (ls ++ rest).head?, isDigit c = false := by
      cases ls with
      | nil => exact fun c hc => (hrest.ends c hc).1
      | cons d ls => exact hls
    have hcount := digitCount_append hdigits hlater
    rw [List.append_assoc] at hsign
    rw [List.cons_append, List.append_assoc, exponentLength_of_no_sign he hsign, hcount]
    split
    · exact hwhole
    · refine ⟨c :: ds, ls, rfl, ?_, by rw [List.length_cons, Nat.add_comm]⟩
      cases ls with
      | nil => exact .inl rfl
      | cons d ls =>
        have hd := htail d (List.mem_append_right _ (.head _))
        refine .inr ⟨startsPlain_of_isWordChar hd (hls d rfl), fun c hc => ?_⟩
        exact htail c (List.mem_append_right _ (.tail _ hc))
  · rw [List.cons_append, exponentLength_of_head? (by rintro _ ⟨⟩; exact he)]
    exact hwhole

/-- Digits, a dot and the name of a field start with a numeral that ends in the name. -/
theorem length_seam (rest : List Char) {digits w : List Char} (hne : digits ≠ [])
    (h : ∀ c ∈ digits, isDigit c = true) (hw : IsTail w) :
    length (digits ++ '.' :: (w ++ rest)) = digits.length + 1 + exponentLength (w ++ rest) := by
  have hwhole : digitCount (digits ++ '.' :: (w ++ rest)) = digits.length :=
    digitCount_append h (by rintro _ ⟨⟩; rfl)
  have hfraction : digitCount (w ++ rest) = 0 := by
    have hnil : ∀ c ∈ ([] : List Char), isDigit c = true := List.forall_mem_nil _
    exact digitCount_append hnil (hw.1.append rest).isDigit_eq_false
  have hzero : digits.length ≠ 0 := fun hlength => hne (List.length_eq_zero_iff.1 hlength)
  have hmantissa : mantissaLength (digits ++ '.' :: (w ++ rest)) = digits.length + 1 := by
    have hpoint : (digits ++ '.' :: (w ++ rest)).drop (digitCount (digits ++ '.' :: (w ++ rest))) =
        '.' :: (w ++ rest) := by
      rw [hwhole, List.drop_left]
    rw [mantissaLength_of_point hpoint, hwhole, hfraction]
    simp [hzero]
  have hdrop : (digits ++ '.' :: (w ++ rest)).drop (digits.length + 1) = w ++ rest := by
    rw [← List.drop_drop, List.drop_left]
    rfl
  rw [length, hmantissa, hdrop]
  exact if_neg (Nat.succ_ne_zero _)

end Numeral

/-- Digits in front of a dot and a field are part of a number that has the dot as well. -/
theorem Begins.seam {digits w : List Char} (hne : digits ≠ []) (h : ∀ c ∈ digits, Numeral.isDigit c = true)
    (hw : IsTail w) {dotted : Bool} (hrest : Follows dotted rest) : ∃ v w₁ w₂, w = w₁ ++ w₂ ∧
      (w₂ = [] ∨ IsTail w₂) ∧ Begins g o (digits ++ '.' :: w₁) (w₂ ++ rest) (.number v) := by
  obtain ⟨w₁, w₂, rfl, htail, hexponent⟩ := Numeral.exists_exponent hw hrest
  have hlength := Numeral.length_seam rest hne h hw
  rw [hexponent] at hlength
  have hradix : radixInteger? (digits ++ '.' :: ((w₁ ++ w₂) ++ rest)) = none :=
    radixInteger?_digits hne h (by rintro _ ⟨⟩; decide)
  refine ⟨(Numeral.decimal (digits ++ '.' :: w₁)).toFloat false, w₁, w₂, rfl, htail, .of_numeral (by simp) ?_ ?_ rfl⟩
  · simpa using hradix
  · simp only [List.cons_append, List.append_assoc, List.length_cons, List.length_append] at hlength ⊢
    omega

/-- A word at the start of letters, digits and underscores, the first of which is a letter, is all of them. -/
theorem isWord_of_wordLength {dots : Bool} {c : Char} {cs : List Char} (hcs : ∀ d ∈ cs, isWordChar false d = true)
    (h : wordLength dots (c :: cs ++ rest) ≠ 0) : IsWord (c :: cs) := by
  have halphabetic : Text.isAlphabetic c = true := by
    by_contra hnot
    exact h (if_neg hnot)
  refine ⟨⟨c, rfl, halphabetic⟩, List.forall_mem_cons.2 ⟨?_, hcs⟩⟩
  simp [isWordChar, halphabetic]

theorem isName_of_nameLength {c : Char} {cs : List Char} (hcs : ∀ d ∈ cs, isWordChar false d = true)
    (hrest : ∀ c ∈ rest.head?, isWordChar false c = false) (h : nameLength (c :: cs ++ rest) ≠ 0) :
    IsName (c :: cs) := by
  rw [List.cons_append, nameLength] at h
  split at h
  · next hc =>
    refine .inr ⟨c, cs, rfl, hc, ?_⟩
    have hlength : wordLength false (cs ++ rest) ≠ 0 := fun hzero => h (if_pos hzero)
    cases cs with
    | nil =>
      obtain ⟨w, _, rfl, hw, hword, -⟩ := exists_word hlength
      obtain ⟨d, hd, halphabetic⟩ := hword.1
      obtain ⟨ds, rfl⟩ := List.head?_eq_some_iff.1 hd
      have hnot := hrest d rfl
      simp [isWordChar, halphabetic] at hnot
    | cons d ds => exact isWord_of_wordLength (fun d' hd' => hcs d' (.tail _ hd')) hlength
  · exact .inl (isWord_of_wordLength hcs h)

/-- What is left of the name of a field is one token, if it is any. -/
theorem Lexeme.length_of_recognise_tail (hg : g.IsDotless) {w : List Char} (hw : IsTail w) {dotted : Bool}
    (hrest : Follows dotted rest) {l : Lexeme} (h : recognise g o (w ++ rest) = .ok l) : l.length = w.length := by
  obtain ⟨⟨c, hc, hspecial, hquote, hquote', _⟩, htail⟩ := hw
  obtain ⟨cs, rfl⟩ := List.head?_eq_some_iff.1 hc
  have hends := hrest.not_isWordChar_false
  rw [List.cons_append, recognise, if_neg (not_or.2 ⟨hquote, hquote'⟩), plain?_eq_of_not_mem hspecial] at h
  split at h
  · next l' hl =>
    cases h
    simp only [Option.orElse_eq_orElse, Option.orElse_eq_or, Option.or_eq_some_iff] at hl
    rcases hl with hl | ⟨-, hl | ⟨-, hl⟩⟩
    · simp only [wordOperator?] at hl
      split at hl
      · obtain ⟨hlength, _, hne⟩ := eq_of_ofLength? hl
        rw [hlength]
        exact wordLength_append (isWord_of_wordLength htail hne) hends
      · cases hl
    · have hconstant := hl
      simp only [Lexeme.constant?] at hl
      split at hl
      · obtain ⟨hlength, _, hne⟩ := eq_of_ofLength? hl
        have hword := isWord_of_wordLength htail hne
        rw [hlength]
        cases dotted with
        | false => exact wordLength_append hword hrest.not_isWordChar
        | true =>
          have hnone := constant?_eq_none (n := String.ofList (c :: cs)) hg (by rwa [String.toList_ofList])
            (fun _ => rfl) hrest
          rw [String.toList_ofList, List.cons_append, hconstant] at hnone
          cases hnone
      · cases hl
    · obtain ⟨hlength, _, hne⟩ := eq_of_ofLength? hl
      rw [hlength]
      exact nameLength_append (isName_of_nameLength htail hends hne) hends
  · cases h

/-- A cursor in front of what is left of the name of a field reads it as one token, if there is no error. -/
theorem Tokens.ofCursor_tail (hg : g.IsDotless) {w : List Char} (hw : IsTail w) {dotted : Bool}
    (hrest : Follows dotted rest) {c : Cursor} (hc : c.rest = w ++ rest) {e : Token}
    (he : (ofCursor g o c).ending = .ok e) : ∃ t, ofCursor g o c =
      { ofCursor g o (c.forward w.length) with list := t :: (ofCursor g o (c.forward w.length)).list } := by
  have hgap : gapLength .outside c.rest = 0 := by
    obtain ⟨d, hd, hspecial, -, -, hblank⟩ := hw.1
    obtain ⟨ds, rfl⟩ := List.head?_eq_some_iff.1 hd
    rw [hc, List.cons_append]
    refine gapLength_eq_zero hblank ?_
    rintro rfl
    exact absurd (by decide) hspecial
  have hne : c.rest ≠ [] := by
    obtain ⟨d, hd, -⟩ := hw.1
    obtain ⟨ds, rfl⟩ := List.head?_eq_some_iff.1 hd
    rw [hc]
    nofun
  cases hl : recognise g o c.rest with
  | ok l =>
    have hlength := length_of_recognise_tail hg hw hrest (hc ▸ hl)
    rw [ofCursor_of_token (Cursor.step_of_recognise hgap hl), hlength]
    exact ⟨_, rfl⟩
  | error f =>
    have hskip : c.skipGap = c := by
      rw [Cursor.skipGap, hgap]
      rfl
    have hstep : c.step g o = .fault (c.fault f) := by
      simp only [Cursor.step, hskip, if_neg hne, hl]
    rw [ofCursor_of_fault hstep] at he
    cases he

/-- Without parentheses around a number whose numeral is not closed, the number, the dot and the field behind it are two
tokens at most. -/
theorem Tokens.wordCount_seam (hg : g.IsDotless) {v : Float} (hv : Unsigned v) (hopen : ¬WritesClosed v)
    {w : List Char} (hw : IsTail w) {ks : List TokenKind} (hks : Spaced WritesClosed g o none .operator ks) {c : Cursor}
    (hc : c.rest = (Rendered.ofNumber v).text ++ '.' :: (w ++ Phase.operator.write ks)) {e : Token}
    (he : (ofCursor g o c).ending = .ok e) :
    wordCount ((ofCursor g o c).list.map Token.kind) ≤ wordCount ks + 2 := by
  obtain ⟨hne, hdigits⟩ := digits_of_not_writesClosed hv hopen
  have hrest : Follows (decide (ks.head?.or none = some (.operator "."))) (Phase.operator.write ks) := by
    have hheads := hks.heads (Phase.heads_nil _)
    rwa [List.append_nil] at hheads
  obtain ⟨v', w₁, w₂, rfl, htail, hbegins⟩ := Begins.seam hne hdigits hw hrest
  have hc' : c.rest = ((Rendered.ofNumber v).text ++ '.' :: w₁) ++ (w₂ ++ Phase.operator.write ks) := by
    simpa using hc
  have hnumber := hbegins.ofCursor hc'
  have hlater := Cursor.rest_forward hc'
  rw [hnumber] at he ⊢
  rcases htail with rfl | htail
  · obtain ⟨_, hkinds⟩ := ofCursor_write_all hg hks hlater
    rw [List.map_cons, hkinds]
    exact wordCount_cons_le.trans (Nat.le_succ _)
  · obtain ⟨t, htoken⟩ := ofCursor_tail hg htail hrest hlater he
    obtain ⟨_, hkinds⟩ := ofCursor_write_all hg hks (Cursor.rest_forward hlater)
    rw [htoken, List.map_cons, List.map_cons, hkinds]
    exact wordCount_cons_le.trans (Nat.succ_le_succ wordCount_cons_le)

/-- What is written for the field behind a dot. -/
theorem TokenKind.Fits.field {N : Float → Prop} {k : TokenKind} {next : Option TokenKind}
    (hk : k.Fits N g o .field next) : k.isParen = false ∧ IsTail k.spelling ∧
      ∀ ks, Phase.field.write (k :: ks) = k.spelling ++ Phase.operator.write ks := by
  cases k with
  | operator op =>
    have hname : IsName op.toList := .inl (hk.2.2 rfl)
    exact ⟨rfl, hname.isTail, Phase.write_field (.operator op)⟩
  | name n => exact ⟨rfl, hk.2.1.name.isTail, Phase.write_field (.name n)⟩
  | leftParen => exact absurd rfl hk
  | rightParen => rcases hk with h | h <;> cases h
  | number v => cases hk.1
  | finish | string | comma => cases hk

/-- Without parentheses around a number whose numeral is not closed, a code has fewer words than were written. -/
theorem Tokens.wordCount_ofCode_seam (hg : g.IsDotless) {us ks : List TokenKind} {v : Float} {k : TokenKind}
    {next : Option TokenKind} (hus : Spaced WritesClosed g o (some (.number v)) .operand us)
    (hrun : Phase.operand.run us = .operand) (hv : Unsigned v) (hopen : ¬WritesClosed v)
    (hk : k.Fits WritesClosed g o .field next) (hks : Spaced WritesClosed g o none .operator ks) {code : String}
    (hcode : code.toList = Phase.operand.write (us ++ .number v :: .operator "." :: k :: ks)) {e : Token}
    (he : (ofCode g o code).ending = .ok e) :
    wordCount ((ofCode g o code).list.map Token.kind) < wordCount (us ++ .number v :: .operator "." :: k :: ks) := by
  obtain ⟨hparen, htail, hwrite⟩ := hk.field
  have hnumber : Phase.operand.write (.number v :: .operator "." :: k :: ks) =
      (Rendered.ofNumber v).text ++ '.' :: (k.spelling ++ Phase.operator.write ks) := by
    rw [Phase.write, Phase.next_number, Phase.write_dot, hwrite]
    simp [Phase.before, Phase.behind, TokenKind.spelling]
  rw [Phase.write_append, hrun, hnumber] at hcode
  have hc : (Cursor.ofCode code).rest = _ := hcode
  obtain ⟨ts, hkinds, htokens⟩ := ofCursor_write hg hus (by rw [hrun]; trivial) hc
  rw [ofCode, htokens] at he ⊢
  have hcount := wordCount_seam hg hv hopen htail hks (Cursor.rest_forward hc) he
  have hnumber' : (TokenKind.number v).isParen = false := rfl
  rw [List.map_append, hkinds, wordCount_append, wordCount_append]
  simp only [wordCount_cons, hparen, hnumber', TokenKind.isParen_operator, Bool.false_eq_true, if_false]
  omega

end Reckon
