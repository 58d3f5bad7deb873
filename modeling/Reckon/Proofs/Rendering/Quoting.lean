import Reckon.Token.Rules

/-!
# Quoted strings are read back

The literal that is written for a string is read as the string, whatever follows the closing quote
(`Lexeme.quoted_encode`). A body is taken apart into what is written for one character, of which there are three forms
(`Text.Quoted.escape_cases`): neither of them ends the body (`Whole`), and each is one piece (`pieces_escape_append`).
-/

namespace Reckon

namespace Text.Quoted

/-- A character is written as itself, as a simple escape or as a unit. -/
theorem escape_cases (c : Char) :
    (escape c = [c] ∧ c ≠ '"' ∧ c ≠ '\\') ∨ (∃ e, escape c = ['\\', e] ∧ simpleEscape? e = some c) ∨
      (escape c = '\\' :: 'u' :: (hexText 4 c.toNat).toList ∧ c.toNat < 0xA0) := by
  unfold escape
  split
  · exact .inr (.inl ⟨_, rfl, rfl⟩)
  · exact .inr (.inl ⟨_, rfl, rfl⟩)
  · exact .inr (.inl ⟨_, rfl, rfl⟩)
  · exact .inr (.inl ⟨_, rfl, rfl⟩)
  · exact .inr (.inl ⟨_, rfl, rfl⟩)
  · exact .inr (.inl ⟨_, rfl, rfl⟩)
  · exact .inr (.inl ⟨_, rfl, rfl⟩)
  · next hquote hbackslash _ _ _ _ _ =>
    by_cases hcontrol : isControl c = true
    · right
      right
      have hlt : c.toNat < 0xA0 := by
        simp only [isControl, Bool.or_eq_true, Bool.and_eq_true, decide_eq_true_eq] at hcontrol
        omega
      have hunits : utf16Units c = [c.toNat] := if_pos (by omega)
      refine ⟨?_, hlt⟩
      rw [if_pos hcontrol, hunits, List.flatMap_singleton]
    · exact .inl ⟨if_neg hcontrol, hquote, hbackslash⟩

/-- Four hexadecimal digits stand for the number that they are written for. -/
theorem hexText_spec : ∀ n < 0xA0, ∃ h₁ h₂ h₃ h₄, (hexText 4 n).toList = [h₁, h₂, h₃, h₄] ∧
    [h₁, h₂, h₃, h₄].all isHexDigit = true ∧ Numeral.ofDigits 16 [h₁, h₂, h₃, h₄] = n := by
  have hdigits : ∀ n < 0xA0, (hexText 4 n).toList.length = 4 ∧ (hexText 4 n).toList.all isHexDigit = true ∧
      Numeral.ofDigits 16 (hexText 4 n).toList = n := by
    decide +kernel
  intro n hn
  obtain ⟨hlength, hall, hvalue⟩ := hdigits n hn
  match h : (hexText 4 n).toList, hlength with
  | [h₁, h₂, h₃, h₄], _ =>
    rw [h] at hall hvalue
    exact ⟨h₁, h₂, h₃, h₄, rfl, hall, hvalue⟩

/-! ## Where a body ends -/

/-- A part of a body that does not end it and is not ended within. -/
def Whole (xs : List Char) : Prop :=
  ∀ rest, bodyLength '"' (xs ++ rest) = xs.length + bodyLength '"' rest

theorem Whole.append {xs ys : List Char} (hx : Whole xs) (hy : Whole ys) : Whole (xs ++ ys) := by
  intro rest
  rw [List.append_assoc, hx, hy, List.length_append, Nat.add_assoc]

theorem Whole.nil : Whole [] := fun _ => (Nat.zero_add _).symm

theorem Whole.char {c : Char} (hquote : c ≠ '"') (hbackslash : c ≠ '\\') : Whole [c] := by
  intro rest
  rw [List.singleton_append, bodyLength.eq_def]
  simp only [if_neg hquote, if_neg hbackslash]
  rfl

theorem Whole.pair (e : Char) : Whole ['\\', e] := by
  intro rest
  rw [List.cons_append, List.singleton_append, bodyLength.eq_def]
  rfl

theorem Whole.of_isHexDigit {xs : List Char} (h : xs.all isHexDigit = true) : Whole xs := by
  induction xs with
  | nil => exact .nil
  | cons x xs ih =>
    rw [List.all_cons, Bool.and_eq_true] at h
    have hx : Whole [x] := by
      refine .char ?_ ?_
      · rintro rfl
        exact absurd h.1 (by decide)
      · rintro rfl
        exact absurd h.1 (by decide)
    exact hx.append (ih h.2)

theorem whole_escape (c : Char) : Whole (escape c) := by
  rcases escape_cases c with ⟨he, hquote, hbackslash⟩ | ⟨e, he, _⟩ | ⟨he, hlt⟩
  · exact he ▸ .char hquote hbackslash
  · exact he ▸ .pair e
  · obtain ⟨h₁, h₂, h₃, h₄, hhex, hall, _⟩ := hexText_spec c.toNat hlt
    rw [he, hhex]
    exact (Whole.pair 'u').append (.of_isHexDigit hall)

theorem whole_flatMap_escape (cs : List Char) : Whole (cs.flatMap escape) := by
  induction cs with
  | nil => exact .nil
  | cons c cs ih => exact (whole_escape c).append ih

/-! ## What a body stands for -/

/-- What is written for a character is one piece, and it stands for the character. -/
theorem pieces_escape_append (c : Char) {rest : List Char} {ps : List Piece} (h : pieces rest = .ok ps) :
    ∃ p, pieces (escape c ++ rest) = .ok (p :: ps) ∧ ofPieces (p :: ps) = c :: ofPieces ps := by
  rcases escape_cases c with ⟨he, _, hbackslash⟩ | ⟨e, he, hsimple⟩ | ⟨he, hlt⟩
  · refine ⟨.char c, ?_, rfl⟩
    rw [he, List.singleton_append, pieces.eq_def]
    simp only [ne_eq, hbackslash, not_false_eq_true, if_true, h]
    rfl
  · refine ⟨.char c, ?_, rfl⟩
    rw [he, List.cons_append, List.singleton_append, pieces.eq_def]
    simp only [ne_eq, not_true_eq_false, if_false, hsimple, h]
    rfl
  · obtain ⟨h₁, h₂, h₃, h₄, hhex, hall, hvalue⟩ := hexText_spec c.toNat hlt
    refine ⟨.unit c.toNat, ?_, ?_⟩
    · rw [he, hhex, ← hvalue]
      simp only [List.cons_append, List.nil_append]
      rw [pieces.eq_def]
      have hsimple : simpleEscape? 'u' = none := rfl
      simp only [ne_eq, not_true_eq_false, if_false, hsimple, hall, if_true, h]
      rfl
    · have hhigh : isHighSurrogate c.toNat = false := by
        rw [isHighSurrogate, Bool.and_eq_false_iff, decide_eq_false_iff_not]
        omega
      have hlow : isLowSurrogate c.toNat = false := by
        rw [isLowSurrogate, Bool.and_eq_false_iff, decide_eq_false_iff_not]
        omega
      have hchar : unitChar c.toNat = c := by
        rw [unitChar, hhigh, hlow]
        exact Char.ofNat_toNat c
      rw [ofPieces.eq_def]
      split
      · next heq => cases heq
      · next heq => cases heq
      · next heq =>
        cases heq
        rw [hhigh, hchar]
        rfl
      · next heq =>
        cases heq
        rw [hchar]

/-- A body that is written for a string is read as the string. -/
theorem decode_flatMap_escape (cs : List Char) : decode (cs.flatMap escape) = .ok cs := by
  have hpieces : ∃ ps, pieces (cs.flatMap escape) = .ok ps ∧ ofPieces ps = cs := by
    induction cs with
    | nil => exact ⟨[], rfl, rfl⟩
    | cons c cs ih =>
      obtain ⟨ps, hps, hcs⟩ := ih
      obtain ⟨p, hp, hc⟩ := pieces_escape_append c hps
      exact ⟨p :: ps, hp, by rw [hc, hcs]⟩
  obtain ⟨ps, hps, hcs⟩ := hpieces
  rw [decode, hps, ← hcs]
  rfl

end Text.Quoted

/-- A string literal is read back, up to its closing quote. -/
theorem Lexeme.quoted_encode (cs rest : List Char) : ∃ h,
    quoted '"' (cs.flatMap Text.Quoted.escape ++ '"' :: rest) =
      .ok ⟨(cs.flatMap Text.Quoted.escape).length + 2, .string (String.ofList cs), h⟩ := by
  have hlength : Text.Quoted.bodyLength '"' (cs.flatMap Text.Quoted.escape ++ '"' :: rest) =
      (cs.flatMap Text.Quoted.escape).length := by
    rw [Text.Quoted.whole_flatMap_escape, Text.Quoted.bodyLength.eq_def]
    rfl
  refine ⟨Nat.succ_pos _, ?_⟩
  simp only [quoted, hlength, List.drop_left, List.take_left, List.head?_cons, if_true,
    Text.Quoted.decode_flatMap_escape]

end Reckon
