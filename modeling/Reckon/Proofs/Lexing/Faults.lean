import Reckon.Proofs.Lexing.Coverage

/-!
# Errors of single tokens

The text that the error of a token shows is what its cause speaks of (`ParseError.Cause.Concerns`): a character that
starts no token, a string that does not end, or an escape that is refused, wherever it is in the body of a string
(`Text.Quoted.standsIn_of_pieces`). It stands in the code where the error says, and nothing but such an error ends the
tokens early (`Cursor.StandsIn.fault_of_ending`).
-/

namespace Reckon

variable {g : Grammar} {o : Options} {code : String}

namespace Text.Quoted

/-! ## Escapes -/

/-- The text of a refused escape. -/
def Defect.text : Defect → List Char
  | unknown c => ['\\', c]
  | unicode hex => '\\' :: 'u' :: hex

/-- The refused escape stands in the body where it is said to. -/
def BadEscape.StandsIn (body : List Char) (e : BadEscape) : Prop :=
  ∃ before after, body = before ++ (e.defect.text ++ after) ∧ before.length = e.skipped

/-- What is refused behind a piece is refused in the body with the piece in front. -/
theorem BadEscape.StandsIn.of_andThen {rest : List Char} {p : Piece} {e : BadEscape} (front : List Char)
    (ih : ∀ {e}, pieces rest = .error e → e.StandsIn rest)
    (h : pieces.andThen front.length p (pieces rest) = .error e) : e.StandsIn (front ++ rest) := by
  cases hrest : pieces rest with
  | ok ps =>
    rw [hrest] at h
    cases h
  | error e =>
    rw [hrest] at h
    cases h
    obtain ⟨before, after, hbody, hlength⟩ := ih hrest
    refine ⟨front ++ before, after, ?_, ?_⟩
    · rw [List.append_assoc, hbody]
      rfl
    · rw [List.length_append, hlength]
      rfl

/-- The parts of a body are read as far as the first escape that is refused. -/
theorem standsIn_of_pieces {body : List Char} {e : BadEscape} (h : pieces body = .error e) : e.StandsIn body := by
  fun_induction pieces body generalizing e with
  | case1 | case3 => cases h
  | case2 c rest hc ih => exact .of_andThen [c] ih h
  | case4 c hc x rest y hsimple ih => exact .of_andThen [c, x] ih h
  | case5 c hc x rest hsimple hx =>
    cases h
    cases Decidable.of_not_not hc
    exact ⟨[], rest, rfl, rfl⟩
  | case6 c hc x hsimple hx h₁ h₂ h₃ h₄ rest hall ih => exact .of_andThen [c, x, h₁, h₂, h₃, h₄] ih h
  | case7 c hc x hsimple hx h₁ h₂ h₃ h₄ rest hall =>
    cases h
    cases Decidable.of_not_not hc
    cases Decidable.of_not_not hx
    exact ⟨[], rest, rfl, rfl⟩
  | case8 c hc x hsimple hx short hshort =>
    cases h
    cases Decidable.of_not_not hc
    cases Decidable.of_not_not hx
    exact ⟨[], [], by simp [Defect.text], rfl⟩

theorem standsIn_of_decode {body : List Char} {e : BadEscape} (h : decode body = .error e) : e.StandsIn body := by
  rw [decode] at h
  cases hpieces : pieces body with
  | ok ps =>
    rw [hpieces] at h
    cases h
  | error e =>
    rw [hpieces] at h
    cases h
    exact standsIn_of_pieces hpieces

end Text.Quoted

/-! ## Faults -/

/-- The part of a code that the cause of a faulty token speaks of. -/
def ParseError.Cause.Concerns : Cause → List Char → Prop
  | unknownChar c, text => text = [c]
  | unterminatedString, text => text.head? = some '"' ∨ text.head? = some '\''
  | invalidEscape c, text => text = ['\\', c]
  | invalidUnicodeEscape hex, text => text = '\\' :: 'u' :: hex.toList
  | _, _ => False

/-- Only causes that concern a single token speak of a part of it. -/
theorem ParseError.Cause.Concerns.isLexical {cause : ParseError.Cause} {text : List Char} (h : cause.Concerns text) :
    cause.isLexical = true := by
  cases cause <;> first | rfl | cases h

namespace Lexeme

theorem Fault.ofBadEscape_spec (e : Text.Quoted.BadEscape) : (ofBadEscape e).skipped = 1 + e.skipped ∧
    (ofBadEscape e).count = e.defect.text.length ∧ (ofBadEscape e).cause.Concerns e.defect.text := by
  obtain ⟨skipped, c | hex⟩ := e
  · exact ⟨rfl, rfl, rfl⟩
  · refine ⟨rfl, Nat.add_comm 2 hex.length, ?_⟩
    show _ = '\\' :: 'u' :: (String.ofList hex).toList
    rw [String.toList_ofList]
    rfl

/-- The text that a fault is about is what its cause speaks of. -/
theorem concerns_of_recognise {cs : List Char} {f : Fault} (hne : cs ≠ []) (h : recognise g o cs = .error f) :
    f.cause.Concerns ((cs.drop f.skipped).take f.count) := by
  cases cs with
  | nil => exact absurd rfl hne
  | cons c rest =>
    rw [recognise] at h
    split at h
    · next hquote =>
      rw [quoted] at h
      split at h
      · next hclosed =>
        split at h
        · cases h
        · next e he =>
          cases h
          -- the refused escape is behind the opening quote, in the part of the code that is the body
          obtain ⟨hskipped, hcount, hconcerns⟩ := Fault.ofBadEscape_spec e
          obtain ⟨before, after, hbody, hlength⟩ := Text.Quoted.standsIn_of_decode he
          have hrest : rest = before ++ (e.defect.text ++ (after ++ rest.drop (Text.Quoted.bodyLength c rest))) := by
            rw [← List.append_assoc e.defect.text, ← List.append_assoc before, ← hbody, List.take_append_drop]
          have hdrop : (c :: rest).drop (1 + e.skipped) =
              e.defect.text ++ (after ++ rest.drop (Text.Quoted.bodyLength c rest)) := by
            have hbehind := congrArg (List.drop before.length) hrest
            rwa [List.drop_left, hlength, ← List.drop_succ_cons (a := c), Nat.add_comm] at hbehind
          rw [hskipped, hcount, hdrop, List.take_left]
          exact hconcerns
      · cases h
        rw [List.drop_zero, List.take_of_length_le (by rw [List.length_cons, Nat.add_comm])]
        exact hquote.imp (congrArg some) (congrArg some)
    · split at h
      · cases h
      · cases h
        rfl

end Lexeme

/-! ## Errors -/

/-- The text that an error shows is that of the code at its offset, which has the line and the column of the error. -/
structure ParseError.StandsIn (code : String) (e : ParseError) : Prop where
  text : StandsAt code e.location.offset e.text
  location : e.location = .ofOffset code e.location.offset

/-- An error that blames a token stands where the token does. -/
theorem Token.StandsIn.blaming {t : Token} (h : t.StandsIn code) (cause : ParseError.Cause) :
    (ParseError.blaming t cause).StandsIn code :=
  ⟨h.text, h.location⟩

namespace Cursor

variable {c : Cursor} {before : List Char}

theorem StandsIn.fault (h : c.StandsIn code before) (f : Lexeme.Fault) : (c.fault f).StandsIn code :=
  ((h.forward f.skipped).token f.count .finish).blaming f.cause

/-- A token is refused behind a gap. -/
theorem exists_fault_of_step {e : ParseError} (h : c.step g o = .fault e) : c.skipGap.rest ≠ [] ∧ ∃ f,
    Lexeme.recognise g o c.skipGap.rest = .error f ∧ e = c.skipGap.fault f := by
  simp only [step] at h
  split at h
  · cases h
  · next hne =>
    split at h
    · cases h
    · next f hf =>
      cases h
      exact ⟨hne, f, hf, rfl⟩

/-- What ends the tokens early is an error of a token, in its place. -/
theorem StandsIn.fault_of_ending {e : ParseError} (h : c.StandsIn code before)
    (he : (Tokens.ofCursor g o c).ending = .error e) : e.StandsIn code ∧ e.cause.Concerns e.text := by
  induction c using Tokens.ofCursor.induct g o generalizing before with
  | case1 c t next hstep later ih =>
    rw [Tokens.ofCursor_of_token hstep] at he
    obtain ⟨-, l, -, -, rfl⟩ := exists_lexeme_of_step hstep
    have hhere : c.skipGap.StandsIn code _ := h.forward _
    exact ih (hhere.forward l.length) he
  | case2 c t hstep =>
    rw [Tokens.ofCursor_of_finish hstep] at he
    cases he
  | case3 c e' hstep =>
    rw [Tokens.ofCursor_of_fault hstep] at he
    cases he
    obtain ⟨hne, f, hf, rfl⟩ := exists_fault_of_step hstep
    have hhere : c.skipGap.StandsIn code _ := h.forward _
    exact ⟨hhere.fault f, Lexeme.concerns_of_recognise hne hf⟩

end Cursor

end Reckon
