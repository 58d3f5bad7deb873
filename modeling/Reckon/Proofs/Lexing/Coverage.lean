import Mathlib.Data.List.Infix
import Reckon.Proofs.Rendering.Scanning

/-!
# Tokens cover a code

A code consists of its tokens and of gaps, which are blanks and comments (`Gap`): the lexer passes nothing else in front
of a token (`Gap.exists_take`). A cursor that has moved over a code knows its place in it (`Cursor.StandsIn`). So each
step finds a gap (`Cursor.StandsIn.gapBetween`) and behind it a token that stands in the code where it says
(`Cursor.StandsIn.token`), and to ask for the next token again and again covers the code (`Tokens.covers_ofCode`).
-/

namespace Reckon

open Lexeme

variable {g : Grammar} {o : Options} {code : String}

/-! ## Gaps -/

/-- Blanks and comments. An open gap ends with a comment that is not closed. -/
inductive Gap : (isOpen : Bool) → List Char → Prop
  | nil : Gap false []
  | blank {isOpen : Bool} {c : Char} {cs : List Char} (hc : isBlank c = true) (h : Gap isOpen cs) : Gap isOpen (c :: cs)
  | comment {isOpen : Bool} {body cs : List Char} (hbody : ¬['*', '/'] <:+: body) (h : Gap isOpen cs) :
    Gap isOpen ('/' :: '*' :: body ++ '*' :: '/' :: cs)
  | unclosed {body : List Char} (hbody : ¬['*', '/'] <:+: body) : Gap true ('/' :: '*' :: body)

namespace Gap

/-- The part of a comment that has been read when a character of the gap is looked at. -/
inductive Begun : GapState → List Char → Prop
  | outside : Begun .outside []
  | opening : Begun .opening ['/']
  | inside {body : List Char} (hbody : ¬['*', '/'] <:+: body) (hlast : body.getLast? ≠ some '*') :
    Begun .inside ('/' :: '*' :: body)
  | closing {body : List Char} (hbody : ¬['*', '/'] <:+: body ++ ['*']) : Begun .closing ('/' :: '*' :: (body ++ ['*']))

/-- One more character does not close a comment unless it is the slash behind an asterisk. -/
theorem not_infix_concat {body : List Char} {c : Char} (h : ¬['*', '/'] <:+: body)
    (hc : body.getLast? = some '*' → c ≠ '/') : ¬['*', '/'] <:+: body ++ [c] := by
  rw [List.infix_concat_iff, not_or]
  refine ⟨fun (hsuffix : ['*'] ++ ['/'] <:+ body ++ [c]) => ?_, h⟩
  have hlength : ['/'].length = [c].length := rfl
  obtain ⟨⟨before, hbefore⟩, hslash⟩ := (List.suffix_append_inj_of_length_eq hlength).1 hsuffix
  refine hc ?_ (List.singleton_inj.1 hslash).symm
  rw [← hbefore, List.getLast?_concat]

/-- Where the next character of a comment leads. -/
theorem Begun.concat {body : List Char} {c : Char} (h : ¬['*', '/'] <:+: body ++ [c]) :
    Begun (if c = '*' then .closing else .inside) ('/' :: '*' :: (body ++ [c])) := by
  split
  · next hc =>
    subst hc
    exact .closing h
  · next hc => exact .inside h (by simpa using hc)

/-- What is passed from a state on completes a gap, and an open one ends the code. -/
theorem exists_append_take : (cs : List Char) → ∀ {state : GapState} {read : List Char}, Begun state read →
    (state = .opening → cs.head? = some '*') →
      ∃ isOpen, Gap isOpen (read ++ cs.take (gapLength state cs)) ∧
        (isOpen = true → cs.drop (gapLength state cs) = [])
  | [], _, _, .outside, _ => ⟨false, .nil, fun h => absurd h Bool.false_ne_true⟩
  | [], _, _, .opening, hstar => absurd (hstar rfl) (by simp)
  | [], _, _, .inside hbody _, _ | [], _, _, .closing hbody, _ => by
    refine ⟨true, ?_, fun _ => rfl⟩
    simpa using Gap.unclosed hbody
  | c :: rest, _, _, .outside, _ => by
    rw [gapLength]
    split
    · next hc =>
      obtain ⟨isOpen, hgap, hend⟩ := exists_append_take rest .outside (by rintro ⟨⟩)
      rw [Nat.add_comm]
      exact ⟨isOpen, .blank hc hgap, hend⟩
    · split
      · next hslash =>
        obtain ⟨rfl, hstar⟩ := hslash
        obtain ⟨isOpen, hgap, hend⟩ := exists_append_take rest .opening fun _ => hstar
        rw [Nat.add_comm]
        exact ⟨isOpen, hgap, hend⟩
      · exact ⟨false, .nil, fun h => absurd h Bool.false_ne_true⟩
  | c :: rest, _, _, .opening, hstar => by
    obtain rfl : c = '*' := Option.some.inj (hstar rfl)
    have hbegun : Begun .inside ['/', '*'] := .inside (by decide) (by simp)
    obtain ⟨isOpen, hgap, hend⟩ := exists_append_take rest hbegun (by rintro ⟨⟩)
    rw [gapLength, Nat.add_comm]
    exact ⟨isOpen, hgap, hend⟩
  | c :: rest, _, _, @Begun.inside body hbody hlast, _ => by
    have hbody' : ¬['*', '/'] <:+: body ++ [c] := not_infix_concat hbody fun h => absurd h hlast
    obtain ⟨isOpen, hgap, hend⟩ := exists_append_take rest (Begun.concat hbody') (by split <;> rintro ⟨⟩)
    rw [gapLength, Nat.add_comm]
    exact ⟨isOpen, by simpa using hgap, hend⟩
  | c :: rest, _, _, @Begun.closing body hbody, _ => by
    rw [gapLength, Nat.add_comm]
    by_cases hslash : c = '/'
    · -- the comment is closed, and what follows is a gap of its own
      subst hslash
      obtain ⟨isOpen, hgap, hend⟩ := exists_append_take rest .outside (by rintro ⟨⟩)
      refine ⟨isOpen, ?_, hend⟩
      have hcomment := Gap.comment (fun h => hbody (List.infix_append_of_infix_left h)) hgap
      simpa using hcomment
    · have hbody' : ¬['*', '/'] <:+: body ++ ['*'] ++ [c] := not_infix_concat hbody fun _ => hslash
      obtain ⟨isOpen, hgap, hend⟩ := exists_append_take rest (Begun.concat hbody') (by split <;> rintro ⟨⟩)
      rw [if_neg hslash]
      exact ⟨isOpen, by simpa using hgap, hend⟩

/-- What the lexer passes in front of a token is a gap, and an open one ends the code. -/
theorem exists_take (cs : List Char) : ∃ isOpen, Gap isOpen (cs.take (gapLength .outside cs)) ∧
    (isOpen = true → cs.drop (gapLength .outside cs) = []) :=
  exists_append_take cs .outside (by rintro ⟨⟩)

end Gap

/-! ## Places -/

theorem utf8Length_append (xs ys : List Char) : utf8Length (xs ++ ys) = utf8Length xs + utf8Length ys := by
  rw [utf8Length, List.map_append, List.sum_append_nat, utf8Length, utf8Length]

theorem utf8Length_pos {cs : List Char} (h : cs ≠ []) : 0 < utf8Length cs := by
  obtain ⟨c, cs, rfl⟩ := List.exists_cons_of_ne_nil h
  rw [utf8Length, List.map_cons, List.sum_cons]
  exact Nat.add_pos_left c.utf8Size_pos _

/-- The text `cs` stands in a code behind so many bytes. -/
def StandsAt (code : String) (offset : Nat) (cs : List Char) : Prop :=
  ∃ before after, code.toList = before ++ cs ++ after ∧ utf8Length before = offset

/-- Walking on by the length of a text ends behind it. -/
theorem Location.seek_append (l : Location) (before after : List Char) :
    seek (l.offset + utf8Length before) l (before ++ after) = l.afterText before := by
  induction before generalizing l with
  | nil =>
    cases after with
    | nil => rfl
    | cons c after =>
      have hstop : ¬l.offset + c.utf8Size ≤ l.offset := by
        have := c.utf8Size_pos
        omega
      exact if_neg hstop
  | cons c before ih =>
    have hlength : utf8Length (c :: before) = c.utf8Size + utf8Length before := List.sum_cons
    have hon : l.offset + c.utf8Size ≤ l.offset + utf8Length (c :: before) := by omega
    rw [List.cons_append, seek, if_pos hon, afterText_cons, ← ih (l.after c), offset_after, hlength, Nat.add_assoc]

/-- The place behind a part of a code is the place of the number of its bytes. -/
theorem Location.ofOffset_utf8Length {before after : List Char} (h : code.toList = before ++ after) :
    ofOffset code (utf8Length before) = start.afterText before := by
  have hseek := seek_append start before after
  rwa [show start.offset = 0 from rfl, Nat.zero_add, ← h] at hseek

/-- The offset behind a token. -/
def Token.stop (t : Token) : Nat :=
  t.location.offset + utf8Length t.text

/-- The text of a token is that of the code at its offset, which has the line and the column of the token. -/
structure Token.StandsIn (code : String) (t : Token) : Prop where
  text : StandsAt code t.location.offset t.text
  location : t.location = .ofOffset code t.location.offset

/-- A cursor that has moved over a part of a code. -/
structure Cursor.StandsIn (code : String) (before : List Char) (c : Cursor) : Prop where
  rest : code.toList = before ++ c.rest
  location : c.location = Location.start.afterText before

namespace Cursor

theorem standsIn_ofCode : (ofCode code).StandsIn code [] := ⟨rfl, rfl⟩

namespace StandsIn

variable {c : Cursor} {before : List Char}

theorem offset (h : c.StandsIn code before) : c.location.offset = utf8Length before := by
  rw [h.location, Location.offset_afterText]
  exact Nat.zero_add _

theorem ofOffset (h : c.StandsIn code before) : c.location = .ofOffset code c.location.offset := by
  rw [h.offset, Location.ofOffset_utf8Length h.rest, h.location]

/-- What the cursor passes stands in the code where the cursor stood. -/
theorem standsAt_take (h : c.StandsIn code before) (n : Nat) :
    StandsAt code (utf8Length before) (c.rest.take n) :=
  ⟨before, c.rest.drop n, by rw [List.append_assoc, List.take_append_drop, h.rest], rfl⟩

theorem forward (h : c.StandsIn code before) (n : Nat) : (c.forward n).StandsIn code (before ++ c.rest.take n) where
  rest := by rw [Cursor.forward, List.append_assoc, List.take_append_drop, h.rest]
  location := by rw [Cursor.forward, Location.afterText_append, h.location]

theorem token (h : c.StandsIn code before) (n : Nat) (k : TokenKind) : (c.token n k).StandsIn code where
  text := by
    rw [Cursor.token, h.offset]
    exact h.standsAt_take n
  location := h.ofOffset

theorem stop_token (h : c.StandsIn code before) (n : Nat) (k : TokenKind) :
    (c.token n k).stop = utf8Length (before ++ c.rest.take n) := by
  rw [Token.stop, Cursor.token, h.offset, utf8Length_append]

end StandsIn

end Cursor

/-! ## One token -/

/-- No rule makes up the end of the code. -/
theorem Lexeme.kind_ne_finish {cs : List Char} {l : Lexeme} (h : recognise g o cs = .ok l) : l.kind ≠ .finish := by
  cases cs with
  | nil => cases h
  | cons c cs =>
    rw [recognise] at h
    split at h
    · rw [quoted] at h
      split at h
      · split at h
        · cases h
          rintro ⟨⟩
        · cases h
      · cases h
    · split at h
      · next l' hl =>
        cases h
        simp only [plain?, Option.orElse_eq_orElse, Option.orElse_eq_or, Option.or_eq_some_iff] at hl
        rcases hl with hl | ⟨-, hl | ⟨-, hl | ⟨-, hl | ⟨-, hl | ⟨-, hl | ⟨-, hl⟩⟩⟩⟩⟩⟩
        · obtain ⟨v, hkind, -⟩ := unsigned_of_radixInteger? hl
          rw [hkind]
          rintro ⟨⟩
        · rw [(eq_of_ofLength? hl).2.1]
          rintro ⟨⟩
        · obtain ⟨op, hkind, -⟩ := isOperator_of_symbolOperator? (g := g) hl
          rw [hkind]
          rintro ⟨⟩
        · unfold mark? at hl
          split at hl <;> cases hl <;> rintro ⟨⟩
        · obtain ⟨op, hkind, -⟩ := isOperator_of_wordOperator? hl
          rw [hkind]
          rintro ⟨⟩
        · obtain ⟨n, literal, -, hkind⟩ := exists_literal_of_constant? hl
          rw [hkind]
          cases literal <;> rintro ⟨⟩
        · rw [(eq_of_ofLength? hl).2.1]
          rintro ⟨⟩
      · cases h

namespace Cursor

variable {c next : Cursor} {t : Token}

/-- A token is read behind a gap. -/
theorem exists_lexeme_of_step (h : c.step g o = .token t next) : c.skipGap.rest ≠ [] ∧ ∃ l,
    recognise g o c.skipGap.rest = .ok l ∧ t = c.skipGap.token l.length l.kind ∧ next = c.skipGap.forward l.length := by
  simp only [step] at h
  split at h
  · cases h
  · next hne =>
    split at h
    · next l hl =>
      cases h
      exact ⟨hne, l, hl, rfl, rfl⟩
    · cases h

/-- Behind a gap there is nothing more. -/
theorem eq_token_of_step (h : c.step g o = .finish t) : c.skipGap.rest = [] ∧ t = c.skipGap.token 0 .finish := by
  simp only [step] at h
  split at h
  · next hnil =>
    cases h
    exact ⟨hnil, rfl⟩
  · split at h <;> cases h

end Cursor

/-! ## All tokens -/

/-- Asking for the next token again and again gives these tokens and then, at the end or at the first error, this
ending. -/
inductive Cursor.Returns (g : Grammar) (o : Options) : Cursor → List Token → Except ParseError Token → Prop
  | token {c c' : Cursor} {t : Token} {ts : List Token} {ending : Except ParseError Token}
    (h : c.next g o = .ok (t, c')) (hkind : t.kind ≠ .finish) (later : Returns g o c' ts ending) :
    Returns g o c (t :: ts) ending
  | finish {c c' : Cursor} {t : Token} (h : c.next g o = .ok (t, c')) (hkind : t.kind = .finish) :
    Returns g o c [] (.ok t)
  | fault {c : Cursor} {e : ParseError} (h : c.next g o = .error e) : Returns g o c [] (.error e)

/-- Between two offsets of a code there is a gap. -/
def GapBetween (code : String) (isOpen : Bool) (start stop : Nat) : Prop :=
  ∃ cs, Gap isOpen cs ∧ StandsAt code start cs ∧ start + utf8Length cs = stop

/-- From an offset on, a code consists of gaps with a token behind each, up to an error, or up to a last gap, maybe
with an open comment, that ends where the code does. -/
def Tokens.Covers (code : String) (ending : Except ParseError Token) : Nat → List Token → Prop
  | start, [] => ∀ t, ending = .ok t → t.kind = .finish ∧ t.text = [] ∧ t.StandsIn code ∧
      t.location.offset = utf8Length code.toList ∧ ∃ isOpen, GapBetween code isOpen start t.location.offset
  | start, t :: ts => GapBetween code false start t.location.offset ∧ t.kind ≠ .finish ∧ t.text ≠ [] ∧
      t.StandsIn code ∧ Covers code ending t.stop ts

namespace Cursor.StandsIn

variable {c : Cursor} {before : List Char}

/-- The gap that the cursor passes, and an open one ends the code. -/
theorem gapBetween (h : c.StandsIn code before) : ∃ isOpen,
    GapBetween code isOpen (utf8Length before) c.skipGap.location.offset ∧ (isOpen = true → c.skipGap.rest = []) := by
  obtain ⟨isOpen, hgap, hend⟩ := Gap.exists_take c.rest
  refine ⟨isOpen, ⟨_, hgap, h.standsAt_take _, ?_⟩, hend⟩
  rw [skipGap, (h.forward _).offset, utf8Length_append]

/-- The tokens from a cursor on cover the rest of the code. -/
theorem covers (h : c.StandsIn code before) :
    Tokens.Covers code (Tokens.ofCursor g o c).ending (utf8Length before) (Tokens.ofCursor g o c).list := by
  induction c using Tokens.ofCursor.induct g o generalizing before with
  | case1 c t next hstep later ih =>
    obtain ⟨isOpen, hgap, hopen⟩ := h.gapBetween
    have hhere : c.skipGap.StandsIn code _ := h.forward _
    obtain ⟨hne, l, hl, rfl, rfl⟩ := exists_lexeme_of_step hstep
    -- an open gap would end the code, but a token follows
    have hclosed : isOpen = false := Bool.eq_false_iff.2 fun hisOpen => hne (hopen hisOpen)
    have htext : c.skipGap.rest.take l.length ≠ [] := by
      rw [Ne, List.take_eq_nil_iff, not_or]
      exact ⟨l.length_pos.ne', hne⟩
    rw [Tokens.ofCursor_of_token hstep]
    refine ⟨hclosed ▸ hgap, kind_ne_finish hl, htext, hhere.token _ _, ?_⟩
    rw [hhere.stop_token]
    exact ih (hhere.forward l.length)
  | case2 c t hstep =>
    obtain ⟨isOpen, hgap, -⟩ := h.gapBetween
    have hhere : c.skipGap.StandsIn code _ := h.forward _
    obtain ⟨hnil, rfl⟩ := eq_token_of_step hstep
    have hend : c.skipGap.location.offset = utf8Length code.toList := by
      rw [hhere.offset, hhere.rest, hnil, List.append_nil]
    rw [Tokens.ofCursor_of_finish hstep]
    rintro _ ⟨⟩
    exact ⟨rfl, rfl, hhere.token _ _, hend, isOpen, hgap⟩
  | case3 c e hstep =>
    rw [Tokens.ofCursor_of_fault hstep]
    rintro _ ⟨⟩

end Cursor.StandsIn

/-- The tokens from a cursor on are the ones that are returned if they are asked for one by one. -/
theorem Cursor.returns_ofCursor (c : Cursor) :
    c.Returns g o (Tokens.ofCursor g o c).list (Tokens.ofCursor g o c).ending := by
  induction c using Tokens.ofCursor.induct g o with
  | case1 c t next hstep later ih =>
    obtain ⟨-, l, hl, ht, -⟩ := exists_lexeme_of_step hstep
    have hkind : t.kind ≠ .finish := ht ▸ kind_ne_finish hl
    rw [Tokens.ofCursor_of_token hstep]
    exact .token (by rw [Cursor.next, hstep]) hkind ih
  | case2 c t hstep =>
    have hkind : t.kind = .finish := (eq_token_of_step hstep).2 ▸ rfl
    rw [Tokens.ofCursor_of_finish hstep]
    exact .finish (by rw [Cursor.next, hstep]) hkind
  | case3 c e hstep =>
    rw [Tokens.ofCursor_of_fault hstep]
    exact .fault (by rw [Cursor.next, hstep])

namespace Tokens.Covers

variable {ending : Except ParseError Token} {start : Nat} {ts : List Token}

/-- No token starts in front of the part of the code that the tokens cover. -/
theorem le_offset (h : Covers code ending start ts) : ∀ t ∈ ts, start ≤ t.location.offset := by
  induction ts generalizing start with
  | nil => simp
  | cons t ts ih =>
    obtain ⟨⟨cs, -, -, hstop⟩, -, -, -, hlater⟩ := h
    have hstart : start ≤ t.location.offset := Nat.le.intro hstop
    intro u hu
    rcases List.mem_cons.1 hu with rfl | hu
    · exact hstart
    · exact Nat.le_trans hstart (Nat.le_trans (Nat.le_add_right _ _) (ih hlater u hu))

/-- Tokens do not overlap, and their offsets increase. -/
theorem pairwise (h : Covers code ending start ts) :
    ts.Pairwise fun t u => t.location.offset < t.stop ∧ t.stop ≤ u.location.offset := by
  induction ts generalizing start with
  | nil => exact .nil
  | cons t ts ih =>
    obtain ⟨-, -, htext, -, hlater⟩ := h
    refine .cons (fun u hu => ⟨?_, le_offset hlater u hu⟩) (ih hlater)
    exact Nat.lt_add_of_pos_right (utf8Length_pos htext)

end Tokens.Covers

/-- The end is the only token of its kind. -/
theorem Cursor.Returns.kinds {c : Cursor} {ts : List Token} {ending : Except ParseError Token}
    (h : c.Returns g o ts ending) : (∀ t ∈ ts, t.kind ≠ .finish) ∧ ∀ t, ending = .ok t → t.kind = .finish := by
  induction h with
  | token _ hkind _ ih => exact ⟨List.forall_mem_cons.2 ⟨hkind, ih.1⟩, ih.2⟩
  | finish _ hkind => exact ⟨by simp, by rintro _ ⟨⟩; exact hkind⟩
  | fault _ => exact ⟨by simp, by rintro _ ⟨⟩⟩

/-! ## The end -/

namespace Tokens

/-- All tokens of a code, the end counted as one. -/
def withEnd (ts : Tokens) : List Token :=
  ts.list ++ ts.ending.toOption.toList

/-- The tokens and the end stand in the code. -/
theorem Covers.standsIn {ending : Except ParseError Token} {start : Nat} {ts : List Token}
    (h : Covers code ending start ts) : ∀ t ∈ withEnd ⟨ts, ending⟩, t.StandsIn code := by
  induction ts generalizing start with
  | nil =>
    cases ending with
    | error e => exact fun t ht => absurd ht List.not_mem_nil
    | ok t =>
      intro u hu
      cases List.mem_singleton.1 hu
      exact (h t rfl).2.2.1
  | cons t ts ih =>
    obtain ⟨-, -, -, ht, hlater⟩ := h
    exact List.forall_mem_cons.2 ⟨ht, ih hlater⟩

/-- Tokens of a code start one behind the other, and the end behind them. -/
theorem Covers.pairwise_withEnd {ending : Except ParseError Token} {start : Nat} {ts : List Token}
    (h : Covers code ending start ts) : (∀ t ∈ withEnd ⟨ts, ending⟩, start ≤ t.location.offset) ∧
      (withEnd ⟨ts, ending⟩).Pairwise fun t u => t.location.offset < u.location.offset := by
  induction ts generalizing start with
  | nil =>
    cases ending with
    | error e => exact ⟨fun t ht => absurd ht List.not_mem_nil, .nil⟩
    | ok t =>
      obtain ⟨-, -, -, -, _, _, -, -, hstop⟩ := h t rfl
      refine ⟨fun u hu => ?_, List.pairwise_singleton _ t⟩
      cases List.mem_singleton.1 hu
      exact Nat.le.intro hstop
  | cons t ts ih =>
    obtain ⟨⟨cs, -, -, hstop⟩, -, htext, -, hlater⟩ := h
    obtain ⟨hle, hpairwise⟩ := ih hlater
    have hstart : start ≤ t.location.offset := Nat.le.intro hstop
    have hlt : t.location.offset < t.stop := Nat.lt_add_of_pos_right (utf8Length_pos htext)
    refine ⟨List.forall_mem_cons.2 ⟨hstart, fun u hu => ?_⟩, .cons (fun u hu => ?_) hpairwise⟩
    · have := hle u hu
      omega
    · exact Nat.lt_of_lt_of_le hlt (hle u hu)

end Tokens

/-! ## The code -/

/-- The tokens of a code are the ones that are returned if they are asked for one by one, up to the end or to the first
error. They stand in the code in order and do not overlap, with the line and the column of their places, and what is
between them, and behind them if there is no error, are blanks and comments. -/
theorem Tokens.covers_ofCode (g : Grammar) (o : Options) (code : String) :
    (Cursor.ofCode code).Returns g o (ofCode g o code).list (ofCode g o code).ending ∧
      Covers code (ofCode g o code).ending 0 (ofCode g o code).list ∧
      (ofCode g o code).list.Pairwise fun t u => t.location.offset < t.stop ∧ t.stop ≤ u.location.offset := by
  have hcovers : Covers code (ofCode g o code).ending 0 (ofCode g o code).list := Cursor.standsIn_ofCode.covers
  exact ⟨Cursor.returns_ofCursor _, hcovers, hcovers.pairwise⟩

end Reckon
