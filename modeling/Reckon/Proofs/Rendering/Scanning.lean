import Mathlib.Data.Bool.AllAny
import Reckon.Proofs.Number.Numerals
import Reckon.Proofs.Rendering.Quoting
import Reckon.Token.Lexer

/-!
# Tokens in front of other text

The kinds of the tokens of a text (`Scans`) are what the lexer finds in it (`scans_iff`). A text in front of another one
is that of a token if the lexer finds the token there (`Begins`), and then the tokens behind it follow (`Begins.scans`).
-/

namespace Reckon

open Lexeme

variable {g : Grammar} {o : Options}

/-- Where no gap starts, the token is read that is recognised there. -/
theorem Cursor.step_of_recognise {c : Cursor} {l : Lexeme} (hgap : gapLength .outside c.rest = 0)
    (h : recognise g o c.rest = .ok l) :
    c.step g o = .token (c.token l.length l.kind) (c.forward l.length) := by
  have hhere : c.skipGap = c := by
    rw [skipGap, hgap]
    rfl
  have hne : c.rest ≠ [] := by
    intro hnil
    rw [hnil] at h
    cases h
  simp only [step, hhere, if_neg hne, h]

namespace Tokens

theorem ofCursor_of_token {c next : Cursor} {t : Token} (h : c.step g o = .token t next) :
    ofCursor g o c = { ofCursor g o next with list := t :: (ofCursor g o next).list } := by
  rw [ofCursor]
  split
  · next heq => rw [h] at heq; cases heq; rfl
  · next heq => rw [h] at heq; cases heq
  · next heq => rw [h] at heq; cases heq

theorem ofCursor_of_finish {c : Cursor} {t : Token} (h : c.step g o = .finish t) : ofCursor g o c = ⟨[], .ok t⟩ := by
  rw [ofCursor]
  split
  · next heq => rw [h] at heq; cases heq
  · next heq => rw [h] at heq; cases heq; rfl
  · next heq => rw [h] at heq; cases heq

theorem ofCursor_of_fault {c : Cursor} {e : ParseError} (h : c.step g o = .fault e) :
    ofCursor g o c = ⟨[], .error e⟩ := by
  rw [ofCursor]
  split
  · next heq => rw [h] at heq; cases heq
  · next heq => rw [h] at heq; cases heq
  · next heq => rw [h] at heq; cases heq; rfl

end Tokens

/-- Behind the gap at its start, a text is empty or begins with the first of these tokens, and the others follow. -/
inductive Scans (g : Grammar) (o : Options) : List Char → List TokenKind → Prop
  | finish {cs : List Char} (h : cs.drop (gapLength .outside cs) = []) : Scans g o cs []
  | token {cs : List Char} {l : Lexeme} {ks : List TokenKind}
    (h : recognise g o (cs.drop (gapLength .outside cs)) = .ok l)
    (later : Scans g o ((cs.drop (gapLength .outside cs)).drop l.length) ks) : Scans g o cs (l.kind :: ks)

namespace Scans

/-- The lexer finds the tokens, without an error. -/
theorem ofCursor {cs : List Char} {ks : List TokenKind} (h : Scans g o cs ks) (c : Cursor) (hc : c.rest = cs) :
    (∃ e, (Tokens.ofCursor g o c).ending = .ok e) ∧ (Tokens.ofCursor g o c).list.map Token.kind = ks := by
  induction h generalizing c with
  | finish h =>
    have hstep : c.step g o = .finish (c.skipGap.token 0 .finish) := by
      simp only [Cursor.step, Cursor.skipGap, Cursor.forward, hc, h, if_true]
    rw [Tokens.ofCursor_of_finish hstep]
    exact ⟨⟨_, rfl⟩, rfl⟩
  | @token cs l ks h _ ih =>
    have hne : cs.drop (gapLength .outside cs) ≠ [] := by
      intro hnil
      rw [hnil] at h
      cases h
    have hstep : c.step g o = .token (c.skipGap.token l.length l.kind) (c.skipGap.forward l.length) := by
      simp only [Cursor.step, Cursor.skipGap, Cursor.forward, hc, hne, if_false, h]
    obtain ⟨hend, hks⟩ := ih (c.skipGap.forward l.length) (by simp only [Cursor.skipGap, Cursor.forward, hc])
    rw [Tokens.ofCursor_of_token hstep]
    exact ⟨hend, congrArg (l.kind :: ·) hks⟩

/-- What the lexer finds without an error is in the text. -/
theorem of_ofCursor (c : Cursor) {e : Token} (h : (Tokens.ofCursor g o c).ending = .ok e) :
    Scans g o c.rest ((Tokens.ofCursor g o c).list.map Token.kind) := by
  induction c using Tokens.ofCursor.induct g o with
  | case1 c t next hstep _ ih =>
    rw [Tokens.ofCursor_of_token hstep] at h ⊢
    simp only [Cursor.step] at hstep
    split at hstep
    · cases hstep
    · split at hstep
      · next l hl =>
        cases hstep
        exact .token hl (ih h)
      · cases hstep
  | case2 c t hstep =>
    rw [Tokens.ofCursor_of_finish hstep]
    simp only [Cursor.step] at hstep
    split at hstep
    · next hnil => exact .finish hnil
    · split at hstep <;> cases hstep
  | case3 c e' hstep =>
    rw [Tokens.ofCursor_of_fault hstep] at h
    cases h

/-- A blank in front makes no difference. -/
theorem blank {cs : List Char} {ks : List TokenKind} (h : Scans g o cs ks) : Scans g o (' ' :: cs) ks := by
  have hgap : gapLength .outside (' ' :: cs) = gapLength .outside cs + 1 := by
    rw [gapLength, if_pos (by decide), Nat.add_comm]
  cases h with
  | finish h => exact .finish (by rw [hgap]; exact h)
  | token h later => exact .token (by rw [hgap]; exact h) (by rw [hgap]; exact later)

end Scans

/-- In front of the rest, the text `cs` is that of a token. -/
structure Begins (g : Grammar) (o : Options) (cs rest : List Char) (k : TokenKind) : Prop where
  length_pos : 0 < cs.length
  gapLength_eq : gapLength .outside (cs ++ rest) = 0
  recognise_eq : recognise g o (cs ++ rest) = .ok ⟨cs.length, k, length_pos⟩

namespace Begins

variable {cs rest : List Char} {k : TokenKind}

/-- The token and the tokens behind it. -/
theorem scans (h : Begins g o cs rest k) {ks : List TokenKind} (hrest : Scans g o rest ks) :
    Scans g o (cs ++ rest) (k :: ks) := by
  have htoken : recognise g o ((cs ++ rest).drop (gapLength .outside (cs ++ rest))) = .ok ⟨cs.length, k, h.length_pos⟩ := by
    rw [h.gapLength_eq]
    exact h.recognise_eq
  refine .token htoken ?_
  rw [h.gapLength_eq, List.drop_zero, List.drop_left]
  exact hrest

end Begins

/-- The tokens of a code that has no faulty one. -/
theorem scans_iff {code : String} {ks : List TokenKind} : Scans g o code.toList ks ↔
    (∃ e, (Tokens.ofCode g o code).ending = .ok e) ∧ (Tokens.ofCode g o code).list.map Token.kind = ks := by
  constructor
  · intro h
    exact h.ofCursor (.ofCode code) rfl
  · rintro ⟨⟨e, he⟩, rfl⟩
    exact .of_ofCursor (.ofCode code) he

/-! ## Words -/

/-- Some characters, the first of which is a letter. -/
def StartsWord (cs : List Char) : Prop :=
  ∃ c ∈ cs.head?, Text.isAlphabetic c = true

/-- A letter with letters, digits and underscores behind it. -/
def IsWord (cs : List Char) : Prop :=
  StartsWord cs ∧ ∀ c ∈ cs, isWordChar false c = true

instance (cs : List Char) : Decidable (StartsWord cs) :=
  decidable_of_iff (cs.head?.any Text.isAlphabetic = true) (by simp [StartsWord, Option.any_eq_true])

instance (cs : List Char) : Decidable (IsWord cs) :=
  decidable_of_iff (StartsWord cs ∧ cs.all (isWordChar false) = true) (by rw [IsWord, List.all_eq_true])

/-- A word that one `$` or `_` may precede. -/
def IsName (cs : List Char) : Prop :=
  IsWord cs ∨ ∃ c w, cs = c :: w ∧ (c = '$' ∨ c = '_') ∧ IsWord w

theorem StartsWord.append {cs : List Char} (h : StartsWord cs) (rest : List Char) : StartsWord (cs ++ rest) := by
  obtain ⟨c, hc, ha⟩ := h
  exact ⟨c, by rw [Option.mem_def] at hc ⊢; rw [List.head?_append, hc]; rfl, ha⟩

/-- Neither `$` nor `_` starts a word. -/
theorem not_startsWord {c : Char} (hc : c = '$' ∨ c = '_') (tail : List Char) : ¬StartsWord (c :: tail) := by
  rintro ⟨d, hd, halphabetic⟩
  cases hd
  rcases hc with rfl | rfl
  · exact absurd halphabetic (by decide)
  · exact absurd halphabetic (by decide)

theorem not_isWordChar_of_true {c : Char} (h : isWordChar true c = false) : isWordChar false c = false := by
  simp only [isWordChar, Bool.true_and, Bool.false_and, Bool.or_false, Bool.or_eq_false_iff] at h ⊢
  exact h.1

theorem IsWord.isWordChar {cs : List Char} (h : IsWord cs) (dots : Bool) :
    ∀ c ∈ cs, Lexeme.isWordChar dots c = true := by
  intro c hc
  have hword := h.2 c hc
  cases dots with
  | true =>
    by_contra hfalse
    rw [not_isWordChar_of_true (Bool.eq_false_iff.2 hfalse)] at hword
    cases hword
  | false => exact hword

theorem wordLength_eq_takeWhile {dots : Bool} {cs : List Char} (h : StartsWord cs) :
    wordLength dots cs = (cs.takeWhile (isWordChar dots)).length := by
  cases cs with
  | nil =>
    obtain ⟨_, hc, _⟩ := h
    cases hc
  | cons c cs =>
    obtain ⟨_, ⟨⟩, hc⟩ := h
    have hword : isWordChar dots c = true := by simp [isWordChar, hc]
    rw [wordLength, if_pos hc, List.takeWhile_cons, if_pos hword, List.length_cons, Nat.add_comm]

theorem wordLength_eq_zero {dots : Bool} {cs : List Char} (h : ¬StartsWord cs) : wordLength dots cs = 0 := by
  cases cs with
  | nil => rfl
  | cons c cs => exact if_neg fun hc => h ⟨c, rfl, hc⟩

/-- A word in front of what does not go on with it. -/
theorem wordLength_append {dots : Bool} {cs rest : List Char} (h : IsWord cs)
    (hrest : ∀ c ∈ rest.head?, isWordChar dots c = false) : wordLength dots (cs ++ rest) = cs.length := by
  rw [wordLength_eq_takeWhile (h.1.append rest), takeWhile_append_eq (h.isWordChar dots) hrest]

/-- The word at the start of a text, and what is behind it. -/
theorem exists_word {cs : List Char} (h : wordLength false cs ≠ 0) : ∃ w rest, cs = w ++ rest ∧
    w.length = wordLength false cs ∧ IsWord w ∧ ∀ c ∈ rest.head?, isWordChar false c = false := by
  have hstart : StartsWord cs := by
    by_contra hstart
    exact h (wordLength_eq_zero hstart)
  refine ⟨cs.takeWhile (isWordChar false), cs.dropWhile (isWordChar false), List.takeWhile_append_dropWhile.symm,
    (wordLength_eq_takeWhile hstart).symm, ⟨?_, List.all_eq_true.1 List.all_takeWhile⟩, ?_⟩
  · cases cs with
    | nil => exact hstart
    | cons c cs =>
      obtain ⟨_, ⟨⟩, hc⟩ := hstart
      have hword : isWordChar false c = true := by simp [isWordChar, hc]
      exact ⟨c, by rw [List.takeWhile_cons, if_pos hword]; rfl, hc⟩
  · intro c hc
    have := List.head?_dropWhile_not (isWordChar false) cs
    rw [Option.mem_def.1 hc] at this
    simpa using this

/-- The name at the start of a text, and what is behind it. -/
theorem exists_name {cs : List Char} (h : nameLength cs ≠ 0) : ∃ w rest, cs = w ++ rest ∧
    w.length = nameLength cs ∧ IsName w ∧ ∀ c ∈ rest.head?, isWordChar false c = false := by
  cases cs with
  | nil => exact absurd rfl h
  | cons c cs =>
    rw [nameLength] at h ⊢
    by_cases hc : c = '$' ∨ c = '_'
    · simp only [if_pos hc] at h ⊢
      by_cases hzero : wordLength false cs = 0
      · exact absurd (if_pos hzero) h
      · obtain ⟨w, rest, hcs, hlength, hword, hrest⟩ := exists_word hzero
        refine ⟨c :: w, rest, congrArg (c :: ·) hcs, ?_, .inr ⟨c, w, rfl, hc, hword⟩, hrest⟩
        rw [if_neg hzero, List.length_cons, hlength, Nat.add_comm]
    · rw [if_neg hc] at h ⊢
      obtain ⟨w, rest, hcs, hlength, hword, hrest⟩ := exists_word h
      exact ⟨w, rest, hcs, hlength, .inl hword, hrest⟩

/-! ## What tokens are -/

/-- The symbolic operators. -/
def symbols : List String :=
  pairSymbols.map (fun p => String.ofList [p.1, p.2]) ++ singleSymbols.map fun c => String.ofList [c]

/-- An operator that can be written: a symbol or a word of the grammar, and switched on. -/
structure IsOperator (g : Grammar) (o : Options) (op : String) : Prop where
  enabled : o.enables op = true
  spelling : op ∈ symbols ∨ IsWord op.toList ∧ g.isOperator op = true

/-- A name that is not taken for an operator. -/
structure IsVariable (g : Grammar) (o : Options) (n : String) : Prop where
  name : IsName n.toList
  free : IsWord n.toList → g.isOperator n = true → o.enables n = false

/-- A name that is taken for a constant if it stands alone. -/
def IsConstant (g : Grammar) (n : String) : Prop :=
  IsWord n.toList ∧ g.constant? n ≠ none

/-- What a token of a code with numbers of a kind is; a name that is also a constant is only read as a name in front of
a dot. -/
def TokenKind.Lexed (N : Float → Prop) (g : Grammar) (o : Options) (dotted : Prop) : TokenKind → Prop
  | .number v => N v
  | .operator op => IsOperator g o op
  | .name n => IsVariable g o n ∧ (IsConstant g n → dotted)
  | _ => True

/-- A grammar whose constants can be told from members: there are no dots in their names. -/
def Grammar.IsDotless (g : Grammar) : Prop :=
  ∀ n l, g.constant? n = some l → '.' ∉ n.toList

/-- A grammar whose constants can be written down and told from members: strings, or numbers other than NaN without a
sign, by names without dots. -/
structure Grammar.IsReadable (g : Grammar) : Prop where
  number : ∀ n v, g.constant? n = some (.number v) → v.isNaN = false ∧ isNegative v = false
  dotless : ∀ n l, g.constant? n = some l → '.' ∉ n.toList

/-- The numbers that a code may have in a grammar are of a kind. -/
def Grammar.Reads (N : Float → Prop) (g : Grammar) : Prop :=
  ∀ v, Unsigned v ∨ (∃ n, g.constant? n = some (.number v)) → N v

theorem Grammar.IsReadable.reads {g : Grammar} (hg : g.IsReadable) : g.Reads Unsigned := by
  rintro v (hv | ⟨n, hn⟩)
  · exact hv
  · exact unsigned_iff.2 (hg.number n v hn)

theorem eq_of_ofLength? {n : Nat} {k : TokenKind} {l : Lexeme} (h : ofLength? n k = some l) :
    l.length = n ∧ l.kind = k ∧ n ≠ 0 := by
  rw [ofLength?] at h
  split at h
  · next hn =>
    cases h
    exact ⟨rfl, rfl, hn.ne'⟩
  · cases h

theorem mem_symbols_of_symbol? {cs : List Char} {n : Nat} {op : String} (h : symbol? cs = some (n, op)) :
    op ∈ symbols := by
  cases cs with
  | nil => cases h
  | cons c cs =>
    rw [symbol?] at h
    split at h
    · next d hd =>
      cases h
      have hmem := (Option.filter_eq_some_iff.1 hd).2
      exact List.mem_append_left _ (List.mem_map.2 ⟨(c, d), List.contains_iff_mem.1 hmem, rfl⟩)
    · split at h
      · next hc =>
        cases h
        exact List.mem_append_right _ (List.mem_map.2 ⟨c, List.contains_iff_mem.1 hc, rfl⟩)
      · split at h
        · cases h
          decide
        · cases h

theorem ofLength?_ne_none {n : Nat} {k : TokenKind} (h : n ≠ 0) : ofLength? n k ≠ none := by
  rw [ofLength?, dif_pos (Nat.pos_of_ne_zero h)]
  nofun

section

variable {cs : List Char} {l : Lexeme}

theorem unsigned_of_radixInteger? (h : radixInteger? cs = some l) : ∃ v, l.kind = .number v ∧ Unsigned v := by
  unfold radixInteger? at h
  split at h
  · next rest =>
    simp only at h
    split at h
    · have hall : ∀ c ∈ rest.takeWhile Text.Quoted.isHexDigit, Text.Quoted.isHexDigit c = true :=
        List.all_eq_true.1 List.all_takeWhile
      exact ⟨_, (eq_of_ofLength? h).2.1, unsigned_radixValue (.inl rfl) hall⟩
    · split at h
      · have hall : ∀ c ∈ rest.takeWhile (fun c => c = '0' || c = '1'), Text.Quoted.isHexDigit c = true := by
          intro c hc
          have hbit := List.all_eq_true.1 List.all_takeWhile c hc
          rw [Bool.or_eq_true, decide_eq_true_eq, decide_eq_true_eq] at hbit
          rcases hbit with rfl | rfl
          · decide
          · decide
        exact ⟨_, (eq_of_ofLength? h).2.1, unsigned_radixValue (.inr rfl) hall⟩
      · cases h
  · cases h

theorem isOperator_of_symbolOperator? (h : symbolOperator? o cs = some l) :
    ∃ op, l.kind = .operator op ∧ IsOperator g o op := by
  rw [symbolOperator?] at h
  split at h
  · next n op hsymbol =>
    split at h
    · next henabled => exact ⟨op, (eq_of_ofLength? h).2.1, henabled, .inl (mem_symbols_of_symbol? hsymbol)⟩
    · cases h
  · cases h

theorem isOperator_of_wordOperator? (h : wordOperator? g o cs = some l) :
    ∃ op, l.kind = .operator op ∧ IsOperator g o op := by
  simp only [wordOperator?] at h
  split at h
  · next henabled =>
    obtain ⟨_, hkind, hne⟩ := eq_of_ofLength? h
    obtain ⟨w, rest, hcs, hlength, hword, _⟩ := exists_word hne
    rw [Bool.and_eq_true] at henabled
    refine ⟨_, hkind, henabled.2, .inr ⟨?_, henabled.1⟩⟩
    rw [← hlength, hcs, List.take_left, String.toList_ofList]
    exact hword
  · cases h

theorem exists_literal_of_constant? (h : Lexeme.constant? g cs = some l) :
    ∃ n literal, g.constant? n = some literal ∧ l.kind = .ofLiteral literal := by
  simp only [Lexeme.constant?] at h
  split at h
  · next literal hliteral => exact ⟨_, literal, hliteral, (eq_of_ofLength? h).2.1⟩
  · cases h

/-- A name is neither an operator nor a constant, unless there is a dot behind it. -/
theorem isVariable_of_name? (hoperator : wordOperator? g o cs = none) (hconstant : Lexeme.constant? g cs = none)
    (h : name? cs = some l) :
    ∃ n, l.kind = .name n ∧ IsVariable g o n ∧ (IsConstant g n → (cs.drop l.length).head? = some '.') := by
  obtain ⟨hlength, hkind, hne⟩ := eq_of_ofLength? h
  obtain ⟨w, rest, hcs, hw, hname, hrest⟩ := exists_name hne
  have htake : cs.take w.length = w := by rw [hcs, List.take_left]
  rw [← hw, htake] at hkind
  refine ⟨_, hkind, ⟨by rwa [String.toList_ofList], ?_⟩, ?_⟩
  · intro hword hop
    rw [String.toList_ofList] at hword
    have hwordLength : wordLength false cs = w.length := hcs ▸ wordLength_append hword hrest
    by_contra henabled
    rw [Bool.not_eq_false] at henabled
    simp only [wordOperator?, hwordLength, htake, hop, henabled, Bool.and_self, if_true] at hoperator
    exact ofLength?_ne_none (hw ▸ hne) hoperator
  · rintro ⟨hword, hconstant'⟩
    rw [String.toList_ofList] at hword
    have hdrop : cs.drop l.length = rest := by rw [hlength, ← hw, hcs, List.drop_left]
    rw [hdrop]
    by_contra hdot
    have hrest' : ∀ c ∈ rest.head?, isWordChar true c = false := by
      intro c hc
      have hne : c ≠ '.' := by
        rintro rfl
        exact hdot hc
      have := hrest c hc
      simp only [isWordChar, Bool.false_and, Bool.or_false, Bool.true_and, Bool.or_eq_false_iff,
        decide_eq_false_iff_not] at this ⊢
      exact ⟨this, hne⟩
    have hwordLength : wordLength true cs = w.length := hcs ▸ wordLength_append hword hrest'
    simp only [Lexeme.constant?, hwordLength, htake] at hconstant
    split at hconstant
    · exact ofLength?_ne_none (hw ▸ hne) hconstant
    · next hnone => exact hconstant' hnone

/-- A token is what is read, and a constant is only read as a name if a dot is behind it. -/
theorem lexed_of_recognise {N : Float → Prop} (hN : g.Reads N) (h : recognise g o cs = .ok l) :
    l.kind.Lexed N g o ((cs.drop l.length).head? = some '.') := by
  cases cs with
  | nil => cases h
  | cons c cs =>
    rw [recognise] at h
    split at h
    · rw [quoted] at h
      split at h
      · split at h
        · cases h
          trivial
        · cases h
      · cases h
    · split at h
      · next l' hl =>
        cases h
        simp only [plain?, Option.orElse_eq_orElse, Option.orElse_eq_or, Option.or_eq_some_iff] at hl
        rcases hl with hl | ⟨-, hl | ⟨-, hl | ⟨-, hl | ⟨-, hl | ⟨hoperator, hl | ⟨hconstant, hl⟩⟩⟩⟩⟩⟩
        · obtain ⟨v, hkind, hv⟩ := unsigned_of_radixInteger? hl
          rw [hkind]
          exact hN v (.inl hv)
        · rw [(eq_of_ofLength? hl).2.1]
          exact hN _ (.inl (Decimal.unsigned_toFloat _))
        · obtain ⟨op, hkind, hop⟩ := isOperator_of_symbolOperator? hl
          rw [hkind]
          exact hop
        · unfold mark? at hl
          split at hl <;> cases hl <;> trivial
        · obtain ⟨op, hkind, hop⟩ := isOperator_of_wordOperator? hl
          rw [hkind]
          exact hop
        · obtain ⟨n, literal, hliteral, hkind⟩ := exists_literal_of_constant? hl
          rw [hkind]
          cases literal with
          | number v => exact hN v (.inr ⟨n, hliteral⟩)
          | string s => trivial
        · obtain ⟨n, hkind, hn⟩ := isVariable_of_name? hoperator hconstant hl
          rw [hkind]
          exact hn
      · cases h

/-- A text that starts with a dot starts with the operator or with a number. -/
theorem kind_of_dot (hdot : cs.head? = some '.') (h : recognise g o cs = .ok l) :
    l.kind = .operator "." ∨ ∃ v, l.kind = .number v := by
  cases cs with
  | nil => cases hdot
  | cons c cs =>
    cases hdot
    have hquote : ¬('.' = '"' ∨ '.' = '\'') := by decide
    rw [recognise, if_neg hquote] at h
    split at h
    · next l' hl =>
      cases h
      have hstart : ¬StartsWord ('.' :: cs) := by
        rintro ⟨_, ⟨⟩, hc⟩
        exact absurd hc (by decide)
      simp only [plain?, Option.orElse_eq_orElse, Option.orElse_eq_or, Option.or_eq_some_iff] at hl
      rcases hl with hl | ⟨-, hl | ⟨-, hl | ⟨-, hl | ⟨-, hl | ⟨-, hl | ⟨-, hl⟩⟩⟩⟩⟩⟩
      · cases hl
      · exact .inr ⟨_, (eq_of_ofLength? hl).2.1⟩
      · left
        have hsymbol : symbol? ('.' :: cs) = some (1, ".") := by
          have hpair : (cs.head?.filter fun d => pairSymbols.contains ('.', d)) = none := by
            rw [Option.filter_eq_none_iff]
            intro d _
            simp [pairSymbols]
          rw [symbol?, hpair]
          rfl
        rw [symbolOperator?, hsymbol] at hl
        simp only at hl
        split at hl
        · exact (eq_of_ofLength? hl).2.1
        · cases hl
      · cases hl
      · simp only [wordOperator?, wordLength_eq_zero hstart] at hl
        split at hl
        · exact absurd rfl (eq_of_ofLength? hl).2.2
        · cases hl
      · simp only [Lexeme.constant?, wordLength_eq_zero hstart] at hl
        split at hl
        · exact absurd rfl (eq_of_ofLength? hl).2.2
        · cases hl
      · refine absurd ?_ (eq_of_ofLength? hl).2.2
        rw [nameLength, if_neg (by decide), wordLength_eq_zero hstart]
    · cases h

end

/-- A token that starts with a dot. -/
def TokenKind.IsDotted (k : TokenKind) : Prop :=
  k = .operator "." ∨ ∃ v, k = .number v

/-- Every token is what is read in front of the others. -/
def AllLexed (N : Float → Prop) (g : Grammar) (o : Options) : List TokenKind → Prop
  | [] => True
  | k :: ks => k.Lexed N g o (∃ k' ∈ ks.head?, k'.IsDotted) ∧ AllLexed N g o ks

theorem TokenKind.Lexed.imp {N : Float → Prop} {k : TokenKind} {p q : Prop} (h : k.Lexed N g o p) (hpq : p → q) :
    k.Lexed N g o q := by
  cases k <;> first | exact h | exact ⟨h.1, fun hc => hpq (h.2 hc)⟩

/-- The tokens of a code. -/
theorem Scans.allLexed {N : Float → Prop} (hN : g.Reads N) {cs : List Char} {ks : List TokenKind}
    (h : Scans g o cs ks) : AllLexed N g o ks := by
  induction h with
  | finish h => trivial
  | @token cs l ks h later ih =>
    refine ⟨(lexed_of_recognise hN h).imp fun hdot => ?_, ih⟩
    generalize (cs.drop (gapLength .outside cs)).drop l.length = rest at hdot later
    have hgap : rest.drop (gapLength .outside rest) = rest := by
      cases rest with
      | nil => cases hdot
      | cons c rest =>
        cases hdot
        rfl
    cases later with
    | finish hnil =>
      rw [hgap] at hnil
      rw [hnil] at hdot
      cases hdot
    | token htoken _ =>
      rw [hgap] at htoken
      exact ⟨_, rfl, kind_of_dot hdot htoken⟩

end Reckon
