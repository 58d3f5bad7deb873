import Reckon.Grammar.Standard
import Reckon.Proofs.Lexing.Coverage
import Reckon.Proofs.Lexing.Lookahead
import Reckon.Proofs.Rendering.Widening

/-!
# Tokens apart

Where the text of a token is cut off in front of a blank or the end, each rule of the lexer finds what it has found
(`plain?_take_append`, `quoted_take_append`) or finds nothing again, with one exception: the rule for constants passes
the dots behind a word, so a name with a dot directly behind it is the constant of that name, if there is one, when it
stands alone (`TokenKind.alone`, `word?_take_append`). So with a blank between any two, the tokens of a code are found
again, up to such names (`Tokens.ofCode_spaced`).
-/

namespace Reckon

open Lexeme

variable {g : Grammar} {o : Options} {rest : List Char}

/-- What a token is if it stands alone: the name of a constant is the constant. -/
def TokenKind.alone (g : Grammar) : TokenKind → TokenKind
  | .name n => if IsWord n.toList then ((g.constant? n).map .ofLiteral).getD (.name n) else .name n
  | k => k

/-! ## Rules -/

theorem ofLength?_eq_none {n : Nat} {k : TokenKind} : ofLength? n k = none ↔ n = 0 := by
  rw [ofLength?]
  split
  · next hn => simp [hn.ne']
  · next hn => simp [Nat.eq_zero_of_not_pos hn]

section

variable {cs : List Char} {l : Lexeme}

theorem radixInteger?_take_append (h : radixInteger? cs = some l) (hrest : Parted rest) :
    radixInteger? (cs.take l.length ++ rest) = some l := by
  unfold radixInteger? at h
  split at h
  · next mark tail =>
    simp only at h
    have hcut (p : Char → Bool) (hp : p ' ' = false) :
        (tail.take (tail.takeWhile p).length ++ rest).takeWhile p = tail.takeWhile p :=
      takeWhile_take_append (Nat.le_refl _) (hrest.head hp)
    have htake (k : Nat) (hk : l.length = 2 + k) :
        ('0' :: mark :: tail).take l.length ++ rest = '0' :: mark :: (tail.take k ++ rest) := by
      rw [hk, Nat.add_comm]
      rfl
    split at h
    · next hhex =>
      rw [htake _ (eq_of_ofLength? h).1, radixInteger?]
      simp only [hcut Text.Quoted.isHexDigit rfl]
      rwa [if_pos hhex]
    · split at h
      · next hbinary =>
        have hmark : mark ≠ 'x' := hbinary.1 ▸ by decide
        rw [htake _ (eq_of_ofLength? h).1, radixInteger?]
        simp only [hcut (fun c => c = '0' || c = '1') rfl]
        rwa [if_neg fun hhex => hmark hhex.1, if_pos hbinary]
      · cases h
  · cases h

theorem radixInteger?_eq_none_iff {mark : Char} {tail : List Char} : radixInteger? ('0' :: mark :: tail) = none ↔
    ¬(mark = 'x' ∧ tail.takeWhile Text.Quoted.isHexDigit ≠ []) ∧
      ¬(mark = 'b' ∧ tail.takeWhile (fun c => c = '0' || c = '1') ≠ []) := by
  rw [radixInteger?]
  split
  · next h => simp [ofLength?_eq_none, h]
  · next h =>
    split
    · next h' => simp [ofLength?_eq_none, h']
    · next h' => exact iff_of_true rfl ⟨h, h'⟩

/-- Cut off, a text does not start an integer in another base if it did not before. -/
theorem radixInteger?_take_append_eq_none (h : radixInteger? cs = none) (n : Nat) (hrest : Parted rest) :
    radixInteger? (cs.take n ++ rest) = none := by
  have hcut {p : Char → Bool} (hp : p ' ' = false) {tail : List Char} (htail : tail.takeWhile p = []) (k : Nat) :
      (tail.take k ++ rest).takeWhile p = [] := by
    rw [takeWhile_take_append (htail ▸ Nat.zero_le k) (hrest.head hp), htail]
  rcases take_append_cases cs n rest with hcs | ⟨c, tail, k, rfl, hcs⟩ <;> rw [hcs]
  · rcases hrest.eq_nil_or_eq_cons with rfl | ⟨tail, rfl⟩
    · rfl
    · exact radixInteger?_eq_none (by decide)
  · by_cases hc : c = '0'
    · subst hc
      rcases take_append_cases tail k rest with htail | ⟨mark, tail, k, rfl, htail⟩ <;> rw [htail]
      · exact radixInteger?_eq_none_of_head? fun d hd => by rw [hrest d hd]; decide
      · rw [radixInteger?_eq_none_iff] at h ⊢
        exact ⟨fun hhex => h.1 ⟨hhex.1, fun hnone => hhex.2 (hcut rfl hnone k)⟩,
          fun hbinary => h.2 ⟨hbinary.1, fun hnone => hbinary.2 (hcut rfl hnone k)⟩⟩
    · exact radixInteger?_eq_none hc

theorem decimalNumber?_take_append {n : Nat} (hn : Numeral.length cs ≤ n) (hrest : Apart rest) :
    decimalNumber? (cs.take n ++ rest) = decimalNumber? cs := by
  rw [decimalNumber?, decimalNumber?]
  simp only [Numeral.settled_length cs n rest hn hrest, take_take_append (Numeral.length_le_length cs) hn]

/-- No pair of characters that is a symbol ends with a separator. -/
theorem filter_pairSymbols_take_append {c : Char} {tail : List Char}
    (h : (tail.head?.filter fun d => pairSymbols.contains (c, d)) = none) (n : Nat) (hrest : Apart rest) :
    ((tail.take n ++ rest).head?.filter fun d => pairSymbols.contains (c, d)) = none := by
  have hseparator : ∀ p ∈ pairSymbols, p.2 ∉ separators := by decide
  rw [Option.filter_eq_none_iff] at h ⊢
  intro d hd hcontains
  rcases hrest.head?_take_append hd with hd | hd
  · exact h d hd hcontains
  · exact hseparator _ (List.contains_iff_mem.1 hcontains) hd

/-- A symbol of one character depends on no other one. -/
theorem symbol?_cons {c : Char} {tail : List Char}
    (h : (tail.head?.filter fun d => pairSymbols.contains (c, d)) = none) :
    symbol? (c :: tail) = if singleSymbols.contains c then some (1, String.ofList [c])
      else if c = '∙' ∨ c = '•' then some (1, "*") else none := by
  rw [symbol?, h]

theorem symbol?_take_append {n : Nat} {op : String} (h : symbol? cs = some (n, op)) (hrest : Parted rest) :
    symbol? (cs.take n ++ rest) = some (n, op) := by
  cases cs with
  | nil => cases h
  | cons c tail =>
    cases hpair : tail.head?.filter fun d => pairSymbols.contains (c, d) with
    | some d =>
      have hsymbol : symbol? (c :: tail) = some (2, String.ofList [c, d]) := by rw [symbol?, hpair]
      cases hsymbol.symm.trans h
      obtain ⟨hhead, hmem⟩ := Option.filter_eq_some_iff.1 hpair
      obtain ⟨tail, rfl⟩ := List.head?_eq_some_iff.1 hhead
      have hpair' : (some d).filter (fun d => pairSymbols.contains (c, d)) = some d := if_pos hmem
      have hcut : (c :: d :: tail).take 2 ++ rest = c :: d :: rest := rfl
      rw [hcut, symbol?, List.head?_cons, hpair']
    | none =>
      have hcut := symbol?_cons (filter_pairSymbols_take_append hpair 0 hrest.apart)
      rw [symbol?_cons hpair] at h
      have hn : n = 1 := by
        split at h
        · cases h
          rfl
        · split at h <;> cases h
          rfl
      subst hn
      exact hcut.trans h

theorem symbol?_take_append_eq_none (h : symbol? cs = none) (n : Nat) (hrest : Parted rest) :
    symbol? (cs.take n ++ rest) = none := by
  rcases take_append_cases cs n rest with hcs | ⟨c, tail, k, rfl, hcs⟩ <;> rw [hcs]
  · rcases hrest.eq_nil_or_eq_cons with rfl | ⟨tail, rfl⟩
    · rfl
    · rw [Option.eq_none_iff_forall_not_mem]
      exact fun s hs => absurd (mem_symbolStarts hs) (by decide)
  · cases hpair : tail.head?.filter fun d => pairSymbols.contains (c, d) with
    | some d =>
      rw [symbol?, hpair] at h
      cases h
    | none =>
      rw [symbol?_cons hpair] at h
      rw [symbol?_cons (filter_pairSymbols_take_append hpair k hrest.apart), h]

theorem exists_symbol_of_symbolOperator? (h : symbolOperator? o cs = some l) :
    ∃ op, symbol? cs = some (l.length, op) := by
  rw [symbolOperator?] at h
  split at h
  · next n op hsymbol =>
    split at h
    · exact ⟨op, (eq_of_ofLength? h).1.symm ▸ hsymbol⟩
    · cases h
  · cases h

theorem symbolOperator?_take_append (h : symbolOperator? o cs = some l) (hrest : Parted rest) :
    symbolOperator? o (cs.take l.length ++ rest) = some l := by
  obtain ⟨op, hsymbol⟩ := exists_symbol_of_symbolOperator? h
  rw [symbolOperator?, hsymbol] at h
  rw [symbolOperator?, symbol?_take_append hsymbol hrest, h]

theorem length_of_mark? (h : mark? cs = some l) : l.length = 1 := by
  unfold mark? at h
  split at h
  · cases h
    rfl
  · cases h
    rfl
  · cases h
    rfl
  · cases h

theorem length_of_wordOperator? (h : wordOperator? g o cs = some l) : l.length = wordLength false cs := by
  simp only [wordOperator?] at h
  split at h
  · exact (eq_of_ofLength? h).1
  · cases h

theorem length_of_constant? (h : Lexeme.constant? g cs = some l) : l.length = wordLength true cs := by
  simp only [Lexeme.constant?] at h
  split at h
  · exact (eq_of_ofLength? h).1
  · cases h

/-- A mark depends on one character. -/
theorem mark?_cons (c : Char) (xs ys : List Char) : mark? (c :: xs) = mark? (c :: ys) := by
  have hnone (hc : c ∉ ['(', ')', ',']) (zs : List Char) : mark? (c :: zs) = none := by
    unfold mark?
    split <;> first | rfl | (next heq => cases heq; exact absurd (by decide) hc)
  by_cases hc : c ∈ ['(', ')', ',']
  · simp only [List.mem_cons, List.not_mem_nil, or_false] at hc
    rcases hc with rfl | rfl | rfl <;> rfl
  · rw [hnone hc, hnone hc]

theorem mark?_take_append (h : mark? cs = some l) (rest : List Char) :
    mark? (cs.take l.length ++ rest) = some l ∧ ∀ g, l.kind.alone g = l.kind := by
  unfold mark? at h
  split at h
  · cases h
    exact ⟨rfl, fun _ => rfl⟩
  · cases h
    exact ⟨rfl, fun _ => rfl⟩
  · cases h
    exact ⟨rfl, fun _ => rfl⟩
  · cases h

theorem mark?_take_append_eq_none (h : mark? cs = none) (n : Nat) (hrest : Parted rest) :
    mark? (cs.take n ++ rest) = none := by
  rcases take_append_cases cs n rest with hcs | ⟨c, tail, k, rfl, hcs⟩ <;> rw [hcs]
  · rcases hrest.eq_nil_or_eq_cons with rfl | ⟨tail, rfl⟩ <;> rfl
  · exact (mark?_cons c _ tail).trans h

theorem wordOperator?_take_append {n : Nat} (hn : wordLength false cs ≤ n) (hrest : Apart rest) :
    wordOperator? g o (cs.take n ++ rest) = wordOperator? g o cs := by
  rw [wordOperator?, wordOperator?]
  simp only [settled_wordLength false cs n rest hn hrest, take_take_append (wordLength_le_length false cs) hn]

theorem constant?_take_append {n : Nat} (hn : wordLength true cs ≤ n) (hrest : Apart rest) :
    Lexeme.constant? g (cs.take n ++ rest) = Lexeme.constant? g cs := by
  rw [Lexeme.constant?, Lexeme.constant?]
  simp only [settled_wordLength true cs n rest hn hrest, take_take_append (wordLength_le_length true cs) hn]

/-- The rules for words. -/
def word? (g : Grammar) (o : Options) (cs : List Char) : Option Lexeme :=
  wordOperator? g o cs <|> Lexeme.constant? g cs <|> name? cs

/-- A word, cut off in front of a blank, is found again, and a name that is that of a constant is the constant now. -/
theorem word?_take_append (h : word? g o cs = some l) (hrest : Parted rest) : ∃ l' : Lexeme,
    word? g o (cs.take l.length ++ rest) = some l' ∧ l'.length = l.length ∧ l'.kind = l.kind.alone g := by
  simp only [word?, Option.orElse_eq_orElse, Option.orElse_eq_or, Option.or_eq_some_iff] at h ⊢
  rcases h with h | ⟨hoperator, h | ⟨hconstant, h⟩⟩
  · obtain ⟨op, hkind, -⟩ := isOperator_of_wordOperator? h
    have hcut := wordOperator?_take_append (g := g) (o := o) (length_of_wordOperator? h).ge hrest.apart
    exact ⟨l, .inl (hcut.trans h), rfl, by rw [hkind]; rfl⟩
  · obtain ⟨n, literal, -, hkind⟩ := exists_literal_of_constant? h
    have hlength : wordLength true cs ≤ l.length := (length_of_constant? h).ge
    have hlength' : wordLength false cs ≤ l.length := Nat.le_trans (wordLength_false_le_true cs) hlength
    refine ⟨l, .inr ⟨(wordOperator?_take_append hlength' hrest.apart).trans hoperator,
      .inl ((constant?_take_append hlength hrest.apart).trans h)⟩, rfl, ?_⟩
    rw [hkind]
    cases literal <;> rfl
  · obtain ⟨hlength, hkind, hne⟩ := eq_of_ofLength? h
    have hle : wordLength false cs ≤ l.length := hlength ▸ wordLength_le_nameLength cs
    have hoperator' := (wordOperator?_take_append hle hrest.apart).trans hoperator
    obtain ⟨w, tail, rfl, hw, hname, -⟩ := exists_name hne
    rw [← hw, List.take_left] at hkind
    rw [hlength, ← hw, List.take_left] at hoperator' ⊢
    rw [hkind, TokenKind.alone, String.toList_ofList]
    have hname' : name? (w ++ rest) = some l := by
      rw [name?, ← hw, List.take_left] at h
      rwa [name?, nameLength_append hname (hrest.head rfl), List.take_left]
    rw [hoperator', hname', Lexeme.constant?]
    by_cases hword : IsWord w
    · have hwordLength : wordLength true (w ++ rest) = w.length := wordLength_append hword (hrest.head rfl)
      simp only [if_pos hword, hwordLength, List.take_left]
      cases hconstant : g.constant? (String.ofList w) with
      | none => exact ⟨l, .inr ⟨trivial, .inr ⟨rfl, rfl⟩⟩, hlength.trans hw.symm, hkind⟩
      | some literal =>
        refine ⟨⟨w.length, .ofLiteral literal, hname.length_pos⟩, .inr ⟨trivial, .inl ?_⟩, rfl, rfl⟩
        exact dif_pos hname.length_pos
    · have hstart : ¬StartsWord (w ++ rest) := by
        rcases hname with hname | ⟨c, w, rfl, hc, -⟩
        · exact absurd hname hword
        · exact not_startsWord hc _
      simp only [if_neg hword, wordLength_eq_zero hstart]
      refine ⟨l, .inr ⟨trivial, .inr ⟨?_, rfl⟩⟩, hlength.trans hw.symm, hkind⟩
      split <;> rfl

/-- Where no symbol starts, none starts if the text is cut off. -/
theorem symbolOperator?_take_append_eq_none (h : (mark? cs <|> word? g o cs) = some l) (n : Nat) (hrest : Parted rest) :
    symbolOperator? o (cs.take n ++ rest) = none := by
  have hsymbol : symbol? cs = none := by
    rw [Option.eq_none_iff_forall_not_mem]
    intro s hs
    cases h.symm.trans (words_eq_none_of_symbol? hs)
  rw [symbolOperator?, symbol?_take_append_eq_none hsymbol n hrest]

/-- A token that is no string, cut off in front of a blank, is that token alone. -/
theorem plain?_take_append (h : plain? g o cs = some l) (hrest : Parted rest) : ∃ l' : Lexeme,
    plain? g o (cs.take l.length ++ rest) = some l' ∧ l'.length = l.length ∧ l'.kind = l.kind.alone g := by
  have hplain (cs : List Char) : plain? g o cs =
    (radixInteger? cs <|> decimalNumber? cs <|> symbolOperator? o cs <|> mark? cs <|> word? g o cs) := rfl
  simp only [hplain, Option.orElse_eq_orElse, Option.orElse_eq_or, Option.or_eq_some_iff] at h ⊢
  rcases h with h | ⟨hradix, h⟩
  · obtain ⟨v, hkind, -⟩ := unsigned_of_radixInteger? h
    exact ⟨l, .inl (radixInteger?_take_append h hrest), rfl, by rw [hkind]; rfl⟩
  have hradix' := radixInteger?_take_append_eq_none hradix l.length hrest
  rcases h with h | ⟨hdecimal, h⟩
  · obtain ⟨hlength, hkind, -⟩ := eq_of_ofLength? h
    have hcut := decimalNumber?_take_append hlength.ge hrest.apart
    exact ⟨l, .inr ⟨hradix', .inl (hcut.trans h)⟩, rfl, by rw [hkind]; rfl⟩
  have hdecimal' : decimalNumber? (cs.take l.length ++ rest) = none := by
    have hzero : Numeral.length cs = 0 := ofLength?_eq_none.1 hdecimal
    exact (decimalNumber?_take_append (hzero ▸ Nat.zero_le _) hrest.apart).trans hdecimal
  rcases h with h | ⟨-, h⟩
  · obtain ⟨op, hkind, -⟩ := isOperator_of_symbolOperator? (g := g) h
    exact ⟨l, .inr ⟨hradix', .inr ⟨hdecimal', .inl (symbolOperator?_take_append h hrest)⟩⟩, rfl, by rw [hkind]; rfl⟩
  have hsymbol' : symbolOperator? o (cs.take l.length ++ rest) = none := by
    refine symbolOperator?_take_append_eq_none (g := g) (l := l) ?_ l.length hrest
    simpa only [Option.orElse_eq_orElse, Option.orElse_eq_or, Option.or_eq_some_iff] using h
  rcases h with h | ⟨hmark, h⟩
  · obtain ⟨hcut, hkind⟩ := mark?_take_append h rest
    exact ⟨l, .inr ⟨hradix', .inr ⟨hdecimal', .inr ⟨hsymbol', .inl hcut⟩⟩⟩, rfl, (hkind g).symm⟩
  · obtain ⟨l', hl', hlength, hkind⟩ := word?_take_append h hrest
    exact ⟨l', .inr ⟨hradix', .inr ⟨hdecimal', .inr ⟨hsymbol', .inr ⟨mark?_take_append_eq_none hmark _ hrest, hl'⟩⟩⟩⟩,
      hlength, hkind⟩

/-- A string, cut off anywhere behind its closing quote, is the same string. -/
theorem quoted_take_append {quote : Char} {k : Nat} (h : quoted quote cs = .ok l) (hk : l.length = k + 1)
    (rest : List Char) : quoted quote (cs.take k ++ rest) = .ok l ∧ ∃ s, l.kind = .string s := by
  rw [quoted] at h
  split at h
  · next hquote =>
    split at h
    · next body hbody =>
      cases h
      obtain ⟨tail, htail⟩ := List.head?_eq_some_iff.1 hquote
      obtain rfl : k = Text.Quoted.bodyLength quote cs + 1 := (Nat.succ.inj hk).symm
      have hle : Text.Quoted.bodyLength quote cs ≤ cs.length := by
        by_contra hlt
        rw [List.drop_eq_nil_of_le (Nat.le_of_not_le hlt)] at htail
        cases htail
      have hcut : cs.take (Text.Quoted.bodyLength quote cs + 1) ++ rest =
          cs.take (Text.Quoted.bodyLength quote cs) ++ quote :: rest := by
        rw [List.take_add, htail, List.append_assoc]
        rfl
      have hlength := bodyLength_take_append quote cs rest
      have htake : (cs.take (Text.Quoted.bodyLength quote cs)).length = Text.Quoted.bodyLength quote cs :=
        List.length_take_of_le hle
      rw [hcut, quoted]
      simp only [hlength, List.drop_left' htake, List.take_left' htake, List.head?_cons, if_true, hbody]
      exact ⟨trivial, _, rfl⟩
    · cases h
  · cases h

/-- The text of a token, cut off in front of a blank, is that of the token alone. -/
theorem recognise_take (h : recognise g o cs = .ok l) (hrest : Parted rest) : ∃ l' : Lexeme,
    recognise g o (cs.take l.length ++ rest) = .ok l' ∧ l'.length = l.length ∧ l'.kind = l.kind.alone g := by
  cases cs with
  | nil => cases h
  | cons c tail =>
    obtain ⟨k, hk⟩ : ∃ k, l.length = k + 1 := Nat.exists_eq_add_one.2 l.length_pos
    rw [hk, List.take_succ_cons, List.cons_append]
    rw [recognise] at h ⊢
    by_cases hquote : c = '"' ∨ c = '\''
    · rw [if_pos hquote] at h ⊢
      obtain ⟨hquoted, s, hs⟩ := quoted_take_append h hk rest
      exact ⟨l, hquoted, hk, by rw [hs]; rfl⟩
    · rw [if_neg hquote] at h ⊢
      split at h
      · next hl =>
        cases h
        obtain ⟨l', hl', hlength, hkind⟩ := plain?_take_append hl hrest
        rw [hk, List.take_succ_cons, List.cons_append] at hl'
        exact ⟨l', by rw [hl'], hlength.trans hk, hkind⟩
      · cases h

end

/-! ## Gaps -/

/-- Behind a gap there is no other one. -/
theorem gapLength_drop (state : GapState) (cs : List Char) :
    gapLength .outside (cs.drop (gapLength state cs)) = 0 := by
  induction state, cs using gapLength.induct with
  | case1 state => cases state <;> rfl
  | case2 c cs hblank ih =>
    rw [gapLength, if_pos hblank, Nat.add_comm]
    exact ih
  | case3 c cs hblank hslash ih =>
    rw [gapLength, if_neg hblank, if_pos hslash, Nat.add_comm]
    exact ih
  | case4 c cs hblank hslash =>
    have hzero : gapLength .outside (c :: cs) = 0 := by rw [gapLength, if_neg hblank, if_neg hslash]
    rw [hzero]
    exact hzero
  | case5 c cs ih | case6 c cs ih | case7 c cs ih =>
    rw [gapLength, Nat.add_comm]
    exact ih

/-- Where no gap starts there is no blank and no comment. -/
theorem of_gapLength_eq_zero {c : Char} {tail : List Char} (h : gapLength .outside (c :: tail) = 0) :
    isBlank c = false ∧ (c = '/' → tail.head? ≠ some '*') := by
  rw [gapLength] at h
  split at h
  · cases h.symm.trans (Nat.add_comm _ _)
  · next hblank =>
    split at h
    · cases h.symm.trans (Nat.add_comm _ _)
    · next hslash => exact ⟨Bool.eq_false_iff.2 hblank, fun hc hstar => hslash ⟨hc, hstar⟩⟩

/-- A text that starts without a gap does so too where it is cut off. -/
theorem gapLength_take_append {cs : List Char} {n : Nat} (hn : 0 < n) (hcs : cs ≠ []) (h : gapLength .outside cs = 0)
    (hrest : Parted rest) : gapLength .outside (cs.take n ++ rest) = 0 := by
  obtain ⟨c, tail, rfl⟩ := List.exists_cons_of_ne_nil hcs
  obtain ⟨n, rfl⟩ := Nat.exists_eq_add_one.2 hn
  obtain ⟨hblank, hslash⟩ := of_gapLength_eq_zero h
  refine gapLength_eq_zero hblank fun hc hstar => ?_
  rcases hrest.head?_take_append hstar with hstar | hstar
  · exact hslash hc hstar
  · cases hstar

/-! ## Codes -/

theorem Lexeme.length_le_of_radixInteger? {cs : List Char} {l : Lexeme} (h : radixInteger? cs = some l) :
    l.length ≤ cs.length := by
  unfold radixInteger? at h
  split at h
  · next mark tail =>
    have hle (p : Char → Bool) : 2 + (tail.takeWhile p).length ≤ ('0' :: mark :: tail).length := by
      rw [Nat.add_comm]
      exact Nat.add_le_add_right (List.takeWhile_sublist p).length_le 2
    simp only at h
    split at h
    · rw [(eq_of_ofLength? h).1]
      exact hle _
    · split at h
      · rw [(eq_of_ofLength? h).1]
        exact hle _
      · cases h
  · cases h

theorem Lexeme.length_le_of_symbol? {cs : List Char} {n : Nat} {op : String} (h : symbol? cs = some (n, op)) :
    n ≤ cs.length := by
  cases cs with
  | nil => cases h
  | cons c tail =>
    rw [symbol?] at h
    split at h
    · next d hd =>
      cases h
      obtain ⟨tail, rfl⟩ := List.head?_eq_some_iff.1 (Option.filter_eq_some_iff.1 hd).1
      exact Nat.le_add_left 2 tail.length
    · have hpos : 1 ≤ (c :: tail).length := Nat.le_add_left 1 tail.length
      split at h
      · cases h
        exact hpos
      · split at h <;> cases h
        exact hpos

/-- No token is longer than the text. -/
theorem Lexeme.length_le_of_recognise {cs : List Char} {l : Lexeme} (h : recognise g o cs = .ok l) :
    l.length ≤ cs.length := by
  cases cs with
  | nil => cases h
  | cons c tail =>
    rw [recognise] at h
    split at h
    · rw [quoted] at h
      split at h
      · next hquote =>
        split at h
        · cases h
          have hlt : Text.Quoted.bodyLength c tail < tail.length := by
            by_contra hge
            rw [List.drop_eq_nil_of_le (Nat.le_of_not_lt hge)] at hquote
            cases hquote
          exact Nat.succ_le_succ hlt
        · cases h
      · cases h
    · split at h
      · next hl =>
        cases h
        simp only [plain?, Option.orElse_eq_orElse, Option.orElse_eq_or, Option.or_eq_some_iff] at hl
        rcases hl with hl | ⟨-, hl | ⟨-, hl | ⟨-, hl | ⟨-, hl | ⟨-, hl | ⟨-, hl⟩⟩⟩⟩⟩⟩
        · exact length_le_of_radixInteger? hl
        · exact (eq_of_ofLength? hl).1.trans_le (Numeral.length_le_length _)
        · obtain ⟨op, hsymbol⟩ := exists_symbol_of_symbolOperator? hl
          exact length_le_of_symbol? hsymbol
        · exact (length_of_mark? hl).trans_le (Nat.le_add_left 1 tail.length)
        · exact (length_of_wordOperator? hl).trans_le (wordLength_le_length false _)
        · exact (length_of_constant? hl).trans_le (wordLength_le_length true _)
        · exact (eq_of_ofLength? hl).1.trans_le (nameLength_le_length _)
      · cases h

/-- The texts of tokens with a blank between any two. -/
def Tokens.spaced (ts : List Token) : String :=
  " ".intercalate (ts.map fun t => String.ofList t.text)

/-- Behind the text of the first token there is nothing, or a blank and the texts of the others. -/
theorem Tokens.exists_spaced_cons (t : Token) (ts : List Token) : ∃ rest, Parted rest ∧
    (spaced (t :: ts)).toList = t.text ++ rest ∧ ∀ {ks}, Scans g o (spaced ts).toList ks → Scans g o rest ks := by
  cases ts with
  | nil =>
    refine ⟨[], .nil, ?_, id⟩
    simp [spaced]
  | cons u ts =>
    refine ⟨_, .cons (spaced (u :: ts)).toList, ?_, Scans.blank⟩
    simp [spaced, String.toList_intercalate]

/-- The texts of the tokens from a cursor on, set apart, are those tokens alone. -/
theorem Tokens.scans_spaced (c : Cursor) {e : Token} (h : (ofCursor g o c).ending = .ok e) :
    Scans g o (spaced (ofCursor g o c).list).toList ((ofCursor g o c).list.map fun t => t.kind.alone g) := by
  induction c using Tokens.ofCursor.induct g o with
  | case1 c t next hstep later ih =>
    rw [ofCursor_of_token hstep] at h ⊢
    obtain ⟨hne, l, hl, rfl, rfl⟩ := Cursor.exists_lexeme_of_step hstep
    obtain ⟨rest, hrest, htext, hlater⟩ := exists_spaced_cons (g := g) (o := o) (c.skipGap.token l.length l.kind)
      (ofCursor g o (c.skipGap.forward l.length)).list
    obtain ⟨l', hl', hlength, hkind⟩ := recognise_take hl hrest
    have hgap : gapLength .outside (c.skipGap.rest.take l.length ++ rest) = 0 :=
      gapLength_take_append l.length_pos hne (gapLength_drop .outside c.rest) hrest
    have htake : (c.skipGap.rest.take l.length).length = l.length :=
      List.length_take_of_le (length_le_of_recognise hl)
    have htoken : recognise g o ((c.skipGap.rest.take l.length ++ rest).drop
        (gapLength .outside (c.skipGap.rest.take l.length ++ rest))) = .ok l' := by
      rw [hgap]
      exact hl'
    rw [htext, List.map_cons, Cursor.token, ← hkind]
    refine .token htoken ?_
    rw [hgap, List.drop_zero, hlength, List.drop_left' htake]
    exact hlater (ih h)
  | case2 c t hstep =>
    rw [ofCursor_of_finish hstep]
    exact .finish rfl
  | case3 c e' hstep =>
    rw [ofCursor_of_fault hstep] at h
    cases h

/-- A token is another one alone only if it is the name of a constant. -/
theorem TokenKind.isConstant_of_alone_ne {k : TokenKind} (h : k.alone g ≠ k) : ∃ n, k = .name n ∧ IsConstant g n := by
  cases k with
  | name n =>
    refine ⟨n, rfl, ?_⟩
    by_contra hconstant
    refine h ?_
    rw [alone]
    split
    · next hword =>
      have hnone : g.constant? n = none := by
        by_contra hsome
        exact hconstant ⟨hword, hsome⟩
      rw [hnone]
      rfl
    · rfl
  | _ => exact absurd rfl h

/-- Directly behind the name of a constant that is not the constant there is a dot. -/
theorem Cursor.StandsIn.standsAt_stop {code : String} {c : Cursor} {before : List Char} (h : c.StandsIn code before) :
    ∀ t ∈ (Tokens.ofCursor g o c).list, ∀ n, t.kind = .name n → IsConstant g n → StandsAt code t.stop ['.'] := by
  induction c using Tokens.ofCursor.induct g o generalizing before with
  | case1 c t next hstep later ih =>
    obtain ⟨-, l, hl, rfl, rfl⟩ := exists_lexeme_of_step hstep
    have hhere : c.skipGap.StandsIn code _ := h.forward _
    rw [Tokens.ofCursor_of_token hstep]
    intro u hu n hn hconstant
    rcases List.mem_cons.1 hu with rfl | hu
    · have hlexed := lexed_of_recognise (N := fun _ => True) (fun _ _ => trivial) hl
      have hkind : l.kind = .name n := hn
      rw [hkind] at hlexed
      obtain ⟨tail, htail⟩ := List.head?_eq_some_iff.1 (hlexed.2 hconstant)
      have hdot := (hhere.forward l.length).standsAt_take 1
      rw [hhere.stop_token]
      rwa [Cursor.forward, htail] at hdot
    · exact ih (hhere.forward l.length) u hu n hn hconstant
  | case2 c t hstep =>
    rw [Tokens.ofCursor_of_finish hstep]
    exact fun t ht => absurd ht List.not_mem_nil
  | case3 c e hstep =>
    rw [Tokens.ofCursor_of_fault hstep]
    exact fun t ht => absurd ht List.not_mem_nil

/-- With a blank between any two, the texts of the tokens of a code without a faulty one are read again without an error
and as the same tokens, except for the names of constants that have a dot directly behind them in the code: set apart
from the dot, they are the constants. -/
theorem Tokens.ofCode_spaced (g : Grammar) (o : Options) (code : String) {e : Token}
    (h : (ofCode g o code).ending = .ok e) :
    (∃ e', (ofCode g o (spaced (ofCode g o code).list)).ending = .ok e') ∧
      (ofCode g o (spaced (ofCode g o code).list)).list.map Token.kind =
        (ofCode g o code).list.map (fun t => t.kind.alone g) ∧
      ∀ t ∈ (ofCode g o code).list, t.kind.alone g ≠ t.kind →
        ∃ n, t.kind = .name n ∧ IsConstant g n ∧ StandsAt code t.stop ['.'] := by
  obtain ⟨hending, hkinds⟩ := scans_iff.1 (scans_spaced (.ofCode code) h)
  refine ⟨hending, hkinds, fun t ht hne => ?_⟩
  obtain ⟨n, hn, hconstant⟩ := TokenKind.isConstant_of_alone_ne hne
  exact ⟨n, hn, hconstant, Cursor.standsIn_ofCode.standsAt_stop t ht n hn hconstant⟩

/-- The tokens of `E.x`. -/
theorem Tokens.ofCode_field : ofCode .standard .standard "E.x" =
    ⟨[⟨.name "E", ⟨0, 1, 1⟩, ['E']⟩, ⟨.operator ".", ⟨1, 1, 2⟩, ['.']⟩, ⟨.name "x", ⟨2, 1, 3⟩, ['x']⟩],
      .ok ⟨.finish, ⟨3, 1, 4⟩, []⟩⟩ := by
  have hname : (Cursor.ofCode "E.x").step .standard .standard =
      .token ⟨.name "E", ⟨0, 1, 1⟩, ['E']⟩ ⟨⟨1, 1, 2⟩, ['.', 'x']⟩ := rfl
  have hdot : Cursor.step .standard .standard ⟨⟨1, 1, 2⟩, ['.', 'x']⟩ =
      .token ⟨.operator ".", ⟨1, 1, 2⟩, ['.']⟩ ⟨⟨2, 1, 3⟩, ['x']⟩ := rfl
  have hfield : Cursor.step .standard .standard ⟨⟨2, 1, 3⟩, ['x']⟩ =
      .token ⟨.name "x", ⟨2, 1, 3⟩, ['x']⟩ ⟨⟨3, 1, 4⟩, []⟩ := rfl
  have hend : Cursor.step .standard .standard ⟨⟨3, 1, 4⟩, []⟩ = .finish ⟨.finish, ⟨3, 1, 4⟩, []⟩ := rfl
  rw [ofCode, ofCursor_of_token hname, ofCursor_of_token hdot, ofCursor_of_token hfield, ofCursor_of_finish hend]

/-- The tokens of `E.x` are read again with blanks between them, but `E` is the number now. -/
theorem Tokens.ofCode_spaced_field :
    let ts := (ofCode .standard .standard "E.x").list
    (ofCode .standard .standard "E.x").ending = .ok ⟨.finish, ⟨3, 1, 4⟩, []⟩ ∧
      (∃ e, (ofCode .standard .standard (spaced ts)).ending = .ok e) ∧
      (ofCode .standard .standard (spaced ts)).list.map Token.kind = ts.map (fun t => t.kind.alone .standard) ∧
      ∀ t ∈ ts, t.kind.alone .standard ≠ t.kind →
        ∃ n, t.kind = .name n ∧ IsConstant .standard n ∧ StandsAt "E.x" t.stop ['.'] := by
  have hending : (ofCode .standard .standard "E.x").ending = .ok ⟨.finish, ⟨3, 1, 4⟩, []⟩ := by rw [ofCode_field]
  exact ⟨hending, Tokens.ofCode_spaced .standard .standard "E.x" hending⟩

/-- There is no error in `E.x`, but with blanks between its tokens, which is `E . x`, it has other ones: `E` is a number
there. -/
theorem Tokens.ofCode_spaced_ne :
    let ts := (ofCode .standard .standard "E.x").list
    (∃ e, (ofCode .standard .standard "E.x").ending = .ok e) ∧ spaced ts = "E . x" ∧
      (ofCode .standard .standard (spaced ts)).list.map Token.kind ≠ ts.map Token.kind := by
  have hspaced : spaced (ofCode .standard .standard "E.x").list = "E . x" := by
    rw [ofCode_field]
    rfl
  have hnumber : (Cursor.ofCode "E . x").step .standard .standard =
      .token ⟨.number Numeric.e, ⟨0, 1, 1⟩, ['E']⟩ ⟨⟨1, 1, 2⟩, [' ', '.', ' ', 'x']⟩ := rfl
  refine ⟨⟨_, by rw [ofCode_field]⟩, hspaced, ?_⟩
  rw [hspaced, ofCode_field, ofCode, ofCursor_of_token hnumber]
  rintro ⟨⟩

end Reckon
