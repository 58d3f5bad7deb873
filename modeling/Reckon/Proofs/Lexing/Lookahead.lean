import Reckon.Proofs.Rendering.Spelling

/-!
# How far the rules look ahead

What the rules of the lexer measure at the start of a text stays the same if the text is cut off behind it, or further
on, and nothing follows or what a gap starts with (`Settled`). So it is with numerals (`Numeral.settled_length`) and
words (`settled_wordLength`), and the body of a string ends where it is cut off in front of a quote
(`bodyLength_take_append`).
-/

namespace Reckon

open Lexeme

variable {rest : List Char}

/-- Text that is empty or starts with a blank. -/
def Parted (rest : List Char) : Prop :=
  ∀ c ∈ rest.head?, c = ' '

theorem Parted.nil : Parted [] := nofun

theorem Parted.cons (cs : List Char) : Parted (' ' :: cs) := by
  rintro _ ⟨⟩
  rfl

/-- What does not hold of a blank does not hold of the start of parted text. -/
theorem Parted.head (h : Parted rest) {p : Char → Bool} (hp : p ' ' = false) : ∀ c ∈ rest.head?, p c = false := by
  intro c hc
  rw [h c hc, hp]

theorem Parted.eq_nil_or_eq_cons (h : Parted rest) : rest = [] ∨ ∃ tail, rest = ' ' :: tail := by
  cases rest with
  | nil => exact .inl rfl
  | cons c tail =>
    obtain rfl := h c rfl
    exact .inr ⟨tail, rfl⟩

/-- The characters that gaps start with. -/
def separators : List Char := [' ', '\t', '\n', '\r', '/']

/-- Text that is empty or starts as a gap does. -/
def Apart (rest : List Char) : Prop :=
  ∀ c ∈ rest.head?, c ∈ separators

theorem Apart.nil : Apart [] := nofun

theorem Parted.apart (h : Parted rest) : Apart rest := by
  intro c hc
  rw [h c hc]
  exact List.mem_cons_self

theorem isDigit_separator : ∀ c ∈ separators, Numeral.isDigit c = false :=
  List.all_iff_forall_prop.1 (by decide)

/-- No separator is part of an exponent. -/
theorem separator_ne : ∀ c ∈ separators, ¬(c = 'e' ∨ c = 'E') ∧ ¬(c = '+' ∨ c = '-') :=
  List.all_iff_forall_prop.1 (by decide)

/-- No separator is part of a word. -/
theorem isWordChar_separator (dots : Bool) :
    ∀ c ∈ separators, isWordChar dots c = false ∧ Text.isAlphabetic c = false :=
  List.all_iff_forall_prop.1 (by cases dots <;> decide +kernel)

/-- What holds of no separator does not hold of the start of text apart. -/
theorem Apart.head (h : Apart rest) {p : Char → Bool} (hp : ∀ c ∈ separators, p c = false) :
    ∀ c ∈ rest.head?, p c = false :=
  fun c hc => hp c (h c hc)

/-- Of a text that is cut off there is nothing left, or its first character. -/
theorem take_append_cases (cs : List Char) (n : Nat) (rest : List Char) : cs.take n ++ rest = rest ∨
    ∃ c tail k, cs = c :: tail ∧ cs.take n ++ rest = c :: (tail.take k ++ rest) := by
  rcases cs with _ | ⟨c, tail⟩
  · exact .inl (by rw [List.take_nil, List.nil_append])
  · cases n with
    | zero => exact .inl rfl
    | succ k => exact .inr ⟨c, tail, k, rfl, rfl⟩

/-- A text that is cut off starts as before, or with what follows. -/
theorem head?_take_append {cs : List Char} {n : Nat} {c : Char} (hc : c ∈ (cs.take n ++ rest).head?) :
    c ∈ cs.head? ∨ c ∈ rest.head? := by
  rcases take_append_cases cs n rest with hcut | ⟨d, tail, k, rfl, hcut⟩
  · rw [hcut] at hc
    exact .inr hc
  · rw [hcut] at hc
    exact .inl hc

/-- A text that is cut off in front of a blank starts as before, or with the blank. -/
theorem Parted.head?_take_append (h : Parted rest) {cs : List Char} {n : Nat} {c : Char}
    (hc : c ∈ (cs.take n ++ rest).head?) : c ∈ cs.head? ∨ c = ' ' :=
  (Reckon.head?_take_append hc).imp_right (h c)

/-- A text that is cut off in front of a gap starts as before, or with a separator. -/
theorem Apart.head?_take_append (h : Apart rest) {cs : List Char} {n : Nat} {c : Char}
    (hc : c ∈ (cs.take n ++ rest).head?) : c ∈ cs.head? ∨ c ∈ separators :=
  (Reckon.head?_take_append hc).imp_right (h c)

/-! ## Measures -/

/-- The length of something at the start of a text, which stays the same if the text is cut off behind it and a gap
follows. -/
def Settled (length : List Char → Nat) : Prop :=
  ∀ (cs : List Char) (n : Nat) (rest : List Char), length cs ≤ n → Apart rest → length (cs.take n ++ rest) = length cs

/-- The prefix with a property stays the same if the text is cut off behind it. -/
theorem takeWhile_take_append {p : Char → Bool} {cs : List Char} {n : Nat} (hn : (cs.takeWhile p).length ≤ n)
    (hrest : ∀ c ∈ rest.head?, p c = false) : (cs.take n ++ rest).takeWhile p = cs.takeWhile p := by
  have hnil : ∀ c ∈ ([] : List Char), p c = true := List.forall_mem_nil _
  have hnone : rest.takeWhile p = [] := takeWhile_append_eq hnil hrest
  induction cs generalizing n with
  | nil => rw [List.take_nil, List.nil_append, hnone, List.takeWhile_nil]
  | cons c cs ih =>
    rw [List.takeWhile_cons] at hn ⊢
    by_cases hc : p c = true
    · rw [if_pos hc] at hn ⊢
      obtain ⟨n, rfl⟩ := Nat.exists_eq_add_one.2 (Nat.lt_of_lt_of_le (Nat.succ_pos _) hn)
      rw [List.take_succ_cons, List.cons_append, List.takeWhile_cons, if_pos hc, ih (Nat.le_of_succ_le_succ hn)]
    · rw [if_neg hc]
      cases n with
      | zero => exact hnone
      | succ n => rw [List.take_succ_cons, List.cons_append, List.takeWhile_cons, if_neg hc]

theorem settled_takeWhile {p : Char → Bool} (hp : ∀ c ∈ separators, p c = false) :
    Settled fun cs => (cs.takeWhile p).length :=
  fun _ _ _ hn hrest => congrArg List.length (takeWhile_take_append hn (hrest.head hp))

theorem Numeral.settled_digitCount : Settled digitCount :=
  settled_takeWhile isDigit_separator

theorem take_take_append {cs : List Char} {k n : Nat} (hk : k ≤ cs.length) (hn : k ≤ n) (rest : List Char) :
    (cs.take n ++ rest).take k = cs.take k := by
  have hle : k ≤ (cs.take n).length := by
    rw [List.length_take]
    exact Nat.le_min.2 ⟨hn, hk⟩
  rw [List.take_append_of_le_length hle, List.take_take, Nat.min_eq_left hn]

/-- Behind its first characters, a text that is cut off is the rest of them, cut off. -/
theorem drop_take_append {cs : List Char} {k n : Nat} (hk : k ≤ cs.length) (hn : k ≤ n) (rest : List Char) :
    (cs.take n ++ rest).drop k = (cs.drop k).take (n - k) ++ rest := by
  have hle : k ≤ (cs.take n).length := by
    rw [List.length_take]
    exact Nat.le_min.2 ⟨hn, hk⟩
  rw [List.drop_append_of_le_length hle, List.drop_take]

namespace Numeral

theorem mantissaLength_of_point {cs tail : List Char} (h : cs.drop (digitCount cs) = '.' :: tail) :
    mantissaLength cs =
      if digitCount cs = 0 ∧ digitCount tail = 0 then 0 else digitCount cs + 1 + digitCount tail := by
  rw [mantissaLength]
  simp only [h]

theorem mantissaLength_of_head? {cs : List Char} (h : (cs.drop (digitCount cs)).head? ≠ some '.') :
    mantissaLength cs = digitCount cs := by
  rw [mantissaLength]
  split
  · next heq => exact absurd (by rw [heq]; rfl) h
  · rfl

theorem digitCount_le_length (cs : List Char) : digitCount cs ≤ cs.length :=
  (List.takeWhile_sublist _).length_le

theorem settled_mantissaLength : Settled mantissaLength := by
  intro cs n rest hn hrest
  by_cases hcs : (cs.drop (digitCount cs)).head? = some '.'
  · obtain ⟨tail, htail⟩ := List.head?_eq_some_iff.1 hcs
    rw [mantissaLength_of_point htail] at hn ⊢
    obtain ⟨hwhole, hfraction⟩ : digitCount cs ≤ n ∧ digitCount tail ≤ n - digitCount cs - 1 := by
      split at hn <;> omega
    have hcount : digitCount (cs.take n ++ rest) = digitCount cs := settled_digitCount cs n rest hwhole hrest
    have hdrop := drop_take_append (digitCount_le_length cs) hwhole rest
    rw [htail] at hdrop
    cases hk : n - digitCount cs with
    | zero =>
      -- the text is cut off in front of the point, which is part of no numeral then
      rw [hk, List.take_zero, List.nil_append] at hdrop
      have hnone : digitCount cs = 0 ∧ digitCount tail = 0 := by
        by_contra hsome
        rw [if_neg hsome] at hn
        omega
      rw [if_pos hnone, mantissaLength_of_head?, hcount, hnone.1]
      rw [hcount, hdrop]
      exact fun hdot => absurd (hrest '.' hdot) (by decide)
    | succ k =>
      rw [hk, List.take_succ_cons, List.cons_append] at hdrop
      have hcount' : digitCount (tail.take k ++ rest) = digitCount tail :=
        settled_digitCount tail k rest (by omega) hrest
      rw [mantissaLength_of_point (hcount.symm ▸ hdrop), hcount, hcount']
  · rw [mantissaLength_of_head? hcs] at hn ⊢
    have hcount : digitCount (cs.take n ++ rest) = digitCount cs := settled_digitCount cs n rest hn hrest
    refine (mantissaLength_of_head? fun hdot => ?_).trans hcount
    rw [hcount, drop_take_append (digitCount_le_length cs) hn] at hdot
    rcases hrest.head?_take_append hdot with h | h
    · exact hcs h
    · exact absurd h (by decide)

theorem exponentLength_of_head? {cs : List Char} (h : ∀ c ∈ cs.head?, ¬(c = 'e' ∨ c = 'E')) :
    exponentLength cs = 0 := by
  cases cs with
  | nil => rfl
  | cons c tail => exact if_neg (h c rfl)

theorem exponentLength_of_sign {c s : Char} (hc : c = 'e' ∨ c = 'E') (hs : s = '+' ∨ s = '-') (ds : List Char) :
    exponentLength (c :: s :: ds) = if digitCount ds = 0 then 0 else 2 + digitCount ds := by
  rw [exponentLength.eq_def]
  simp only [if_pos hc, if_pos hs, List.drop_succ_cons, List.drop_zero]

theorem exponentLength_of_no_sign {c : Char} (hc : c = 'e' ∨ c = 'E') {ds : List Char}
    (hs : ∀ s ∈ ds.head?, ¬(s = '+' ∨ s = '-')) :
    exponentLength (c :: ds) = if digitCount ds = 0 then 0 else 1 + digitCount ds := by
  rw [exponentLength.eq_def]
  cases ds with
  | nil => simp only [if_pos hc, List.drop_zero, Nat.add_zero]
  | cons s ds => simp only [if_pos hc, if_neg (hs s rfl), List.drop_zero, Nat.add_zero]

theorem settled_exponentLength : Settled exponentLength := by
  intro cs n rest hn hrest
  by_cases hcs : ∀ c ∈ cs.head?, ¬(c = 'e' ∨ c = 'E')
  · rw [exponentLength_of_head? hcs]
    refine exponentLength_of_head? fun c hc => ?_
    rcases hrest.head?_take_append hc with h | h
    · exact hcs c h
    · exact (separator_ne c h).1
  · push Not at hcs
    obtain ⟨c, hhead, hc⟩ := hcs
    obtain ⟨tail, rfl⟩ := List.head?_eq_some_iff.1 hhead
    cases n with
    | zero =>
      rw [Nat.le_zero.1 hn]
      exact exponentLength_of_head? fun d hd => (separator_ne d (hrest d hd)).1
    | succ n =>
      rw [List.take_succ_cons, List.cons_append]
      by_cases hsign : ∀ s ∈ tail.head?, ¬(s = '+' ∨ s = '-')
      · have hsign' : ∀ s ∈ (tail.take n ++ rest).head?, ¬(s = '+' ∨ s = '-') := by
          intro s hs
          rcases hrest.head?_take_append hs with h | h
          · exact hsign s h
          · exact (separator_ne s h).2
        rw [exponentLength_of_no_sign hc hsign] at hn ⊢
        rw [exponentLength_of_no_sign hc hsign', settled_digitCount tail n rest (by split at hn <;> omega) hrest]
      · push Not at hsign
        obtain ⟨s, hhead, hs⟩ := hsign
        obtain ⟨ds, rfl⟩ := List.head?_eq_some_iff.1 hhead
        rw [exponentLength_of_sign hc hs] at hn ⊢
        cases n with
        | zero =>
          -- behind `e` there is a gap now, and there were no digits before
          have hnil : ∀ c ∈ ([] : List Char), isDigit c = true := List.forall_mem_nil _
          have hnone : digitCount rest = 0 := digitCount_append hnil (hrest.head isDigit_separator)
          rw [List.take_zero, List.nil_append,
            exponentLength_of_no_sign hc fun s hs => (separator_ne s (hrest s hs)).2, if_pos hnone]
          split at hn
          · next h => rw [if_pos h]
          · omega
        | succ n =>
          rw [List.take_succ_cons, List.cons_append, exponentLength_of_sign hc hs,
            settled_digitCount ds n rest (by split at hn <;> omega) hrest]

theorem mantissaLength_le_length (cs : List Char) : mantissaLength cs ≤ cs.length := by
  by_cases hcs : (cs.drop (digitCount cs)).head? = some '.'
  · obtain ⟨tail, htail⟩ := List.head?_eq_some_iff.1 hcs
    have hlength : cs.length - digitCount cs = tail.length + 1 := by
      rw [← List.length_drop, htail, List.length_cons]
    have hfraction := digitCount_le_length tail
    rw [mantissaLength_of_point htail]
    split <;> omega
  · rw [mantissaLength_of_head? hcs]
    exact digitCount_le_length cs

theorem exponentLength_le_length (cs : List Char) : exponentLength cs ≤ cs.length := by
  by_cases hcs : ∀ c ∈ cs.head?, ¬(c = 'e' ∨ c = 'E')
  · rw [exponentLength_of_head? hcs]
    exact Nat.zero_le _
  · push Not at hcs
    obtain ⟨c, hhead, hc⟩ := hcs
    obtain ⟨tail, rfl⟩ := List.head?_eq_some_iff.1 hhead
    by_cases hsign : ∀ s ∈ tail.head?, ¬(s = '+' ∨ s = '-')
    · have hcount := digitCount_le_length tail
      rw [exponentLength_of_no_sign hc hsign, List.length_cons]
      split <;> omega
    · push Not at hsign
      obtain ⟨s, hhead, hs⟩ := hsign
      obtain ⟨ds, rfl⟩ := List.head?_eq_some_iff.1 hhead
      have hcount := digitCount_le_length ds
      rw [exponentLength_of_sign hc hs, List.length_cons, List.length_cons]
      split <;> omega

theorem length_le_length (cs : List Char) : length cs ≤ cs.length := by
  have hmantissa := mantissaLength_le_length cs
  have hexponent := exponentLength_le_length (cs.drop (mantissaLength cs))
  rw [List.length_drop] at hexponent
  rw [length]
  split <;> omega

theorem settled_length : Settled length := by
  intro cs n rest hn hrest
  by_cases hzero : mantissaLength cs = 0
  · have hmantissa := settled_mantissaLength cs n rest (hzero ▸ Nat.zero_le n) hrest
    simp only [length, hmantissa, hzero, if_true]
  · have hlength : length cs = mantissaLength cs + exponentLength (cs.drop (mantissaLength cs)) := if_neg hzero
    rw [hlength] at hn ⊢
    have hmantissa := settled_mantissaLength cs n rest (Nat.le_of_add_right_le hn) hrest
    have hexponent := settled_exponentLength (cs.drop (mantissaLength cs)) (n - mantissaLength cs) rest (by omega) hrest
    rw [length]
    simp only [hmantissa, if_neg hzero,
      drop_take_append (mantissaLength_le_length cs) (Nat.le_of_add_right_le hn) rest, hexponent]

end Numeral

/-! ## Words -/

theorem settled_wordLength (dots : Bool) : Settled (wordLength dots) := by
  intro cs n rest hn hrest
  by_cases hcs : StartsWord cs
  · have hstart : StartsWord (cs.take n ++ rest) := by
      obtain ⟨c, hc, halphabetic⟩ := hcs
      obtain ⟨tail, rfl⟩ := List.head?_eq_some_iff.1 hc
      have hpos : 0 < wordLength dots (c :: tail) := by
        rw [wordLength, if_pos halphabetic]
        exact Nat.add_pos_left Nat.one_pos _
      obtain ⟨n, rfl⟩ := Nat.exists_eq_add_one.2 (Nat.lt_of_lt_of_le hpos hn)
      exact ⟨c, rfl, halphabetic⟩
    have hseparator : ∀ c ∈ separators, isWordChar dots c = false := fun c hc => (isWordChar_separator dots c hc).1
    rw [wordLength_eq_takeWhile hcs] at hn ⊢
    rw [wordLength_eq_takeWhile hstart]
    exact settled_takeWhile hseparator cs n rest hn hrest
  · rw [wordLength_eq_zero hcs]
    refine wordLength_eq_zero ?_
    rintro ⟨c, hc, halphabetic⟩
    rcases hrest.head?_take_append hc with h | h
    · exact hcs ⟨c, h, halphabetic⟩
    · exact absurd halphabetic (Bool.eq_false_iff.1 (isWordChar_separator dots c h).2)

theorem wordLength_le_length (dots : Bool) (cs : List Char) : wordLength dots cs ≤ cs.length := by
  by_cases hcs : StartsWord cs
  · rw [wordLength_eq_takeWhile hcs]
    exact (List.takeWhile_sublist _).length_le
  · rw [wordLength_eq_zero hcs]
    exact Nat.zero_le _

theorem nameLength_le_length (cs : List Char) : nameLength cs ≤ cs.length := by
  by_cases hzero : nameLength cs = 0
  · rw [hzero]
    exact Nat.zero_le _
  · obtain ⟨w, tail, rfl, hlength, -⟩ := exists_name hzero
    rw [← hlength, List.length_append]
    exact Nat.le_add_right _ _

/-- A name is a word unless it starts with `$` or `_`. -/
theorem wordLength_le_nameLength (cs : List Char) : wordLength false cs ≤ nameLength cs := by
  cases cs with
  | nil => exact Nat.le_refl _
  | cons c tail =>
    by_cases hc : c = '$' ∨ c = '_'
    · rw [wordLength_eq_zero (not_startsWord hc tail)]
      exact Nat.zero_le _
    · rw [nameLength, if_neg hc]

theorem wordLength_false_le_true (cs : List Char) : wordLength false cs ≤ wordLength true cs := by
  by_cases hzero : wordLength false cs = 0
  · rw [hzero]
    exact Nat.zero_le _
  · obtain ⟨w, tail, rfl, hlength, hword, -⟩ := exists_word hzero
    rw [← hlength, wordLength_eq_takeWhile (hword.1.append tail), List.takeWhile_append_of_pos (hword.isWordChar true),
      List.length_append]
    exact Nat.le_add_right _ _

/-! ## Strings -/

theorem bodyLength_quote (quote : Char) (cs : List Char) : Text.Quoted.bodyLength quote (quote :: cs) = 0 := by
  rw [Text.Quoted.bodyLength.eq_def]
  exact if_pos rfl

theorem bodyLength_escape {quote : Char} (hquote : '\\' ≠ quote) (c : Char) (cs : List Char) :
    Text.Quoted.bodyLength quote ('\\' :: c :: cs) = Text.Quoted.bodyLength quote cs + 2 := by
  rw [Text.Quoted.bodyLength.eq_def, Nat.add_comm]
  exact if_neg hquote

theorem bodyLength_char {quote c : Char} (hquote : c ≠ quote) (hbackslash : c ≠ '\\') (cs : List Char) :
    Text.Quoted.bodyLength quote (c :: cs) = Text.Quoted.bodyLength quote cs + 1 := by
  rw [Text.Quoted.bodyLength.eq_def, Nat.add_comm]
  exact (if_neg hquote).trans (if_neg hbackslash)

/-- The body of a string ends where it is cut off in front of a quote. -/
theorem bodyLength_take_append (quote : Char) (cs rest : List Char) :
    Text.Quoted.bodyLength quote (cs.take (Text.Quoted.bodyLength quote cs) ++ quote :: rest) =
      Text.Quoted.bodyLength quote cs := by
  induction cs using Text.Quoted.bodyLength.induct quote with
  | case1 => exact bodyLength_quote quote rest
  | case2 tail =>
    rw [bodyLength_quote quote tail]
    exact bodyLength_quote quote rest
  | case3 hquote =>
    have hzero : Text.Quoted.bodyLength quote ['\\'] = 0 := if_neg hquote
    rw [hzero]
    exact bodyLength_quote quote rest
  | case4 c tail hquote ih =>
    rw [bodyLength_escape hquote, List.take_succ_cons, List.take_succ_cons]
    exact (bodyLength_escape hquote c _).trans (congrArg (· + 2) ih)
  | case5 c tail hquote hbackslash ih =>
    rw [bodyLength_char hquote hbackslash, List.take_succ_cons]
    exact (bodyLength_char hquote hbackslash _).trans (congrArg (· + 1) ih)

end Reckon
