import Reckon.Proofs.Lexing.Separation
import Reckon.Proofs.Rendering.Seams

/-!
# Decimal numbers

A decimal number is written with a mantissa and possibly an exponent (`Numeral.IsNumeral`). What the lexer measures at
the start of a text is the longest part that is written so (`Numeral.longest_length`): each piece takes all digits there
are, and no character of a mantissa starts an exponent. Such a part is read as a number (`Numeral.parse_isSome_iff`),
so a text that starts as a decimal number does begins with the token of one (`Cursor.step_decimal`).
-/

namespace Reckon

open Lexeme

namespace Numeral

/-! ## Forms of numbers -/

/-- One or more digits. -/
def IsDigits (cs : List Char) : Prop :=
  cs ≠ [] ∧ ∀ c ∈ cs, isDigit c = true

/-- `D+ ('.' D*)? | '.' D+`. -/
inductive IsMantissa : List Char → Prop
  | whole {ds : List Char} (hds : IsDigits ds) : IsMantissa ds
  | pointed {ds fs : List Char} (hds : IsDigits ds) (hfs : ∀ c ∈ fs, isDigit c = true) : IsMantissa (ds ++ '.' :: fs)
  | fraction {fs : List Char} (hfs : IsDigits fs) : IsMantissa ('.' :: fs)

/-- `[eE] [+-]? D+`. -/
inductive IsExponent : List Char → Prop
  | unsigned {c : Char} {ds : List Char} (hc : c = 'e' ∨ c = 'E') (hds : IsDigits ds) : IsExponent (c :: ds)
  | signed {c s : Char} {ds : List Char} (hc : c = 'e' ∨ c = 'E') (hs : s = '+' ∨ s = '-') (hds : IsDigits ds) :
    IsExponent (c :: s :: ds)

/-- A mantissa, and behind it an exponent or nothing. -/
def IsNumeral (cs : List Char) : Prop :=
  ∃ m e, cs = m ++ e ∧ IsMantissa m ∧ (e = [] ∨ IsExponent e)

/-- `inf`, `infinity` or `nan`, in any case. -/
def IsSpecial (cs : List Char) : Prop :=
  cs.map Char.toLower ∈ ["inf".toList, "infinity".toList, "nan".toList]

/-- How a double may be written: a numeral or a special value, behind a sign or without one. -/
def IsFloatText (cs : List Char) : Prop :=
  ∃ sign body, cs = sign ++ body ∧ sign ∈ [[], ['+'], ['-']] ∧ (IsNumeral body ∨ IsSpecial body)

variable {cs : List Char}

theorem IsMantissa.ne_nil (h : IsMantissa cs) : cs ≠ [] := by
  cases h with
  | whole hds => exact hds.1
  | pointed hds hfs => simp
  | fraction hfs => simp

theorem IsNumeral.ne_nil (h : IsNumeral cs) : cs ≠ [] := by
  obtain ⟨m, e, rfl, hm, -⟩ := h
  simp [hm.ne_nil]

/-- A mantissa has no letters. -/
theorem IsMantissa.mem (h : IsMantissa cs) : ∀ c ∈ cs, isDigit c = true ∨ c = '.' := by
  intro c hc
  cases h with
  | whole hds => exact .inl (hds.2 c hc)
  | pointed hds hfs =>
    rcases List.mem_append.1 hc with hc | hc
    · exact .inl (hds.2 c hc)
    · exact (List.mem_cons.1 hc).symm.imp_left (hfs c)
  | fraction hfs => exact (List.mem_cons.1 hc).symm.imp_left (hfs.2 c)

/-- Digits, or a point with digits on one of its sides. -/
theorem isMantissa_iff : IsMantissa cs ↔ IsDigits cs ∨ ∃ ds fs, cs = ds ++ '.' :: fs ∧ (ds ≠ [] ∨ fs ≠ []) ∧
    (∀ c ∈ ds, isDigit c = true) ∧ ∀ c ∈ fs, isDigit c = true := by
  constructor
  · intro h
    cases h with
    | whole hds => exact .inl hds
    | pointed hds hfs => exact .inr ⟨_, _, rfl, .inl hds.1, hds.2, hfs⟩
    | fraction hfs => exact .inr ⟨[], _, rfl, .inr hfs.1, List.forall_mem_nil _, hfs.2⟩
  · rintro (h | ⟨ds, fs, rfl, hne, hds, hfs⟩)
    · exact .whole h
    · by_cases hnil : ds = []
      · subst hnil
        exact .fraction ⟨hne.resolve_left fun h => h rfl, hfs⟩
      · exact .pointed ⟨hnil, hds⟩ hfs

theorem IsExponent.exists_head (h : IsExponent cs) : ∃ c tail, cs = c :: tail ∧ (c = 'e' ∨ c = 'E') := by
  cases h with
  | unsigned hc hds => exact ⟨_, _, rfl, hc⟩
  | signed hc hs hds => exact ⟨_, _, rfl, hc⟩

/-! ## The longest part -/

/-- The first `n` characters of a text are its longest first part of a form, if there is any. -/
structure Longest (form : List Char → Prop) (cs : List Char) (n : Nat) : Prop where
  /-- They have the form. -/
  holds : n ≠ 0 → form (cs.take n)
  /-- No part that has the form is longer. -/
  bound : ∀ part rest, cs = part ++ rest → form part → part.length ≤ n

theorem longest_digitCount (cs : List Char) : Longest IsDigits cs (digitCount cs) := by
  obtain ⟨ds, ls, rfl, hds, hls⟩ := exists_digits cs
  rw [digitCount_append hds hls]
  constructor
  · intro hne
    rw [List.take_left]
    exact ⟨fun hnil => hne (List.length_eq_zero_iff.2 hnil), hds⟩
  · intro part rest htext hpart
    rw [← digitCount_append hds hls, digitCount, htext, List.takeWhile_append_of_pos hpart.2, List.length_append]
    exact Nat.le_add_right _ _

/-- Digits are all that there are up to a character that is none. -/
theorem digits_inj {ds ds' rest rest' : List Char} (h : ∀ c ∈ ds, isDigit c = true) (h' : ∀ c ∈ ds', isDigit c = true)
    (hrest : ∀ c ∈ rest.head?, isDigit c = false) (hrest' : ∀ c ∈ rest'.head?, isDigit c = false)
    (heq : ds ++ rest = ds' ++ rest') : ds = ds' ∧ rest = rest' := by
  have hds : ds = ds' := by
    rw [← takeWhile_append_eq h hrest, heq, takeWhile_append_eq h' hrest']
  subst hds
  exact ⟨rfl, List.append_cancel_left heq⟩

/-- A point belongs to a mantissa if there is a digit next to it. -/
theorem longest_mantissaLength_point {ds fs ls : List Char} (hds : ∀ c ∈ ds, isDigit c = true)
    (hfs : ∀ c ∈ fs, isDigit c = true) (hls : ∀ c ∈ ls.head?, isDigit c = false) :
    Longest IsMantissa (ds ++ '.' :: (fs ++ ls)) (mantissaLength (ds ++ '.' :: (fs ++ ls))) := by
  have hpoint : ∀ c ∈ ('.' :: (fs ++ ls)).head?, isDigit c = false := by
    rintro _ ⟨⟩
    rfl
  have hcount : digitCount (ds ++ '.' :: (fs ++ ls)) = ds.length := digitCount_append hds hpoint
  have hlength : mantissaLength (ds ++ '.' :: (fs ++ ls)) =
      if ds = [] ∧ fs = [] then 0 else (ds ++ '.' :: fs).length := by
    rw [mantissaLength_of_point (by rw [hcount, List.drop_left]), hcount, digitCount_append hfs hls]
    simp only [List.length_eq_zero_iff, List.length_append, List.length_cons]
    split <;> omega
  have hfound (hne : ds ≠ [] ∨ fs ≠ []) : mantissaLength (ds ++ '.' :: (fs ++ ls)) = (ds ++ '.' :: fs).length :=
    hlength.trans (if_neg (not_and_or.2 hne))
  constructor
  · intro hne
    have hsome : ds ≠ [] ∨ fs ≠ [] := by
      by_contra hnone
      exact hne (hlength.trans (if_pos (by simpa using hnone)))
    have htext : ds ++ '.' :: (fs ++ ls) = (ds ++ '.' :: fs) ++ ls := by simp
    rw [hfound hsome, htext, List.take_left]
    exact isMantissa_iff.2 (.inr ⟨ds, fs, rfl, hsome, hds, hfs⟩)
  · intro part rest htext hpart
    rcases isMantissa_iff.1 hpart with hdigits | ⟨ds', fs', rfl, hne, hds', hfs'⟩
    · have hle := (longest_digitCount _).bound part rest htext hdigits
      have hpos := List.length_pos_iff.2 hdigits.1
      rw [hcount] at hle
      rw [hfound (.inl (List.length_pos_iff.1 (Nat.lt_of_lt_of_le hpos hle))), List.length_append]
      omega
    · rw [List.append_assoc, List.cons_append] at htext
      obtain ⟨rfl, htail⟩ := digits_inj hds hds' hpoint (by rintro _ ⟨⟩; rfl) htext
      have hle : fs'.length ≤ fs.length := by
        by_cases hnil : fs' = []
        · simp [hnil]
        · rw [← digitCount_append hfs hls]
          exact (longest_digitCount _).bound fs' rest (List.cons.inj htail).2 ⟨hnil, hfs'⟩
      have hsome : ds ≠ [] ∨ fs ≠ [] :=
        hne.imp_right fun h => List.length_pos_iff.1 (Nat.lt_of_lt_of_le (List.length_pos_iff.2 h) hle)
      rw [hfound hsome, List.length_append, List.length_append, List.length_cons, List.length_cons]
      omega

theorem longest_mantissaLength (cs : List Char) : Longest IsMantissa cs (mantissaLength cs) := by
  obtain ⟨ds, ls, rfl, hds, hls⟩ := exists_digits cs
  by_cases hpoint : ls.head? = some '.'
  · obtain ⟨tail, rfl⟩ := List.head?_eq_some_iff.1 hpoint
    obtain ⟨fs, ls, rfl, hfs, hfollow⟩ := exists_digits tail
    exact longest_mantissaLength_point hds hfs hfollow
  · have hlength : mantissaLength (ds ++ ls) = digitCount (ds ++ ls) := by
      refine mantissaLength_of_head? ?_
      rwa [digitCount_append hds hls, List.drop_left]
    rw [hlength]
    refine ⟨fun hne => .whole ((longest_digitCount _).holds hne), fun part rest htext hpart => ?_⟩
    rcases isMantissa_iff.1 hpart with hdigits | ⟨ds', fs', rfl, -, hds', -⟩
    · exact (longest_digitCount _).bound part rest htext hdigits
    · rw [List.append_assoc, List.cons_append] at htext
      obtain ⟨-, rfl⟩ := digits_inj hds hds' hls (by rintro _ ⟨⟩; rfl) htext
      exact absurd rfl hpoint

/-- Behind a front that every part of the form has, as many digits as there are make the longest part. -/
theorem longest_front {form : List Char → Prop} (front : List Char) {tail : List Char}
    (hform : ∀ ds, IsDigits ds → form (front ++ ds))
    (hfront : ∀ part rest, front ++ tail = part ++ rest → form part → ∃ ds, IsDigits ds ∧ part = front ++ ds) :
    Longest form (front ++ tail) (if digitCount tail = 0 then 0 else front.length + digitCount tail) := by
  constructor
  · intro hne
    have hsome : digitCount tail ≠ 0 := fun hzero => hne (if_pos hzero)
    rw [if_neg hsome, List.take_length_add_append]
    exact hform _ ((longest_digitCount tail).holds hsome)
  · intro part rest htext hpart
    obtain ⟨ds, hds, rfl⟩ := hfront part rest htext hpart
    rw [List.append_assoc] at htext
    have hle := (longest_digitCount tail).bound ds rest (List.append_cancel_left htext) hds
    have hpos := List.length_pos_iff.2 hds.1
    rw [if_neg (by omega), List.length_append]
    omega

theorem longest_exponentLength (cs : List Char) : Longest IsExponent cs (exponentLength cs) := by
  by_cases hcs : ∀ c ∈ cs.head?, ¬(c = 'e' ∨ c = 'E')
  · rw [exponentLength_of_head? hcs]
    refine ⟨fun hne => absurd rfl hne, ?_⟩
    rintro part rest rfl hpart
    obtain ⟨c, tail, rfl, hc⟩ := hpart.exists_head
    exact absurd hc (hcs c rfl)
  · push Not at hcs
    obtain ⟨c, hhead, hc⟩ := hcs
    obtain ⟨tail, rfl⟩ := List.head?_eq_some_iff.1 hhead
    by_cases hsign : ∀ s ∈ tail.head?, ¬(s = '+' ∨ s = '-')
    · rw [exponentLength_of_no_sign hc hsign]
      refine longest_front [c] (fun ds hds => .unsigned hc hds) fun part rest htext hpart => ?_
      cases hpart with
      | @unsigned c' ds hc' hds =>
        obtain ⟨rfl, -⟩ := List.cons.inj htext
        exact ⟨ds, hds, rfl⟩
      | @signed c' s ds hc' hs hds =>
        refine absurd hs (hsign s ?_)
        rw [show tail = s :: (ds ++ rest) from (List.cons.inj htext).2]
        rfl
    · push Not at hsign
      obtain ⟨s, hhead, hs⟩ := hsign
      obtain ⟨tail, rfl⟩ := List.head?_eq_some_iff.1 hhead
      rw [exponentLength_of_sign hc hs]
      refine longest_front [c, s] (fun ds hds => .signed hc hs hds) fun part rest htext hpart => ?_
      cases hpart with
      | @unsigned c' ds hc' hds =>
        -- a sign is no digit
        obtain ⟨d, ds, rfl⟩ := List.exists_cons_of_ne_nil hds.1
        have hdigit := hds.2 d (.head _)
        rw [← (List.cons.inj (List.cons.inj htext).2).1] at hdigit
        rcases hs with rfl | rfl <;> cases hdigit
      | @signed c' s' ds hc' hs' hds =>
        obtain ⟨rfl, htail⟩ := List.cons.inj htext
        obtain ⟨rfl, -⟩ := List.cons.inj htail
        exact ⟨ds, hds, rfl⟩

theorem longest_length (cs : List Char) : Longest IsNumeral cs (length cs) := by
  obtain ⟨hmantissa, hmantissa'⟩ := longest_mantissaLength cs
  obtain ⟨hexponent, hexponent'⟩ := longest_exponentLength (cs.drop (mantissaLength cs))
  have hlength : mantissaLength cs ≠ 0 →
    length cs = mantissaLength cs + exponentLength (cs.drop (mantissaLength cs)) := fun hne => if_neg hne
  constructor
  · intro hne
    have hsome : mantissaLength cs ≠ 0 := by
      intro hzero
      rw [length, hzero] at hne
      exact hne rfl
    rw [hlength hsome, List.take_add]
    refine ⟨_, _, rfl, hmantissa hsome, ?_⟩
    by_cases hzero : exponentLength (cs.drop (mantissaLength cs)) = 0
    · rw [hzero]
      exact .inl rfl
    · exact .inr (hexponent hzero)
  · rintro _ rest htext ⟨m, e, rfl, hm, he⟩
    rw [List.append_assoc] at htext
    have hle := hmantissa' m (e ++ rest) htext hm
    have hpos := List.length_pos_iff.2 hm.ne_nil
    have hsome : mantissaLength cs ≠ 0 := by omega
    rw [hlength hsome, List.length_append]
    rcases he with rfl | he
    · rw [List.length_nil]
      omega
    · -- an exponent starts with a letter, so the longest mantissa ends in front of it
      have heq : m.length = mantissaLength cs := by
        by_contra hne
        obtain ⟨c, tail, rfl, hc⟩ := he.exists_head
        have hmem : c ∈ cs.take (mantissaLength cs) := by
          refine List.mem_of_getElem? (i := m.length) ?_
          rw [List.getElem?_take_of_lt (by omega), htext]
          simp
        rcases (hmantissa hsome).mem c hmem with hdigit | rfl
        · rcases hc with rfl | rfl <;> cases hdigit
        · exact absurd hc (by decide)
      have hrest : cs.drop (mantissaLength cs) = e ++ rest := by rw [← heq, htext, List.drop_left]
      have := hexponent' e rest hrest he
      omega

/-! ## Reading -/

/-- The whole of a text is measured if and only if it is a numeral. -/
theorem decimal?_isSome_iff (cs : List Char) : (decimal? cs).isSome = true ↔ IsNumeral cs := by
  have hiff : (decimal? cs).isSome = true ↔ cs ≠ [] ∧ length cs = cs.length := by
    rw [decimal?]
    split
    · next h => exact iff_of_true rfl h
    · next h => exact iff_of_false Bool.false_ne_true h
  rw [hiff]
  constructor
  · rintro ⟨hne, hlength⟩
    have hholds := (longest_length cs).holds (by rwa [hlength, Ne, List.length_eq_zero_iff])
    rwa [hlength, List.take_length] at hholds
  · intro h
    refine ⟨h.ne_nil, Nat.le_antisymm (length_le_length cs) ?_⟩
    exact (longest_length cs).bound cs [] (List.append_nil cs).symm h

theorem splitSign_of_head? (h : ∀ c ∈ cs.head?, c ≠ '-' ∧ c ≠ '+') : splitSign cs = (false, cs) := by
  unfold splitSign
  split
  · exact absurd rfl (h '-' rfl).1
  · exact absurd rfl (h '+' rfl).2
  · rfl

theorem exists_splitSign (cs : List Char) : ∃ sign, sign ∈ [[], ['+'], ['-']] ∧ cs = sign ++ (splitSign cs).2 := by
  unfold splitSign
  split
  · exact ⟨['-'], by simp, rfl⟩
  · exact ⟨['+'], by simp, rfl⟩
  · exact ⟨[], by simp, rfl⟩

/-- Neither numerals nor special values start with a sign. -/
theorem not_sign (h : IsNumeral cs ∨ IsSpecial cs) : ∀ c ∈ cs.head?, c ≠ '-' ∧ c ≠ '+' := by
  intro c hc
  obtain ⟨tail, rfl⟩ := List.head?_eq_some_iff.1 hc
  rcases h with ⟨m, e, htext, hm, -⟩ | h
  · obtain ⟨d, ds, rfl⟩ := List.exists_cons_of_ne_nil hm.ne_nil
    cases htext
    have hmem := hm.mem c (.head _)
    constructor <;> (rintro rfl; revert hmem; decide)
  · constructor <;> (rintro rfl; simp [IsSpecial] at h)

/-- Behind its sign, a text that is read as a number is a numeral or a special value. -/
theorem parse_isSome_of_splitSign {negative : Bool} {body : List Char} (h : splitSign cs = (negative, body)) :
    (parse cs).isSome = true ↔ IsNumeral body ∨ IsSpecial body := by
  rw [← decimal?_isSome_iff, IsSpecial]
  simp only [parse, h]
  cases decimal? body with
  | some d => exact iff_of_true rfl (.inl rfl)
  | none =>
    simp only [Option.isSome_none, Bool.false_eq_true, false_or, List.mem_cons, List.not_mem_nil, or_false]
    by_cases hinf : body.map Char.toLower = "inf".toList ∨ body.map Char.toLower = "infinity".toList
    · rw [if_pos hinf]
      exact iff_of_true rfl (or_assoc.1 (.inl hinf))
    · rw [if_neg hinf, ← or_assoc]
      by_cases hnan : body.map Char.toLower = "nan".toList
      · rw [if_pos hnan]
        exact iff_of_true rfl (.inr hnan)
      · rw [if_neg hnan]
        exact iff_of_false Bool.false_ne_true (not_or.2 ⟨hinf, hnan⟩)

/-- A number is read from every text that may be a double, and from no other. -/
theorem parse_isSome_iff (cs : List Char) : (parse cs).isSome = true ↔ IsFloatText cs := by
  constructor
  · intro h
    obtain ⟨sign, hsign, htext⟩ := exists_splitSign cs
    exact ⟨sign, _, htext, hsign, (parse_isSome_of_splitSign rfl).1 h⟩
  · rintro ⟨sign, body, rfl, hsign, h⟩
    have hsplit : ∃ negative, splitSign (sign ++ body) = (negative, body) := by
      simp only [List.mem_cons, List.not_mem_nil, or_false] at hsign
      rcases hsign with rfl | rfl | rfl
      · exact ⟨false, splitSign_of_head? (not_sign h)⟩
      · exact ⟨false, rfl⟩
      · exact ⟨true, rfl⟩
    obtain ⟨negative, hsplit⟩ := hsplit
    exact (parse_isSome_of_splitSign hsplit).2 h

theorem parse_of_isNumeral (h : IsNumeral cs) : parse cs = some ((decimal cs).toFloat false) := by
  have hsome := (decimal?_isSome_iff cs).2 h
  have hdecimal : decimal? cs = some (decimal cs) := by
    rw [decimal?] at hsome ⊢
    split at hsome
    · next hcs => rw [if_pos hcs]
    · cases hsome
  rw [parse, splitSign_of_head? (not_sign (.inl h))]
  simp only [hdecimal]

end Numeral

/-! ## Tokens of decimal numbers -/

/-- A text that starts with a digit, or with a point and a digit. -/
def StartsNumeral (cs : List Char) : Prop :=
  ∃ d rest, Numeral.isDigit d = true ∧ (cs = d :: rest ∨ cs = '.' :: d :: rest)

/-- A text that starts with `0x` or `0b` and a digit of base 16 or 2. -/
def StartsRadixInteger (cs : List Char) : Prop :=
  ∃ d rest, cs = '0' :: 'x' :: d :: rest ∧ Text.Quoted.isHexDigit d = true ∨
    cs = '0' :: 'b' :: d :: rest ∧ (d = '0' ∨ d = '1')

theorem radixInteger?_of_not_starts {cs : List Char} (h : ¬StartsRadixInteger cs) : radixInteger? cs = none := by
  have hnone {p : Char → Bool} {tail : List Char} (hp : ∀ d rest, tail = d :: rest → p d = false) :
      tail.takeWhile p = [] := by
    cases tail with
    | nil => rfl
    | cons d rest => rw [List.takeWhile_cons, if_neg (Bool.eq_false_iff.1 (hp d rest rfl))]
  unfold radixInteger?
  split
  · next mark tail =>
    have hhex : ¬(mark = 'x' ∧ tail.takeWhile Text.Quoted.isHexDigit ≠ []) := by
      rintro ⟨rfl, hne⟩
      refine hne (hnone fun d rest htail => ?_)
      rw [Bool.eq_false_iff]
      exact fun hd => h ⟨d, rest, .inl ⟨by rw [htail], hd⟩⟩
    have hbinary : ¬(mark = 'b' ∧ tail.takeWhile (fun c => c = '0' || c = '1') ≠ []) := by
      rintro ⟨rfl, hne⟩
      refine hne (hnone fun d rest htail => ?_)
      rw [Bool.eq_false_iff]
      exact fun hd => h ⟨d, rest, .inr ⟨by rw [htail], by simpa using hd⟩⟩
    exact radixInteger?_eq_none_iff.2 ⟨hhex, hbinary⟩
  · rfl

/-- Such a text starts with a numeral. -/
theorem StartsNumeral.length_ne_zero {cs : List Char} (h : StartsNumeral cs) : Numeral.length cs ≠ 0 := by
  obtain ⟨d, rest, hd, rfl | rfl⟩ := h
  · have hnumeral : Numeral.IsNumeral [d] := ⟨[d], [], rfl, .whole ⟨by simp, by simpa using hd⟩, .inl rfl⟩
    exact Nat.ne_zero_of_lt ((Numeral.longest_length (d :: rest)).bound [d] rest rfl hnumeral)
  · have hnumeral : Numeral.IsNumeral ['.', d] :=
      ⟨['.', d], [], rfl, .fraction ⟨by simp, by simpa using hd⟩, .inl rfl⟩
    exact Nat.ne_zero_of_lt ((Numeral.longest_length ('.' :: d :: rest)).bound ['.', d] rest rfl hnumeral)

/-- A text that starts as a decimal number does, and not as an integer in another base, begins with the token of a
number: its text is the longest numeral there is, which is read as a double, and this is neither negative nor NaN. -/
theorem Cursor.step_decimal (g : Grammar) (o : Options) {c : Cursor} (hstart : StartsNumeral c.rest)
    (hradix : ¬StartsRadixInteger c.rest) :
    let n := Numeral.length c.rest
    Numeral.IsNumeral (c.rest.take n) ∧
      (∀ part, part <+: c.rest → Numeral.IsNumeral part → part <+: c.rest.take n) ∧
      Numeral.IsFloatText (c.rest.take n) ∧
      ∃ v, Numeral.parse (c.rest.take n) = some v ∧ v.isNaN = false ∧ isNegative v = false ∧
        c.step g o = .token (c.token n (.number v)) (c.forward n) := by
  intro n
  have hlongest := Numeral.longest_length c.rest
  have hnumeral : Numeral.IsNumeral (c.rest.take n) := hlongest.holds hstart.length_ne_zero
  have hparse := Numeral.parse_of_isNumeral hnumeral
  obtain ⟨hnan, hsign⟩ := unsigned_iff.1 (Decimal.unsigned_toFloat (Numeral.decimal (c.rest.take n)))
  refine ⟨hnumeral, fun part hpart hform => ?_, (Numeral.parse_isSome_iff _).1 (by rw [hparse]; rfl), _, hparse, hnan,
    hsign, ?_⟩
  · obtain ⟨rest, htext⟩ := hpart
    refine List.prefix_of_prefix_length_le ⟨rest, htext⟩ (List.take_prefix n c.rest) ?_
    rw [List.length_take]
    exact Nat.le_min.2 ⟨hlongest.bound part rest htext.symm hform, htext ▸ by simp⟩
  · have hpos : 0 < n := Nat.pos_of_ne_zero hstart.length_ne_zero
    obtain ⟨hgap, htoken⟩ := recognise_numeral (g := g) (o := o) (radixInteger?_of_not_starts hradix) hpos
    exact step_of_recognise hgap htoken

/-- An exponent without digits is left over. -/
theorem Cursor.step_decimal_half_exponent :
    let c := Cursor.ofCode "2.5e+x"
    StartsNumeral c.rest ∧ ¬StartsRadixInteger c.rest ∧ Numeral.IsNumeral "2.5".toList ∧
      ∃ v, Numeral.parse "2.5".toList = some v ∧ v.isNaN = false ∧ isNegative v = false ∧
        c.step .standard .standard = .token (c.token 3 (.number v)) (c.forward 3) := by
  intro c
  have hstart : StartsNumeral c.rest := ⟨'2', _, rfl, .inl rfl⟩
  have hradix : ¬StartsRadixInteger c.rest := by
    rintro ⟨d, rest, ⟨h, -⟩ | ⟨h, -⟩⟩ <;> cases h
  obtain ⟨hnumeral, -, -, hstep⟩ := Cursor.step_decimal .standard .standard hstart hradix
  exact ⟨hstart, hradix, hnumeral, hstep⟩

end Reckon
