import Reckon.Proofs.Number.Bits
import Reckon.Proofs.Number.Shortest
import Reckon.Token.Rules

/-!
# Numerals

What is written for an unsigned double is a numeral that is read as the double (`Numeral.exists_pointed_eq_write`), and
in front of other text it is the numeral that is found (`Numeral.length_pointed_append`). Every number that a numeral or
an integer in base 16 or 2 stands for is unsigned.
-/

namespace Reckon

/-- The prefix with a property ends where the property fails. -/
theorem takeWhile_append_eq {α : Type} {p : α → Bool} {xs rest : List α} (h : ∀ x ∈ xs, p x = true)
    (hrest : ∀ x ∈ rest.head?, p x = false) : (xs ++ rest).takeWhile p = xs := by
  have hnone : rest.takeWhile p = [] := by
    cases rest with
    | nil => rfl
    | cons x rest => rw [List.takeWhile_cons, if_neg (by rw [hrest x rfl]; nofun)]
  rw [List.takeWhile_append_of_pos h, hnone, List.append_nil]

namespace Numeral

/-! ## Digits -/

theorem isDigit_eq (c : Char) : isDigit c = c.isDigit := rfl

theorem ofDigits_eq_ofDigitChars {ds : List Char} (h : ∀ c ∈ ds, isDigit c = true) :
    ofDigits 10 ds = Nat.ofDigitChars 10 ds 0 := by
  rw [ofDigits, Nat.ofDigitChars_eq_foldl]
  generalize 0 = n
  induction ds generalizing n with
  | nil => rfl
  | cons c ds ih =>
    have hc := h c (.head _)
    rw [List.foldl_cons, List.foldl_cons, digitValue, if_pos hc]
    exact ih (fun c hc => h c (.tail _ hc)) _

theorem digitCount_append {ds rest : List Char} (h : ∀ c ∈ ds, isDigit c = true)
    (hrest : ∀ c ∈ rest.head?, isDigit c = false) : digitCount (ds ++ rest) = ds.length := by
  rw [digitCount, takeWhile_append_eq h hrest]

/-- The digits of a number are digits, and they stand for the number. -/
theorem digits_spec (n : Nat) :
    (∀ c ∈ digits n, isDigit c = true) ∧ digits n ≠ [] ∧ Nat.ofDigitChars 10 (digits n) 0 = n :=
  ⟨fun c hc => (isDigit_eq c).trans (Nat.isDigit_of_mem_toDigits (by decide) (by decide) hc), Nat.toDigits_ne_nil,
    Nat.ofDigitChars_ten_toDigits⟩

/-! ## Digits and a point -/

/-- Digits, and the point with the digits behind it if there are any. -/
def pointed (whole fraction : List Char) : List Char :=
  whole ++ if fraction = [] then [] else '.' :: fraction

/-- What is written for a decimal are digits and a point, and they stand for its value. -/
theorem exists_pointed_eq_positional (d : Decimal) : ∃ whole fraction, positional d = pointed whole fraction ∧
    whole ≠ [] ∧ (∀ c ∈ whole ++ fraction, isDigit c = true) ∧
      (⟨ofDigits 10 (whole ++ fraction), -fraction.length⟩ : Decimal).value = d.value := by
  obtain ⟨hdigits, hne, hvalue⟩ := digits_spec d.coefficient
  have hzero : ∀ n, ∀ c ∈ List.replicate n '0', isDigit c = true := by
    intro n c hc
    rw [List.eq_of_mem_replicate hc]
    rfl
  by_cases hplaces : (-d.exponent).toNat = 0
  · have hall : ∀ c ∈ digits d.coefficient ++ List.replicate d.exponent.toNat '0', isDigit c = true :=
      fun c hc => (List.mem_append.1 hc).elim (hdigits c) (hzero _ c)
    refine ⟨digits d.coefficient ++ List.replicate d.exponent.toNat '0', [], ?_, ?_, by rwa [List.append_nil], ?_⟩
    · rw [positional, if_pos hplaces, pointed, if_pos rfl, List.append_nil]
    · simp [hne]
    · rw [List.append_nil, ofDigits_eq_ofDigitChars hall, Nat.ofDigitChars_append, hvalue,
        Nat.ofDigitChars_replicate_zero, Decimal.value, Decimal.value, zpow_eq_div 10 d.exponent, hplaces]
      simp [mul_comm]
  · -- The digits behind the point are as many as there are places.
    set places := (-d.exponent).toNat with hp
    set padded := List.replicate (places + 1 - (digits d.coefficient).length) '0' ++ digits d.coefficient with hpadded
    have hlength : places + 1 ≤ padded.length := by
      rw [hpadded, List.length_append, List.length_replicate]
      omega
    have hall : ∀ c ∈ padded, isDigit c = true := fun c hc => (List.mem_append.1 hc).elim (hzero _ c) (hdigits c)
    have hdrop : (padded.drop (padded.length - places)).length = places := by
      rw [List.length_drop]
      omega
    have hdropne : padded.drop (padded.length - places) ≠ [] := by
      rw [← List.length_pos_iff]
      omega
    refine ⟨padded.take (padded.length - places), padded.drop (padded.length - places), ?_, ?_,
      by rwa [List.take_append_drop], ?_⟩
    · rw [positional, if_neg hplaces, pointed, if_neg hdropne]
    · rw [← List.length_pos_iff, List.length_take]
      omega
    · have hexponent : -(places : Int) = d.exponent := by omega
      rw [List.take_append_drop, ofDigits_eq_ofDigitChars hall, hdrop, hpadded, Nat.ofDigitChars_append,
        Nat.ofDigitChars_replicate_zero, Nat.mul_zero, hvalue, hexponent]

/-- Text that does not go on with a numeral, which may have a point already. -/
def Ends (hasPoint : Prop) (rest : List Char) : Prop :=
  ∀ c ∈ rest.head?, isDigit c = false ∧ (c = '.' → hasPoint) ∧ c ≠ 'e' ∧ c ≠ 'E'

section

variable {whole fraction rest : List Char}

theorem mantissaLength_pointed_append (hne : whole ≠ []) (h : ∀ c ∈ whole ++ fraction, isDigit c = true)
    (hrest : Ends (fraction ≠ []) rest) : mantissaLength (pointed whole fraction ++ rest) = (pointed whole fraction).length := by
  have hwhole : ∀ c ∈ whole, isDigit c = true := fun c hc => h c (List.mem_append_left _ hc)
  have hfraction : ∀ c ∈ fraction, isDigit c = true := fun c hc => h c (List.mem_append_right _ hc)
  have hdigit : ∀ c ∈ rest.head?, isDigit c = false := fun c hc => (hrest c hc).1
  by_cases hf : fraction = []
  · rw [pointed, if_pos hf, List.append_nil, mantissaLength, digitCount_append hwhole hdigit, List.drop_left]
    cases rest with
    | nil => rfl
    | cons c rest =>
      have hc := (hrest c rfl).2.1
      split
      · next he =>
        cases he
        exact absurd hf (hc rfl)
      · rfl
  · have hcount : digitCount (whole ++ '.' :: (fraction ++ rest)) = whole.length :=
      digitCount_append hwhole (by rintro _ ⟨⟩; rfl)
    rw [pointed, if_neg hf, List.append_assoc, List.cons_append, mantissaLength, hcount, List.drop_left]
    simp only [digitCount_append hfraction hdigit, List.length_eq_zero_iff, hne, false_and, if_false,
      List.length_append, List.length_cons]
    omega

theorem length_pointed_append (hne : whole ≠ []) (h : ∀ c ∈ whole ++ fraction, isDigit c = true)
    (hrest : Ends (fraction ≠ []) rest) : length (pointed whole fraction ++ rest) = (pointed whole fraction).length := by
  have hpos : (pointed whole fraction).length ≠ 0 := by simp [pointed, hne]
  have hexponent : exponentLength rest = 0 := by
    cases rest with
    | nil => rfl
    | cons c rest =>
      obtain ⟨_, _, he, hE⟩ := hrest c rfl
      exact if_neg (not_or.2 ⟨he, hE⟩)
  rw [length, mantissaLength_pointed_append hne h hrest]
  simp only [if_neg hpos, List.drop_left, hexponent, Nat.add_zero]

/-- A numeral that a dot does not go on with. -/
def IsClosed (cs : List Char) : Prop :=
  cs ≠ [] ∧ length (cs ++ ['.']) = cs.length

/-- Digits go on with a dot. -/
theorem fraction_ne_nil_of_isClosed (h : ∀ c ∈ whole ++ fraction, isDigit c = true)
    (hclosed : IsClosed (pointed whole fraction)) : fraction ≠ [] := by
  rintro rfl
  rw [List.append_nil] at h
  obtain ⟨hne, hlength⟩ := hclosed
  rw [pointed, if_pos rfl, List.append_nil] at hne hlength
  have hcount : digitCount (whole ++ ['.']) = whole.length := digitCount_append h (by rintro _ ⟨⟩; rfl)
  have hmantissa : mantissaLength (whole ++ ['.']) = whole.length + 1 := by
    have hzero : whole.length ≠ 0 := by simpa using hne
    rw [mantissaLength, hcount, List.drop_left]
    simp [digitCount, hzero]
  rw [length, hmantissa] at hlength
  simp only [Nat.succ_ne_zero, if_false] at hlength
  omega

theorem decimal_pointed (hne : whole ≠ []) (h : ∀ c ∈ whole ++ fraction, isDigit c = true) :
    decimal (pointed whole fraction) = ⟨ofDigits 10 (whole ++ fraction), -fraction.length⟩ := by
  have hlength : mantissaLength (pointed whole fraction) = (pointed whole fraction).length := by
    have hends : Ends (fraction ≠ []) [] := nofun
    have happend := mantissaLength_pointed_append hne h hends
    rwa [List.append_nil] at happend
  have hwhole : ∀ c ∈ whole, isDigit c = true := fun c hc => h c (List.mem_append_left _ hc)
  have htake : (pointed whole fraction).takeWhile isDigit = whole := by
    by_cases hf : fraction = []
    · rw [pointed, if_pos hf, List.takeWhile_append_of_pos hwhole, List.takeWhile_nil, List.append_nil]
    · rw [pointed, if_neg hf, List.takeWhile_append_of_pos hwhole, List.takeWhile_cons, if_neg (by decide),
        List.append_nil]
  have hdrop : ((pointed whole fraction).dropWhile isDigit).drop 1 = fraction := by
    by_cases hf : fraction = []
    · rw [pointed, if_pos hf, List.dropWhile_append_of_pos hwhole, hf]
      rfl
    · rw [pointed, if_neg hf, List.dropWhile_append_of_pos hwhole, List.dropWhile_cons, if_neg (by decide)]
      rfl
  simp only [decimal, hlength, List.take_length, List.drop_length, htake, hdrop, exponentValue, Int.zero_sub]

end

/-! ## Numbers -/

/-- What is written for an unsigned finite double are digits and a point, and they are read as the double. -/
theorem exists_pointed_eq_write {x : Float} (h : Unsigned x) (hinf : x.isInf = false) : ∃ whole fraction,
    (write x).toList = pointed whole fraction ∧ whole ≠ [] ∧ (∀ c ∈ whole ++ fraction, isDigit c = true) ∧
      (⟨ofDigits 10 (whole ++ fraction), -fraction.length⟩ : Decimal).toFloat false = x := by
  obtain ⟨hlt, hreading⟩ := h.ofFloat_eq hinf
  obtain ⟨hc, hpattern⟩ := Magnitude.canonical_ofPattern x.toBits.toNat
  obtain ⟨whole, fraction, he, hne, hdigits, hvalue⟩ :=
    exists_pointed_eq_positional (Magnitude.ofPattern x.toBits.toNat).shortest
  have hwrite : (write x).toList = positional (Magnitude.ofPattern x.toBits.toNat).shortest := by
    simp [write, hreading, sign]
  refine ⟨whole, fraction, hwrite.trans he, hne, hdigits, ?_⟩
  rw [Decimal.toFloat_of_value_eq hc (hpattern.symm ▸ hlt) hvalue, hpattern]
  exact (congrArg Float.ofBits x.toBits.ofNat_toNat).trans (Float.ofBits_toBits x)

end Numeral

/-! ## Numbers in a code -/

theorem unsigned_nearestFloat (n d : Nat) : Unsigned (nearestFloat false n d) := by
  have hle : Magnitude.nearestPattern n d ≤ Magnitude.infinitePattern := by
    rw [Magnitude.nearestPattern]
    split
    · exact Nat.zero_le _
    · exact Nat.min_le_right _ _
  have hlt := Magnitude.infinitePattern_lt
  have hbits : (UInt64.ofNat (Magnitude.nearestPattern n d)).toNat = Magnitude.nearestPattern n d := by
    rw [UInt64.toNat_ofNat']
    omega
  have hx : nearestFloat false n d = Float.ofBits (.ofNat (Magnitude.nearestPattern n d)) := rfl
  rw [Unsigned, hx, Float.toBits_ofBits (by rw [hbits]; omega), hbits]
  exact hle

/-- A decimal without a sign is read as an unsigned double. -/
theorem Decimal.unsigned_toFloat (d : Decimal) : Unsigned (d.toFloat false) := by
  rw [toFloat]
  split
  · exact unsigned_nearestFloat _ _
  · split
    · exact unsigned_nearestFloat _ _
    · exact unsigned_nearestFloat _ _

theorem unsigned_digit : ∀ n < 16, Unsigned (Float.ofNat n) := by decide

theorem Numeral.digitValue_lt {c : Char} (h : Text.Quoted.isHexDigit c = true) : digitValue c < 16 := by
  have hall : ∀ n < 103, Text.Quoted.isHexDigit (Char.ofNat n) = true → digitValue (Char.ofNat n) < 16 := by
    decide +kernel
  have hlt : c.toNat < 103 := by
    simp only [Text.Quoted.isHexDigit, isDigit, Bool.or_eq_true, Bool.and_eq_true, decide_eq_true_eq,
      Char.le_def, UInt32.le_iff_toNat_le] at h
    have hval : c.toNat = c.val.toNat := rfl
    have h9 : '9'.val.toNat = 57 := rfl
    have hf : 'f'.val.toNat = 102 := rfl
    have hF : 'F'.val.toNat = 70 := rfl
    omega
  have := hall c.toNat hlt
  rw [Char.ofNat_toNat] at this
  exact this h

/-- An integer in base 16 or 2 is an unsigned double. -/
theorem Lexeme.unsigned_radixValue {base : Nat} (hbase : base = 16 ∨ base = 2) {ds : List Char}
    (h : ∀ c ∈ ds, Text.Quoted.isHexDigit c = true) : Unsigned (radixValue base ds) := by
  have hstep : ∀ x, Unsigned x → Unsigned (x * Float.ofNat base) := by
    intro x hx
    rcases hbase with rfl | rfl
    · exact hx.mul (by decide) (by decide) (by decide)
    · exact hx.mul (by decide) (by decide) (by decide)
  have hzero : Unsigned 0 := by decide
  rw [radixValue]
  generalize (0 : Float) = x at hzero
  induction ds generalizing x with
  | nil => exact hzero
  | cons c ds ih =>
    have hdigit := unsigned_digit _ (Numeral.digitValue_lt (h c (.head _)))
    exact ih (fun c hc => h c (.tail _ hc)) _ ((hstep x hzero).add hdigit)

end Reckon
