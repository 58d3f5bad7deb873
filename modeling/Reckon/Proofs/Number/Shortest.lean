import Reckon.Numeric
import Reckon.Proofs.Number.Rounding

/-!
# The shortest decimal

A decimal in the rounding interval of a double is read as the double (`Decimal.toFloat_of_near`), and the decimal that
is written for a double is in its interval (`Magnitude.near_shortest`): each point of a grid has been tested for that
(`Magnitude.admits_iff`), and the exact value lies in the middle. So what is written for a double is read as the double
(`Decimal.toFloat_of_value_eq`).

The digits written for a double start at a power of ten between `-400` and `400` (`Decimal.leadingExponent_of_near`).
So to move its point by fewer than `2 ^ 31 - 400` places stays in the range of exponents and multiplies the decimal by
that power of ten (`Numeric.shiftPoint_eq`).
-/

namespace Reckon

/-- The decimal as a number. -/
def Decimal.value (d : Decimal) : ℚ :=
  d.coefficient * 10 ^ d.exponent

namespace Magnitude

variable {v : Magnitude}

/-! ## Writing -/

theorem admits_iff {c : Nat} {g : Int} : v.admits c g = true ↔ v.Near ((⟨c, g⟩ : Decimal).value) := by
  have hscale : 0 < 2 ^ (v.exponent - 2).toNat * 10 ^ (-g).toNat := by positivity
  have hpoint : ((c * 2 ^ (-(v.exponent - 2)).toNat * 10 ^ g.toNat : Nat) : ℚ) =
      c * 10 ^ g / 2 ^ (v.exponent - 2) * ((2 ^ (v.exponent - 2).toNat * 10 ^ (-g).toNat : Nat) : ℚ) := by
    rw [zpow_eq_div 2, zpow_eq_div 10]
    push_cast
    field_simp
  have hpow := two_zpow_pos (v.exponent - 2)
  simp only [admits, Near, Decimal.value]
  generalize 2 ^ (v.exponent - 2).toNat * 10 ^ (-g).toNat = scale at hscale hpoint ⊢
  generalize c * 2 ^ (-(v.exponent - 2)).toNat * 10 ^ g.toNat = point at hpoint ⊢
  have hscale' : (0 : ℚ) < scale := by exact_mod_cast hscale
  have hle : ∀ m : Nat, m * scale ≤ point ↔ m * 2 ^ (v.exponent - 2) ≤ (c * 10 ^ g : ℚ) := by
    intro m
    rw [← @Nat.cast_le ℚ, hpoint, Nat.cast_mul, mul_le_mul_iff_left₀ hscale', le_div_iff₀ hpow]
  have hge : ∀ m : Nat, point ≤ m * scale ↔ (c * 10 ^ g : ℚ) ≤ m * 2 ^ (v.exponent - 2) := by
    intro m
    rw [← @Nat.cast_le ℚ, hpoint, Nat.cast_mul, mul_le_mul_iff_left₀ hscale', div_le_iff₀ hpow]
  have hlt : ∀ m : Nat, m * scale < point ↔ m * 2 ^ (v.exponent - 2) < (c * 10 ^ g : ℚ) := by
    intro m
    rw [← not_le, hge, not_le]
  have hgt : ∀ m : Nat, point < m * scale ↔ (c * 10 ^ g : ℚ) < m * 2 ^ (v.exponent - 2) := by
    intro m
    rw [← not_le, hle, not_le]
  split
  · rw [Bool.and_eq_true, decide_eq_true_eq, decide_eq_true_eq, hle, hge]
  · rw [Bool.and_eq_true, decide_eq_true_eq, decide_eq_true_eq, hlt, hgt]

theorem near_of_gridPoint? {g : Int} {c : Nat} (h : v.gridPoint? g = some c) :
    v.Near ((⟨c, g⟩ : Decimal).value) := by
  rw [← admits_iff]
  simp only [gridPoint?] at h
  split at h
  · next hlower hupper =>
    split at h
    · cases h
      exact hlower
    · cases h
      exact hupper
  · next hlower _ =>
    cases h
    exact hlower
  · next _ hupper =>
    cases h
    exact hupper
  · cases h

/-- A double is in its own interval. -/
theorem near_value (hv : v.significand ≠ 0) : v.Near v.value := by
  have hunit : (2 : ℚ) ^ v.exponent = 4 * 2 ^ (v.exponent - 2) := by
    rw [zpow_sub₀ (by norm_num)]
    norm_num
    ring
  have hpow := two_zpow_pos (v.exponent - 2)
  have hlow : (v.midpoints.1 : ℚ) < 4 * v.significand := by
    have : v.midpoints.1 < 4 * v.significand := by
      simp only [midpoints]
      split <;> omega
    exact_mod_cast this
  have hhigh : 4 * (v.significand : ℚ) < v.midpoints.2 := by
    have : 4 * v.significand < v.midpoints.2 := by
      simp only [midpoints]
      omega
    exact_mod_cast this
  have hlow' := mul_lt_mul_of_pos_right hlow hpow
  have hhigh' := mul_lt_mul_of_pos_right hhigh hpow
  simp only [Near, value, hunit]
  split
  · exact ⟨by linarith, by linarith⟩
  · exact ⟨by linarith, by linarith⟩

theorem value_exactDecimal (v : Magnitude) : v.exactDecimal.value = v.value := by
  simp only [exactDecimal, value]
  split
  · next h =>
    simp only [Decimal.value, zpow_zero, mul_one]
    rw [zpow_eq_div 2 v.exponent, Int.toNat_eq_zero.2 (by omega : -v.exponent ≤ 0)]
    push_cast
    ring
  · next h =>
    simp only [Decimal.value]
    rw [zpow_eq_div 2 v.exponent, zpow_eq_div 10 v.exponent, Int.toNat_eq_zero.2 (by omega : v.exponent ≤ 0)]
    push_cast
    rw [show (10 : ℚ) = 2 * 5 by norm_num]
    field_simp
    rw [mul_pow]
    ring

theorem near_coarsest (hv : v.significand ≠ 0) (bottom : Int) : ∀ n, v.Near (v.coarsest bottom n).value
  | 0 => by
    rw [coarsest, value_exactDecimal]
    exact near_value hv
  | n + 1 => by
    rw [coarsest]
    split
    · next c hc => exact near_of_gridPoint? hc
    · exact near_coarsest hv bottom n

/-- The decimal that is written for a double rounds to the double. -/
theorem near_shortest (hv : v.significand ≠ 0) : v.Near v.shortest.value := by
  simp only [shortest, if_neg hv]
  exact near_coarsest hv _ _

end Magnitude

/-! ## Reading -/

namespace Decimal

variable {v : Magnitude} {d : Decimal}

/-- The value as a quotient of natural numbers. -/
theorem value_eq_div (d : Decimal) :
    d.value = ((d.coefficient * 10 ^ d.exponent.toNat : Nat) : ℚ) / ((10 ^ (-d.exponent).toNat : Nat) : ℚ) := by
  rw [value, zpow_eq_div 10 d.exponent]
  push_cast
  ring

theorem two_pow_lt_ten_pow : (2 : ℚ) ^ (1200 : Int) < 10 ^ (400 : Int) := by
  calc (2 : ℚ) ^ (1200 : Int) = (2 ^ 3) ^ 400 := by rw [← pow_mul]; exact zpow_natCast 2 1200
    _ < 10 ^ 400 := pow_lt_pow_left₀ (by norm_num) (by norm_num) (by decide)
    _ = 10 ^ (400 : Int) := (zpow_natCast 10 400).symm

/-- What rounds to a finite double other than zero is between two powers of two. -/
theorem bounds_of_near (hc : v.Canonical) (hv : v.significand ≠ 0) (hfinite : v.pattern < Magnitude.infinitePattern)
    {q : ℚ} (h : v.Near q) : 2 ^ (-1075 : Int) ≤ q ∧ q ≤ 2 ^ (1024 : Int) := by
  obtain ⟨hlow, hhigh, _, _⟩ := h.bounds hv
  have hpow := two_zpow_pos v.exponent
  have hone : (1 : ℚ) ≤ v.significand := by exact_mod_cast Nat.one_le_iff_ne_zero.2 hv
  have hbits : (v.significand : ℚ) + 1 ≤ 2 ^ 53 := by exact_mod_cast hc.bits
  have hfull := hc.full
  have hleast := hc.least
  simp only [Magnitude.pattern, Magnitude.infinitePattern, Magnitude.leastExponent] at hfinite hfull hleast
  have hexponent : v.exponent ≤ 971 := by omega
  constructor
  · have hle := Magnitude.two_zpow_le hleast
    calc (2 : ℚ) ^ (-1075 : Int) = 1 / 2 * 2 ^ (-1074 : Int) := by
          rw [show (-1075 : Int) = -1074 - 1 by norm_num, zpow_sub_one₀ (by norm_num)]
          ring
      _ ≤ 1 / 2 * 2 ^ v.exponent := by linarith
      _ ≤ (v.significand - 1 / 2) * 2 ^ v.exponent := by nlinarith
      _ ≤ q := hlow
  · have hle := Magnitude.two_zpow_le hexponent
    calc q ≤ (v.significand + 1 / 2) * 2 ^ v.exponent := hhigh
      _ ≤ 2 ^ 53 * 2 ^ v.exponent := by nlinarith
      _ ≤ 2 ^ 53 * 2 ^ (971 : Int) := by linarith
      _ = 2 ^ (1024 : Int) := by rw [Magnitude.two_pow_mul_zpow]; norm_num

/-- What rounds to a finite double other than zero is far from the bounds of `Decimal.toFloat`. -/
theorem ten_zpow_bounds_of_near (hc : v.Canonical) (hv : v.significand ≠ 0)
    (hfinite : v.pattern < Magnitude.infinitePattern) {q : ℚ} (h : v.Near q) :
    10 ^ (-400 : Int) < q ∧ q < 10 ^ (400 : Int) := by
  obtain ⟨hlow, hhigh⟩ := bounds_of_near hc hv hfinite h
  constructor
  · calc (10 : ℚ) ^ (-400 : Int) < 2 ^ (-1200 : Int) := by
          rw [zpow_neg, zpow_neg]
          exact inv_strictAnti₀ (two_zpow_pos 1200) two_pow_lt_ten_pow
      _ ≤ 2 ^ (-1075 : Int) := Magnitude.two_zpow_le (by decide)
      _ ≤ q := hlow
  · calc q ≤ 2 ^ (1024 : Int) := hhigh
      _ ≤ 2 ^ (1200 : Int) := Magnitude.two_zpow_le (by decide)
      _ < 10 ^ (400 : Int) := two_pow_lt_ten_pow

theorem value_lt_of_exponent_lt (h : d.exponent < -(400 + d.coefficient.log2 : Nat)) :
    d.value < 10 ^ (-400 : Int) := by
  have hlt : (d.coefficient : ℚ) < 10 ^ (d.coefficient.log2 + 1) := by
    have hpow : 2 ^ (d.coefficient.log2 + 1) ≤ 10 ^ (d.coefficient.log2 + 1) := Nat.pow_le_pow_left (by decide) _
    exact_mod_cast Nat.lt_of_lt_of_le Nat.lt_log2_self hpow
  have hpos : (0 : ℚ) < 10 ^ d.exponent := by positivity
  calc d.value < 10 ^ (d.coefficient.log2 + 1) * 10 ^ d.exponent := mul_lt_mul_of_pos_right hlt hpos
    _ = 10 ^ ((d.coefficient.log2 + 1 : Nat) + d.exponent : Int) := by rw [zpow_add₀ (by norm_num), zpow_natCast]
    _ ≤ 10 ^ (-400 : Int) := zpow_le_zpow_right₀ (by norm_num) (by omega)

theorem lt_value_of_lt_exponent (hd : d.coefficient ≠ 0) (h : 400 < d.exponent) : 10 ^ (400 : Int) < d.value := by
  have hone : (1 : ℚ) ≤ d.coefficient := by exact_mod_cast Nat.one_le_iff_ne_zero.2 hd
  have hpos : (0 : ℚ) < 10 ^ d.exponent := by positivity
  calc (10 : ℚ) ^ (400 : Int) < 10 ^ d.exponent := zpow_lt_zpow_right₀ (by norm_num) h
    _ ≤ d.value := by rw [value]; nlinarith

theorem coefficient_ne_zero {e : Int} (h : 10 ^ e < d.value) : d.coefficient ≠ 0 := by
  intro hzero
  rw [value, hzero, Nat.cast_zero, zero_mul] at h
  exact lt_asymm h (by positivity)

/-- A decimal in the rounding interval of a finite double is read as the double. -/
theorem toFloat_of_near (hc : v.Canonical) (hv : v.significand ≠ 0) (hfinite : v.pattern < Magnitude.infinitePattern)
    (h : v.Near d.value) (negative : Bool) :
    d.toFloat negative = Float.ofBits (.ofNat (v.pattern + if negative then 2 ^ 63 else 0)) := by
  obtain ⟨hlow, hhigh⟩ := ten_zpow_bounds_of_near hc hv hfinite h
  have hcoefficient := coefficient_ne_zero hlow
  have hsmall : ¬d.exponent < -(400 + d.coefficient.log2 : Nat) :=
    fun hlt => lt_asymm hlow (value_lt_of_exponent_lt hlt)
  have hgreat : ¬400 < d.exponent := fun hlt => lt_asymm hhigh (lt_value_of_lt_exponent hcoefficient hlt)
  have hn : 0 < d.coefficient * 10 ^ d.exponent.toNat := by positivity
  rw [value_eq_div] at h
  rw [toFloat, if_neg (not_or.2 ⟨hcoefficient, hsmall⟩), if_neg hgreat, nearestFloat,
    Magnitude.nearestPattern_of_near hc hv hfinite hn (by positivity) h]

/-- A decimal with the value of the one that is written for a double is read as the double. -/
theorem toFloat_of_value_eq (hc : v.Canonical) (hfinite : v.pattern < Magnitude.infinitePattern)
    (h : d.value = v.shortest.value) (negative : Bool) :
    d.toFloat negative = Float.ofBits (.ofNat (v.pattern + if negative then 2 ^ 63 else 0)) := by
  by_cases hv : v.significand = 0
  · have hfull := hc.full
    have hleast := hc.least
    simp only [Magnitude.leastExponent] at hfull hleast
    have hpattern : v.pattern = 0 := by
      simp only [Magnitude.pattern, Magnitude.leastExponent]
      omega
    have hcoefficient : d.coefficient = 0 := by
      rw [Magnitude.shortest, if_pos hv, value, value, Nat.cast_zero, zero_mul, mul_eq_zero] at h
      rcases h with h | h
      · exact_mod_cast h
      · exact absurd h (zpow_ne_zero _ (by norm_num))
    rw [toFloat, if_pos (.inl hcoefficient), hpattern]
    rfl
  · exact toFloat_of_near hc hv hfinite (h ▸ Magnitude.near_shortest hv) negative

/-! ## Moving the point -/

theorem leadingExponent_shift (d : Decimal) (places : Int32) :
    (d.shift places).leadingExponent = (Int32.ofInt d.leadingExponent + places).toInt := by
  simp only [shift, leadingExponent]
  omega

/-- The first digit gives the order of magnitude. -/
theorem value_bounds (hd : d.coefficient ≠ 0) :
    10 ^ d.leadingExponent ≤ d.value ∧ d.value < 10 ^ (d.leadingExponent + 1) := by
  have hlength : 0 < (Nat.toDigits 10 d.coefficient).length := List.length_pos_iff.2 Nat.toDigits_ne_nil
  set n := (Nat.toDigits 10 d.coefficient).length - 1 with hn
  have hlow : 10 ^ n ≤ d.coefficient := by
    rcases Nat.eq_zero_or_pos n with h | h
    · rw [h]
      exact Nat.one_le_iff_ne_zero.2 hd
    · rw [← Nat.not_lt, ← Nat.length_toDigits_le_iff (by decide) h]
      omega
  have hhigh : d.coefficient < 10 ^ (n + 1) :=
    (Nat.length_toDigits_le_iff (by decide) n.succ_pos).1 (by omega)
  have hpos : (0 : ℚ) < 10 ^ d.exponent := by positivity
  have hleading : d.leadingExponent = n + d.exponent := by rw [leadingExponent, ← hn, Int.add_comm]
  constructor
  · calc (10 : ℚ) ^ d.leadingExponent = 10 ^ n * 10 ^ d.exponent := by
          rw [hleading, zpow_add₀ (by norm_num), zpow_natCast]
      _ ≤ d.coefficient * 10 ^ d.exponent := mul_le_mul_of_nonneg_right (by exact_mod_cast hlow) hpos.le
  · calc d.value < 10 ^ (n + 1) * 10 ^ d.exponent := mul_lt_mul_of_pos_right (by exact_mod_cast hhigh) hpos
      _ = 10 ^ (d.leadingExponent + 1) := by
          rw [show d.leadingExponent + 1 = (n + 1 : Nat) + d.exponent by push_cast; omega, zpow_add₀ (by norm_num),
            zpow_natCast]

/-- The digits of what rounds to a finite double start near the point. -/
theorem leadingExponent_of_near (hc : v.Canonical) (hv : v.significand ≠ 0)
    (hfinite : v.pattern < Magnitude.infinitePattern) (h : v.Near d.value) :
    -400 ≤ d.leadingExponent ∧ d.leadingExponent < 400 := by
  obtain ⟨hlow, hhigh⟩ := ten_zpow_bounds_of_near hc hv hfinite h
  obtain ⟨hge, hlt⟩ := value_bounds (coefficient_ne_zero hlow)
  have hlow' := (zpow_lt_zpow_iff_right₀ (by norm_num)).1 (hlow.trans hlt)
  have hhigh' := (zpow_lt_zpow_iff_right₀ (by norm_num)).1 (hge.trans_lt hhigh)
  omega

/-- As long as the first digit stays in the range of 32 bits, the value is multiplied by the power of ten. -/
theorem value_shift {places : Int32} (hlow : -2 ^ 31 ≤ d.leadingExponent + places.toInt)
    (hhigh : d.leadingExponent + places.toInt < 2 ^ 31) : (d.shift places).value = d.value * 10 ^ places.toInt := by
  have hmoved : (Int32.ofInt d.leadingExponent + places).toInt = d.leadingExponent + places.toInt := by
    rw [Int32.toInt_add, Int32.toInt_ofInt, Int32.size, Int.bmod_add_bmod]
    exact Int.bmod_eq_of_le_mul_two (by omega) (by omega)
  have hexponent : (d.shift places).exponent = d.exponent + places.toInt := by
    simp only [shift, hmoved]
    omega
  rw [value, value, hexponent, zpow_add₀ (by norm_num), ← mul_assoc]
  rfl

/-- Out of the range the exponent wraps around. -/
example : (⟨1, 1⟩ : Decimal).shift 2147483647 = ⟨1, -2147483648⟩ := by decide

/-- Moving the point back undoes it, even if the first digit has been out of range. -/
theorem shift_shift_neg (hlow : -2 ^ 31 ≤ d.leadingExponent) (hhigh : d.leadingExponent < 2 ^ 31) (places : Int32) :
    (d.shift places).shift (-places) = d := by
  have hback : (Int32.ofInt (d.shift places).leadingExponent + -places).toInt = d.leadingExponent := by
    rw [leadingExponent_shift, Int32.ofInt_toInt, Int32.add_assoc, Int32.add_right_neg, Int32.add_zero,
      Int32.toInt_ofInt_of_le hlow hhigh]
  have hexponent : ((d.shift places).shift (-places)).exponent = d.exponent := by
    rw [shift, hback, leadingExponent_shift, shift]
    simp only
    omega
  exact congrArg (Decimal.mk d.coefficient) hexponent

end Decimal

variable {v : Magnitude}

theorem Magnitude.leadingExponent_shortest (hc : v.Canonical) (hfinite : v.pattern < Magnitude.infinitePattern) :
    -400 ≤ v.shortest.leadingExponent ∧ v.shortest.leadingExponent < 400 := by
  by_cases hv : v.significand = 0
  · rw [shortest, if_pos hv]
    decide
  · exact Decimal.leadingExponent_of_near hc hv hfinite (near_shortest hv)

/-- What a finite double is read as has the form of a double. -/
theorem Reading.canonical_of_ofFloat {x : Float} {negative : Bool} (h : Reading.ofFloat x = .finite negative v) :
    v.Canonical ∧ v.pattern < Magnitude.infinitePattern := by
  simp only [Reading.ofFloat] at h
  split at h
  · next hfinite =>
    cases h
    obtain ⟨hc, hpattern⟩ := Magnitude.canonical_ofPattern (x.toBits.toNat % 2 ^ 63)
    exact ⟨hc, hpattern.trans_lt hfinite⟩
  · split at h <;> cases h

/-- To move the point of a double by fewer places than exponents can count multiplies the decimal that is written for
it by that power of ten, and the product is rounded to a double. -/
theorem Numeric.shiftPoint_eq {x : Float} {negative : Bool} (h : Reading.ofFloat x = .finite negative v)
    {places : Int32} (hlow : 400 - 2 ^ 31 ≤ places.toInt) (hhigh : places.toInt ≤ 2 ^ 31 - 400) :
    ∃ d : Decimal, d.value = v.shortest.value * 10 ^ places.toInt ∧ shiftPoint x places = d.toFloat negative := by
  obtain ⟨hc, hfinite⟩ := Reading.canonical_of_ofFloat h
  obtain ⟨hge, hlt⟩ := Magnitude.leadingExponent_shortest hc hfinite
  exact ⟨v.shortest.shift places, Decimal.value_shift (by omega) (by omega), by rw [shiftPoint, h]⟩

end Reckon
