import Mathlib.Algebra.Order.Field.Power
import Mathlib.Data.Rat.Cast.Order
import Mathlib.Tactic.FieldSimp
import Mathlib.Tactic.Linarith
import Mathlib.Tactic.NormNum
import Mathlib.Tactic.Positivity
import Mathlib.Tactic.Ring
import Reckon.Number.Decimal

/-!
# The nearest double

Rounding a quotient gives the double whose rounding interval the quotient lies in (`Magnitude.nearestPattern_of_near`).
The interval reaches to the midpoints between the double and its neighbours and holds them if the significand is even
(`Magnitude.Near`). A quotient below a power of two may round up to it: it is rounded at the next lower exponent, and
the carry of the significand brings the exponent back.
-/

namespace Reckon

/-! ## Powers -/

/-- An integral power as a quotient of natural ones. -/
theorem zpow_eq_div (b : ℚ) (e : Int) : b ^ e = b ^ e.toNat / b ^ (-e).toNat := by
  rcases Int.le_total 0 e with h | h
  · obtain ⟨k, rfl⟩ := Int.eq_ofNat_of_zero_le h
    simp
  · obtain ⟨k, hk⟩ := Int.eq_ofNat_of_zero_le (Int.neg_nonneg_of_nonpos h)
    obtain rfl : e = -(k : Int) := by omega
    simp

theorem two_zpow_pos (e : Int) : (0 : ℚ) < 2 ^ e := by
  positivity

/-- The quotient `n / d` in units of `2 ^ e`. -/
theorem scaled_div (n d : Nat) (hd : 0 < d) (e : Int) :
    ((n * 2 ^ (-e).toNat : Nat) : ℚ) = (n / d : ℚ) / 2 ^ e * ((d * 2 ^ e.toNat : Nat) : ℚ) := by
  have hd' : (d : ℚ) ≠ 0 := by positivity
  rw [zpow_eq_div 2 e]
  push_cast
  field_simp

/-! ## Rounding to an integer -/

/-- A quotient rounds to the integer that is at most a half away, or less than a half if that is odd. -/
theorem roundEven_eq {n d m : Nat} (hd : 0 < d) (hlow : 2 * m * d ≤ 2 * n + d) (hhigh : 2 * n ≤ (2 * m + 1) * d)
    (hodd : m % 2 = 1 → 2 * m * d < 2 * n + d ∧ 2 * n < (2 * m + 1) * d) : roundEven n d = m := by
  have hsplit := Nat.div_add_mod n d
  have hr := Nat.mod_lt n hd
  simp only [roundEven]
  generalize n / d = q at *
  generalize n % d = r at *
  subst hsplit
  have hle : q ≤ m := by
    by_contra h
    have hmul : d * (m + 1) ≤ d * q := Nat.mul_le_mul_left d (by omega)
    nlinarith only [hmul, hhigh, hd]
  have hge : m ≤ q + 1 := by
    by_contra h
    have hmul : d * (q + 2) ≤ d * m := Nat.mul_le_mul_left d (by omega)
    nlinarith only [hmul, hlow, hr]
  obtain rfl | rfl : m = q ∨ m = q + 1 := by omega
  · have hhalf : 2 * r ≤ d := by nlinarith only [hhigh]
    rw [if_pos]
    rcases Nat.lt_or_ge (2 * r) d with h | h
    · exact .inl h
    · refine .inr ⟨by omega, ?_⟩
      by_contra hq
      have hstrict := (hodd (by omega)).2
      nlinarith only [hstrict, h]
  · have hhalf : d ≤ 2 * r := by nlinarith only [hlow]
    rw [if_neg]
    rintro (h | ⟨h, hq⟩)
    · omega
    · have hstrict := (hodd (by omega)).1
      nlinarith only [hstrict, h]

/-! ## The exponent -/

namespace Magnitude

variable {n d : Nat}

/-- The quotient lies between the powers of two that the logarithms of `n` and `d` give. -/
theorem div_bounds (hn : 0 < n) (hd : 0 < d) :
    (2 : ℚ) ^ ((n.log2 : Int) - d.log2 - 1) < (n : ℚ) / d ∧ (n : ℚ) / d < (2 : ℚ) ^ ((n.log2 : Int) - d.log2 + 1) := by
  have hd' : (0 : ℚ) < d := by positivity
  have hnlow : ((2 ^ n.log2 : Nat) : ℚ) ≤ n := by exact_mod_cast Nat.log2_self_le hn.ne'
  have hnhigh : (n : ℚ) < ((2 ^ (n.log2 + 1) : Nat) : ℚ) := by exact_mod_cast Nat.lt_log2_self
  have hdlow : ((2 ^ d.log2 : Nat) : ℚ) ≤ d := by exact_mod_cast Nat.log2_self_le hd.ne'
  have hdhigh : (d : ℚ) < ((2 ^ (d.log2 + 1) : Nat) : ℚ) := by exact_mod_cast Nat.lt_log2_self
  push_cast at hnlow hnhigh hdlow hdhigh
  have hlow : (2 : ℚ) ^ ((n.log2 : Int) - d.log2 - 1) = 2 ^ n.log2 / 2 ^ (d.log2 + 1) := by
    rw [← zpow_natCast, ← zpow_natCast, ← zpow_sub₀ (by norm_num)]
    congr 1
    push_cast
    ring
  have hhigh : (2 : ℚ) ^ ((n.log2 : Int) - d.log2 + 1) = 2 ^ (n.log2 + 1) / 2 ^ d.log2 := by
    rw [← zpow_natCast, ← zpow_natCast, ← zpow_sub₀ (by norm_num)]
    congr 1
    push_cast
    ring
  rw [hlow, hhigh, div_lt_div_iff₀ (by positivity) hd', div_lt_div_iff₀ hd' (by positivity)]
  constructor
  · nlinarith [show (0 : ℚ) < 2 ^ n.log2 by positivity]
  · nlinarith [show (0 : ℚ) < 2 ^ (n.log2 + 1) by positivity]

/-- The exponent that a quotient is rounded at: its significand has 53 bits there, or it is the least exponent. -/
structure Fits (q : ℚ) (e : Int) : Prop where
  below : q < 2 ^ 53 * 2 ^ e
  least : leastExponent ≤ e
  above : e = leastExponent ∨ 2 ^ 52 * 2 ^ e ≤ q

theorem two_zpow_le {a b : Int} (h : a ≤ b) : (2 : ℚ) ^ a ≤ 2 ^ b :=
  zpow_le_zpow_right₀ (by norm_num) h

theorem two_pow_mul_zpow (k : Nat) (e : Int) : (2 : ℚ) ^ k * 2 ^ e = 2 ^ (k + e : Int) := by
  rw [zpow_add₀ (by norm_num), zpow_natCast]

/-- There is only one such exponent. -/
theorem Fits.unique {q : ℚ} {e e' : Int} (h : Fits q e) (h' : Fits q e') : e = e' := by
  have absurd_lt : ∀ {a b : Int}, Fits q a → Fits q b → ¬a < b := by
    intro a b ha hb hlt
    have hpow : (2 : ℚ) ^ 53 * 2 ^ a ≤ 2 ^ 52 * 2 ^ b := by
      rw [two_pow_mul_zpow, two_pow_mul_zpow]
      exact two_zpow_le (by omega)
    have hbelow := ha.below
    rcases hb.above with he | habove
    · have := ha.least
      omega
    · linarith
  have := absurd_lt h h'
  have := absurd_lt h' h
  omega

theorem fits_exponentFor (hn : 0 < n) (hd : 0 < d) : Fits ((n : ℚ) / d) (exponentFor n d) := by
  obtain ⟨hlow, hhigh⟩ := div_bounds hn hd
  set e : Int := (n.log2 : Int) - d.log2 - 53 with he
  set q : ℚ := (n : ℚ) / d with hq
  have htest : n * 2 ^ (-e).toNat / (d * 2 ^ e.toNat) < 2 ^ 53 ↔ q < 2 ^ 53 * 2 ^ e := by
    have hD : 0 < d * 2 ^ e.toNat := by positivity
    have hscaled := scaled_div n d hd e
    generalize d * 2 ^ e.toNat = D at hD hscaled ⊢
    have hD' : (0 : ℚ) < D := by exact_mod_cast hD
    rw [Nat.div_lt_iff_lt_mul hD, ← @Nat.cast_lt ℚ, hscaled, Nat.cast_mul, mul_lt_mul_iff_left₀ hD',
      div_lt_iff₀ (two_zpow_pos e), hq]
    norm_num
  have hlow' : 2 ^ 52 * 2 ^ e ≤ q := by
    rw [two_pow_mul_zpow]
    exact (two_zpow_le (by omega)).trans hlow.le
  have hhigh' : q < 2 ^ 53 * 2 ^ (e + 1) := by
    rw [two_pow_mul_zpow]
    exact hhigh.trans_le (two_zpow_le (by omega))
  have fits_max : ∀ e' : Int, q < 2 ^ 53 * 2 ^ e' → 2 ^ 52 * 2 ^ e' ≤ q → Fits q (max e' leastExponent) := by
    intro e' hbelow habove
    refine ⟨hbelow.trans_le ?_, le_max_right _ _, ?_⟩
    · exact mul_le_mul_of_nonneg_left (two_zpow_le (le_max_left _ _)) (by norm_num)
    · rcases le_total e' leastExponent with h | h
      · exact .inl (max_eq_right h)
      · rw [max_eq_left h]
        exact .inr habove
  simp only [exponentFor, ← he]
  split
  · next h => exact fits_max e (htest.1 h) hlow'
  · next h =>
    refine fits_max (e + 1) hhigh' ?_
    have hge := le_of_not_gt (mt htest.2 h)
    rw [two_pow_mul_zpow] at hge ⊢
    exact (two_zpow_le (by omega)).trans hge

/-! ## The rounding interval -/

/-- The magnitude as a number. -/
def value (v : Magnitude) : ℚ :=
  v.significand * 2 ^ v.exponent

/-- The magnitudes of finite doubles: 53 bits, or fewer at the least exponent. -/
structure Canonical (v : Magnitude) : Prop where
  bits : v.significand < 2 ^ 53
  least : leastExponent ≤ v.exponent
  full : v.exponent = leastExponent ∨ 2 ^ 52 ≤ v.significand

/-- The low bits of the double of a magnitude. -/
def pattern (v : Magnitude) : Nat :=
  (v.exponent - leastExponent).toNat * 2 ^ 52 + v.significand

/-- The number lies between the midpoints, or on one of them if the significand is even. -/
def Near (v : Magnitude) (q : ℚ) : Prop :=
  if v.significand % 2 = 0 then v.midpoints.1 * 2 ^ (v.exponent - 2) ≤ q ∧ q ≤ v.midpoints.2 * 2 ^ (v.exponent - 2)
  else v.midpoints.1 * 2 ^ (v.exponent - 2) < q ∧ q < v.midpoints.2 * 2 ^ (v.exponent - 2)

theorem canonical_ofPattern (p : Nat) : (ofPattern p).Canonical ∧ (ofPattern p).pattern = p := by
  have hmod := Nat.mod_lt p (show 0 < 2 ^ 52 by decide)
  have hdiv := Nat.div_add_mod p (2 ^ 52)
  unfold ofPattern
  simp only
  split
  · next h =>
    refine ⟨⟨by simp only; omega, by simp, .inl rfl⟩, ?_⟩
    simp only [pattern]
    omega
  · next k h =>
    refine ⟨⟨by simp only; omega, by simp, .inr (by simp only; omega)⟩, ?_⟩
    simp only [pattern]
    omega

variable {v : Magnitude}

/-- The midpoints are half a unit away, or a quarter below the least significand of an exponent. -/
theorem Near.bounds {q : ℚ} (hv : v.significand ≠ 0) (h : v.Near q) :
    ((v.significand : ℚ) - 1 / 2) * 2 ^ v.exponent ≤ q ∧ q ≤ ((v.significand : ℚ) + 1 / 2) * 2 ^ v.exponent ∧
      (v.significand % 2 = 1 →
        ((v.significand : ℚ) - 1 / 2) * 2 ^ v.exponent < q ∧ q < ((v.significand : ℚ) + 1 / 2) * 2 ^ v.exponent) ∧
      (v.significand = 2 ^ 52 → leastExponent < v.exponent → ((2 : ℚ) ^ 52 - 1 / 4) * 2 ^ v.exponent ≤ q) := by
  have hunit : (2 : ℚ) ^ v.exponent = 4 * 2 ^ (v.exponent - 2) := by
    rw [zpow_sub₀ (by norm_num)]
    norm_num
    ring
  have hpos := two_zpow_pos (v.exponent - 2)
  simp only [Near, midpoints] at h
  rw [hunit]
  generalize (2 : ℚ) ^ (v.exponent - 2) = u at *
  have hhigh : ((4 * v.significand + 2 : Nat) : ℚ) = 4 * v.significand + 2 := by push_cast; ring
  by_cases hquarter : v.significand = 2 ^ 52 ∧ leastExponent < v.exponent
  · have hlow : ((4 * v.significand - 1 : Nat) : ℚ) = 4 * v.significand - 1 := by
      rw [Nat.cast_sub (by omega)]
      push_cast
      ring
    have hm : (v.significand : ℚ) = 2 ^ 52 := by rw [hquarter.1]; norm_num
    rw [if_pos hquarter, if_pos (by omega), hlow, hhigh, hm] at h
    rw [hm]
    refine ⟨by linarith, by linarith, fun hodd => by omega, fun _ _ => by linarith⟩
  · have hlow : ((4 * v.significand - 2 : Nat) : ℚ) = 4 * v.significand - 2 := by
      rw [Nat.cast_sub (by omega)]
      push_cast
      ring
    rw [if_neg hquarter, hlow, hhigh] at h
    split at h
    · exact ⟨by linarith, by linarith, fun hodd => by omega, fun hm he => absurd ⟨hm, he⟩ hquarter⟩
    · exact ⟨by linarith, by linarith, fun _ => ⟨by linarith, by linarith⟩, fun hm he => absurd ⟨hm, he⟩ hquarter⟩

/-- A quotient whose distance from `m` is at most a half in units of `2 ^ e` rounds to `m` there. -/
theorem roundEven_scaled (hd : 0 < d) {e : Int} {m : Nat}
    (hlow : ((m : ℚ) - 1 / 2) * 2 ^ e ≤ (n : ℚ) / d) (hhigh : (n : ℚ) / d ≤ ((m : ℚ) + 1 / 2) * 2 ^ e)
    (hodd : m % 2 = 1 → ((m : ℚ) - 1 / 2) * 2 ^ e < (n : ℚ) / d ∧ (n : ℚ) / d < ((m : ℚ) + 1 / 2) * 2 ^ e) :
    roundEven (n * 2 ^ (-e).toNat) (d * 2 ^ e.toNat) = m := by
  have hD : 0 < d * 2 ^ e.toNat := by positivity
  have hscaled := scaled_div n d hd e
  have hpow := two_zpow_pos e
  generalize d * 2 ^ e.toNat = D at hD hscaled ⊢
  generalize n * 2 ^ (-e).toNat = N at hscaled ⊢
  have hD' : (0 : ℚ) < D := by exact_mod_cast hD
  rw [← le_div_iff₀ hpow] at hlow
  rw [← div_le_iff₀ hpow] at hhigh
  rw [← lt_div_iff₀ hpow, ← div_lt_iff₀ hpow] at hodd
  generalize (n : ℚ) / d / 2 ^ e = x at *
  refine roundEven_eq hD ?_ ?_ fun hm => ⟨?_, ?_⟩
  · have h := mul_le_mul_of_nonneg_right hlow hD'.le
    rw [← @Nat.cast_le ℚ]
    push_cast
    linarith
  · have h := mul_le_mul_of_nonneg_right hhigh hD'.le
    rw [← @Nat.cast_le ℚ]
    push_cast
    linarith
  · have h := mul_lt_mul_of_pos_right (hodd hm).1 hD'
    rw [← @Nat.cast_lt ℚ]
    push_cast
    linarith
  · have h := mul_lt_mul_of_pos_right (hodd hm).2 hD'
    rw [← @Nat.cast_lt ℚ]
    push_cast
    linarith

/-- A quotient in the rounding interval of a double rounds to the double. -/
theorem nearestPattern_of_near (hc : v.Canonical) (hv : v.significand ≠ 0) (hfinite : v.pattern < infinitePattern)
    (hn : 0 < n) (hd : 0 < d) (h : v.Near ((n : ℚ) / d)) : nearestPattern n d = v.pattern := by
  obtain ⟨hlow, hhigh, hodd, hquarter⟩ := h.bounds hv
  have hfits := fits_exponentFor hn hd
  have hpow := two_zpow_pos v.exponent
  have hbits : (v.significand : ℚ) + 1 ≤ 2 ^ 53 := by exact_mod_cast hc.bits
  have hbelow : (n : ℚ) / d < 2 ^ 53 * 2 ^ v.exponent := by nlinarith
  have of_exponent : ∀ {e : Int} {m : Nat}, Fits ((n : ℚ) / d) e →
      roundEven (n * 2 ^ (-e).toNat) (d * 2 ^ e.toNat) = m → (e - leastExponent).toNat * 2 ^ 52 + m = v.pattern →
      nearestPattern n d = v.pattern := by
    intro e m he hm hp
    simp only [nearestPattern, if_neg hn.ne', hfits.unique he, hm, hp]
    exact Nat.min_eq_left hfinite.le
  by_cases habove : v.exponent = leastExponent ∨ 2 ^ 52 * 2 ^ v.exponent ≤ (n : ℚ) / d
  · exact of_exponent ⟨hbelow, hc.least, habove⟩ (roundEven_scaled hd hlow hhigh hodd) rfl
  · -- The quotient is below the power of two that the double is.
    rw [not_or, not_le] at habove
    obtain ⟨hne, hlt⟩ := habove
    have hleast := hc.least
    have hm : v.significand = 2 ^ 52 := by
      have hle : (v.significand : ℚ) < 2 ^ 52 + 1 := by nlinarith
      have hle' : v.significand < 2 ^ 52 + 1 := by exact_mod_cast hle
      have := hc.full
      omega
    have hge := hquarter hm (by omega)
    have hunit : (2 : ℚ) ^ v.exponent = 2 * 2 ^ (v.exponent - 1) := by
      rw [zpow_sub₀ (by norm_num)]
      norm_num
      ring
    have hpow' := two_zpow_pos (v.exponent - 1)
    rw [hunit] at hlt hge
    refine of_exponent (e := v.exponent - 1) (m := 2 ^ 53) ⟨by linarith, by omega, .inr (by linarith)⟩
      (roundEven_scaled hd (by push_cast; linarith) (by push_cast; linarith) fun h => absurd h (by decide)) ?_
    rw [pattern, hm]
    omega

end Magnitude

end Reckon
