import Mathlib
import Reckon.Number.Numeral

/-!
# The bits of a double

All bits are those of a double but the ones of a NaN other than the canonical one (`Float.toBits_ofBits`). What
`Reading.ofFloat` says of a double agrees with the operations on doubles: with the tests for NaN and infinity
(`Reading.ofFloat_eq_nan_iff`, `Reading.isInf_iff`), with the sign (`Float.neg_ofBits`), and with sums and products of
numbers that have none (`Unsigned.add`, `Unsigned.mul`).
-/

namespace Reckon

open Float.Model.UnpackedFloat

/-! ## Fields -/

/-- The format of doubles. -/
abbrev doubles : Float.Model.Format := Float.Model.Format.binary64

theorem toNat_unpackMantissa (b : BitVec 64) :
    (@unpackMantissa doubles b).toNat = b.toNat % 2 ^ 52 := by
  simp [unpackMantissa]

theorem toNat_unpackExponent (b : BitVec 64) :
    (@unpackExponent doubles b).toNat = b.toNat / 2 ^ 52 % 2 ^ 11 := by
  simp [unpackExponent, Nat.shiftRight_eq_div_pow]

theorem toNat_unpackSign (b : BitVec 64) :
    (@unpackSign doubles b).toNat = b.toNat / 2 ^ 63 := by
  have hb : b.toNat < 2 ^ 64 := b.isLt
  simp [unpackSign, Nat.shiftRight_eq_div_pow]
  omega

theorem toNat_packComponents (s : Sign) (e : BitVec 11) (m : BitVec 52) :
    BitVec.toNat (packComponents doubles s e m) = s.toBitVec.toNat * 2 ^ 63 + e.toNat * 2 ^ 52 + m.toNat := by
  have he := e.isLt
  have hm := m.isLt
  simp only [packComponents, BitVec.toNat_append]
  rw [← Nat.shiftLeft_add_eq_or_of_lt hm, ← Nat.shiftLeft_add_eq_or_of_lt he]
  simp only [Nat.shiftLeft_eq]
  omega

/-- The exponent field that belongs to infinities and NaN. -/
theorem unpackExponent_eq_ones_iff (b : BitVec 64) :
    @unpackExponent doubles b = -1#_ ↔ b.toNat / 2 ^ 52 % 2 ^ 11 = 2047 := by
  rw [← BitVec.toNat_inj, toNat_unpackExponent]
  exact Iff.rfl

theorem unpackExponent_eq_zero_iff (b : BitVec 64) :
    @unpackExponent doubles b = 0#_ ↔ b.toNat / 2 ^ 52 % 2 ^ 11 = 0 := by
  rw [← BitVec.toNat_inj, toNat_unpackExponent]
  exact Iff.rfl

theorem unpackMantissa_eq_zero_iff (b : BitVec 64) : @unpackMantissa doubles b = 0#_ ↔ b.toNat % 2 ^ 52 = 0 := by
  rw [← BitVec.toNat_inj, toNat_unpackMantissa]
  exact Iff.rfl

/-- The mantissa of a normal double has a bit that is not written. -/
theorem toNat_implicit (m : BitVec 52) : (1#1 ++ m).toNat = 2 ^ 52 + m.toNat := by
  rw [BitVec.toNat_append, ← Nat.shiftLeft_add_eq_or_of_lt (BitVec.isLt _)]
  rfl

/-! ## Doubles as bits -/

theorem Magnitude.infinitePattern_pos : 0 < Magnitude.infinitePattern := by decide

theorem Magnitude.infinitePattern_lt : Magnitude.infinitePattern < 2 ^ 63 := by decide

/-- Bits that are not those of a NaN are the bits of their double. -/
theorem Float.toBits_ofBits {b : UInt64} (h : b.toNat % 2 ^ 63 ≤ Magnitude.infinitePattern) :
    (Float.ofBits b).toBits = b := by
  have hnumber : ¬@isNaNBits doubles b.toBitVec = true := by
    intro hnan
    rw [isNaNBits, decide_eq_true_eq] at hnan
    have hexponent := (unpackExponent_eq_ones_iff _).1 hnan.1
    have hmantissa := mt (unpackMantissa_eq_zero_iff _).2 hnan.2
    have hnat : b.toBitVec.toNat = b.toNat := rfl
    simp only [Magnitude.infinitePattern] at h
    omega
  exact UInt64.toBitVec_inj.1 ((@pack_unpack doubles b.toBitVec (by decide)).trans (if_neg hnumber))

/-! ## Readings -/

/-- The sign that the top bit stands for. -/
theorem ofBitVec_unpackSign (b : BitVec 64) :
    Sign.ofBitVec (@unpackSign doubles b) = if b.toNat < 2 ^ 63 then .positive else .negative := by
  have hb : b.toNat < 2 ^ 64 := b.isLt
  have hzero : @unpackSign doubles b = 0#1 ↔ b.toNat < 2 ^ 63 := by
    rw [← BitVec.toNat_inj, toNat_unpackSign]
    simp only [BitVec.toNat_ofNat]
    omega
  rw [Sign.ofBitVec]
  simp only [hzero]

/-- What bits are unpacked to, by the 63 lower ones. -/
theorem unpack_cases (b : BitVec 64) :
    let s : Sign := if b.toNat < 2 ^ 63 then .positive else .negative
    (b.toNat % 2 ^ 63 = Magnitude.infinitePattern ∧ unpack doubles b = .infinity s) ∨
      (Magnitude.infinitePattern < b.toNat % 2 ^ 63 ∧ unpack doubles b = .notANumber) ∨
      (b.toNat % 2 ^ 63 = 0 ∧ unpack doubles b = .zero s) ∨
      (b.toNat % 2 ^ 63 < Magnitude.infinitePattern ∧ ∃ m e h, unpack doubles b = .finite s m e h) := by
  intro s
  have hones := unpackExponent_eq_ones_iff b
  have hzero := unpackExponent_eq_zero_iff b
  have hmzero := unpackMantissa_eq_zero_iff b
  simp only [Magnitude.infinitePattern, unpack, ofBitVec_unpackSign]
  split
  · next he =>
    have hexponent := hones.1 he
    split
    · next hm =>
      have hmantissa := hmzero.1 hm
      exact .inl ⟨by omega, rfl⟩
    · next hm =>
      have hmantissa := mt hmzero.2 hm
      exact .inr (.inl ⟨by omega, rfl⟩)
  · next he =>
    have hexponent := mt hones.2 he
    split
    · next he =>
      have hexponent := hzero.1 he
      split
      · next hm =>
        have hmantissa := hmzero.1 hm
        exact .inr (.inr (.inl ⟨by omega, rfl⟩))
      · next hm =>
        have hmantissa := mt hmzero.2 hm
        have hpos : 0 < (@unpackMantissa doubles b).toNat := by
          rw [toNat_unpackMantissa]
          omega
        exact .inr (.inr (.inr ⟨by omega, _, _, hpos, rfl⟩))
    · have hpos : 0 < (1#1 ++ @unpackMantissa doubles b).toNat := by
        rw [toNat_implicit]
        omega
      exact .inr (.inr (.inr ⟨by omega, _, _, hpos, rfl⟩))

theorem isNaN_iff (x : Float) : x.isNaN = true ↔ Magnitude.infinitePattern < x.toBits.toNat % 2 ^ 63 := by
  have hx : x.isNaN = (unpack doubles x.toBits.toBitVec).isNaN := rfl
  have hpos := Magnitude.infinitePattern_pos
  rw [hx]
  rcases unpack_cases x.toBits.toBitVec with ⟨h, hu⟩ | ⟨h, hu⟩ | ⟨h, hu⟩ | ⟨h, _, _, _, hu⟩ <;>
    rw [hu] <;> simp only [isNaN, UInt64.toNat_toBitVec] at h ⊢ <;> simp <;> omega

theorem isInf_iff (x : Float) : x.isInf = true ↔ x.toBits.toNat % 2 ^ 63 = Magnitude.infinitePattern := by
  have hx : x.isInf = (unpack doubles x.toBits.toBitVec).isInf := rfl
  have hpos := Magnitude.infinitePattern_pos
  rw [hx]
  rcases unpack_cases x.toBits.toBitVec with ⟨h, hu⟩ | ⟨h, hu⟩ | ⟨h, hu⟩ | ⟨h, _, _, _, hu⟩ <;>
    rw [hu] <;> simp only [isInf, UInt64.toNat_toBitVec] at h ⊢ <;> simp <;> omega

theorem Reading.ofFloat_eq_nan_iff {x : Float} : Reading.ofFloat x = .nan ↔ x.isNaN = true := by
  rw [isNaN_iff]
  simp only [Reading.ofFloat]
  split
  · next h => exact ⟨nofun, fun h' => by omega⟩
  · split
    · next h => exact ⟨nofun, fun h' => by omega⟩
    · next h h' => exact ⟨fun _ => by omega, fun _ => rfl⟩

/-! ## Signs -/

/-- Neither NaN nor with a sign, not even the one of zero. -/
def Unsigned (x : Float) : Prop :=
  x.toBits.toNat ≤ Magnitude.infinitePattern

instance (x : Float) : Decidable (Unsigned x) :=
  inferInstanceAs (Decidable (x.toBits.toNat ≤ Magnitude.infinitePattern))

/-- The sign bit makes the negative. -/
theorem unpack_neg (b c : BitVec 64) (h : c.toNat = b.toNat + 2 ^ 63) :
    unpack doubles c = (unpack doubles b).neg := by
  have hc : c.toNat < 2 ^ 64 := c.isLt
  have hmantissa : @unpackMantissa doubles c = @unpackMantissa doubles b := by
    apply BitVec.eq_of_toNat_eq
    rw [toNat_unpackMantissa, toNat_unpackMantissa]
    omega
  have hexponent : @unpackExponent doubles c = @unpackExponent doubles b := by
    apply BitVec.eq_of_toNat_eq
    rw [toNat_unpackExponent, toNat_unpackExponent]
    omega
  have hpositive : Sign.ofBitVec (@unpackSign doubles b) = .positive := by
    rw [ofBitVec_unpackSign, if_pos (by omega)]
  have hnegative : Sign.ofBitVec (@unpackSign doubles c) = .negative := by
    rw [ofBitVec_unpackSign, if_neg (by omega)]
  simp only [unpack, hpositive, hnegative, hmantissa, hexponent]
  by_cases he : @unpackExponent doubles b = -1#_
  · rw [if_pos he, if_pos he]
    split <;> rfl
  · rw [if_neg he, if_neg he]
    by_cases he : @unpackExponent doubles b = 0#_
    · rw [if_pos he, if_pos he]
      split <;> rfl
    · rw [if_neg he, if_neg he]
      rfl

theorem Float.neg_ofBits {n : Nat} (h : n ≤ Magnitude.infinitePattern) :
    -Float.ofBits (.ofNat n) = Float.ofBits (.ofNat (n + 2 ^ 63)) := by
  have hinf := Magnitude.infinitePattern_lt
  have hn : (UInt64.ofNat n).toNat = n := by
    simp only [UInt64.toNat_ofNat']
    omega
  have hn' : (UInt64.ofNat (n + 2 ^ 63)).toNat = n + 2 ^ 63 := by
    simp only [UInt64.toNat_ofNat']
    omega
  have hbits := Float.toBits_ofBits (b := UInt64.ofNat n) (by omega)
  have hneg := unpack_neg (UInt64.ofNat n).toBitVec (UInt64.ofNat (n + 2 ^ 63)).toBitVec (by
    rw [UInt64.toNat_toBitVec, UInt64.toNat_toBitVec, hn, hn'])
  show Float.ofModel (.pack (unpack doubles (Float.ofBits (.ofNat n)).toBits.toBitVec).neg) = _
  rw [hbits, ← hneg]
  rfl

/-- The sign is not set, and it is not NaN. -/
def Positive : Float.Model.UnpackedFloat → Prop
  | .infinity .positive | .zero .positive | .finite .positive _ _ _ => True
  | _ => False

theorem positive_unpack {b : BitVec 64} (h : b.toNat ≤ Magnitude.infinitePattern) :
    Positive (unpack doubles b) := by
  have hinf := Magnitude.infinitePattern_lt
  have hcases := unpack_cases b
  simp only [if_pos (show b.toNat < 2 ^ 63 by omega)] at hcases
  rcases hcases with ⟨-, hu⟩ | ⟨hlt, -⟩ | ⟨-, hu⟩ | ⟨-, _, _, _, hu⟩
  · rw [hu]
    trivial
  · omega
  · rw [hu]
    trivial
  · rw [hu]
    trivial

theorem toNat_pack_le {u : Float.Model.UnpackedFloat} (h : Positive u) :
    (pack doubles u).toNat ≤ Magnitude.infinitePattern := by
  match u, h with
  | .infinity .positive, _ => decide
  | .zero .positive, _ => decide
  | .finite .positive m e _, _ =>
    simp only [pack]
    split
    · decide
    · split
      · next hexponent _ =>
        rw [toNat_packComponents]
        have hm : (BitVec.ofNat 52 m).toNat < 2 ^ 52 := BitVec.isLt _
        simp only [Sign.toBitVec, Magnitude.infinitePattern, BitVec.toNat_ofNat] at hm ⊢
        omega
      · rw [toNat_packComponents]
        have hm : (BitVec.ofNat 52 m).toNat < 2 ^ 52 := BitVec.isLt _
        simp only [Sign.toBitVec, Magnitude.infinitePattern, BitVec.toNat_ofNat] at hm ⊢
        omega

/-- Rounding keeps the sign. -/
theorem positive_roundWithAccuracy (m : Nat) (e : Int) (a : Accuracy) :
    Positive (roundWithAccuracy doubles .positive m e a) := by
  simp only [roundWithAccuracy]
  split <;> trivial

theorem Positive.mul {u v : Float.Model.UnpackedFloat} (hu : Positive u)
    (hv : ∃ m e h, v = .finite .positive m e h) : Positive (Float.Model.UnpackedFloat.mul doubles u v) := by
  obtain ⟨m, e, h, rfl⟩ := hv
  match u, hu with
  | .infinity .positive, _ => trivial
  | .zero .positive, _ => trivial
  | .finite .positive m' e' _, _ => exact positive_roundWithAccuracy _ _ _

theorem Positive.add {u v : Float.Model.UnpackedFloat} (hu : Positive u) (hv : Positive v) :
    Positive (Float.Model.UnpackedFloat.add doubles u v) := by
  match u, v, hu, hv with
  | .infinity .positive, .infinity .positive, _, _ => trivial
  | .infinity .positive, .zero .positive, _, _ => trivial
  | .infinity .positive, .finite .positive _ _ _, _, _ => trivial
  | .zero .positive, .infinity .positive, _, _ => trivial
  | .zero .positive, .zero .positive, _, _ => trivial
  | .zero .positive, .finite .positive _ _ _, _, _ => trivial
  | .finite .positive _ _ _, .infinity .positive, _, _ => trivial
  | .finite .positive _ _ _, .zero .positive, _, _ => trivial
  | .finite .positive m e hm, .finite .positive m' e' _, _, _ =>
    have hpos : 0 < m <<< (e - min e e').toNat := by
      rw [Nat.shiftLeft_eq]
      exact Nat.mul_pos hm (Nat.two_pow_pos _)
    have hsum : compare ((m <<< (e - min e e').toNat : Nat) + (m' <<< (e' - min e e').toNat : Nat) : Int) 0 = .gt := by
      rw [Int.compare_eq_gt]
      exact Int.add_pos_of_pos_of_nonneg (Int.natCast_pos.2 hpos) (Int.natCast_nonneg _)
    simp only [Float.Model.UnpackedFloat.add, decreaseExponent, Sign.apply, Float.Model.UnpackedFloat.normalize, hsum]
    exact positive_roundWithAccuracy _ _ _

/-- The double of bits that are packed without a sign. -/
theorem unsigned_pack {u : Float.Model.UnpackedFloat} (h : Positive u) : Unsigned (.ofModel (.pack u)) :=
  toNat_pack_le h

theorem Unsigned.positive {x : Float} (h : Unsigned x) : Positive x.toModel.unpack :=
  positive_unpack h

/-- A product with a positive finite double is still unsigned. -/
theorem Unsigned.mul {x y : Float} (hx : Unsigned x) (hy : Unsigned y) (hzero : y.toBits.toNat ≠ 0)
    (hinf : y.toBits.toNat ≠ Magnitude.infinitePattern) : Unsigned (x * y) := by
  refine unsigned_pack (hx.positive.mul ?_)
  have hlt := Magnitude.infinitePattern_lt
  have hcases := unpack_cases y.toBits.toBitVec
  simp only [Unsigned] at hy
  simp only [UInt64.toNat_toBitVec, if_pos (show y.toBits.toNat < 2 ^ 63 by omega),
    Nat.mod_eq_of_lt (show y.toBits.toNat < 2 ^ 63 by omega)] at hcases
  rcases hcases with ⟨h, -⟩ | ⟨h, -⟩ | ⟨h, -⟩ | ⟨-, hu⟩
  · exact absurd h hinf
  · omega
  · exact absurd h hzero
  · exact hu

theorem Unsigned.add {x y : Float} (hx : Unsigned x) (hy : Unsigned y) : Unsigned (x + y) :=
  unsigned_pack (hx.positive.add hy.positive)

/-- An unsigned double is not NaN. -/
theorem Unsigned.isNaN {x : Float} (h : Unsigned x) : x.isNaN = false := by
  have hlt := Magnitude.infinitePattern_lt
  rw [Bool.eq_false_iff]
  intro hnan
  rw [isNaN_iff] at hnan
  simp only [Unsigned] at h
  omega

/-- The sign of a number is its top bit. -/
theorem isNegative_eq {x : Float} (h : x.isNaN = false) : isNegative x = decide (2 ^ 63 ≤ x.toBits.toNat) := by
  have hle : x.toBits.toNat % 2 ^ 63 ≤ Magnitude.infinitePattern := by
    rw [Bool.eq_false_iff, Ne, isNaN_iff] at h
    omega
  simp only [isNegative, Reading.ofFloat]
  by_cases hlt : x.toBits.toNat % 2 ^ 63 < Magnitude.infinitePattern
  · rw [if_pos hlt]
  · rw [if_neg hlt, if_pos (by omega)]

/-- The doubles that are written without a sign. -/
theorem unsigned_iff {x : Float} : Unsigned x ↔ x.isNaN = false ∧ isNegative x = false := by
  have hlt := Magnitude.infinitePattern_lt
  constructor
  · intro h
    refine ⟨h.isNaN, ?_⟩
    simp only [Unsigned] at h
    rw [isNegative_eq (Unsigned.isNaN h), decide_eq_false_iff_not]
    omega
  · rintro ⟨hnan, hsign⟩
    rw [isNegative_eq hnan, decide_eq_false_iff_not] at hsign
    rw [Bool.eq_false_iff, Ne, isNaN_iff] at hnan
    simp only [Unsigned]
    omega

/-- An unsigned double that is not infinite is the number of its bits. -/
theorem Unsigned.ofFloat_eq {x : Float} (h : Unsigned x) (hinf : x.isInf = false) :
    x.toBits.toNat < Magnitude.infinitePattern ∧
      Reading.ofFloat x = .finite false (.ofPattern x.toBits.toNat) := by
  have hlt := Magnitude.infinitePattern_lt
  have hle : x.toBits.toNat ≤ Magnitude.infinitePattern := h
  have hne : x.toBits.toNat % 2 ^ 63 ≠ Magnitude.infinitePattern := by
    rw [Ne, ← isInf_iff, hinf]
    nofun
  have hmod : x.toBits.toNat % 2 ^ 63 = x.toBits.toNat := by omega
  have hfinite : x.toBits.toNat < Magnitude.infinitePattern := by omega
  refine ⟨hfinite, ?_⟩
  simp only [Reading.ofFloat, hmod]
  rw [if_pos hfinite, decide_eq_false (by omega)]

/-- The only unsigned double that is infinite. -/
theorem Unsigned.eq_of_isInf {x : Float} (h : Unsigned x) (hinf : x.isInf = true) :
    x = Float.ofBits (.ofNat Magnitude.infinitePattern) := by
  have hlt := Magnitude.infinitePattern_lt
  have hle : x.toBits.toNat ≤ Magnitude.infinitePattern := h
  rw [isInf_iff] at hinf
  have hbits : x.toBits.toNat = Magnitude.infinitePattern := by omega
  rw [← hbits, UInt64.ofNat_toNat, Float.ofBits_toBits]

/-! ## Absolute values -/

/-- The double without its sign bit. -/
def absolute (x : Float) : Float :=
  Float.ofBits (.ofNat (x.toBits.toNat % 2 ^ 63))

section

variable {x : Float}

theorem toNat_toBits_absolute (h : x.isNaN = false) : (absolute x).toBits.toNat = x.toBits.toNat % 2 ^ 63 := by
  have hle : x.toBits.toNat % 2 ^ 63 ≤ Magnitude.infinitePattern := by
    rw [Bool.eq_false_iff, Ne, isNaN_iff] at h
    omega
  have hbits : (UInt64.ofNat (x.toBits.toNat % 2 ^ 63)).toNat = x.toBits.toNat % 2 ^ 63 := by
    rw [UInt64.toNat_ofNat']
    omega
  rw [absolute, Float.toBits_ofBits (by rw [hbits, Nat.mod_mod]; exact hle), hbits]

theorem unsigned_absolute (h : x.isNaN = false) : Unsigned (absolute x) := by
  rw [Unsigned, toNat_toBits_absolute h]
  rw [Bool.eq_false_iff, Ne, isNaN_iff] at h
  omega

/-- A negative double is the negative of its absolute value. -/
theorem neg_absolute (h : x.isNaN = false) (hnegative : isNegative x = true) : -absolute x = x := by
  rw [isNegative_eq h, decide_eq_true_eq] at hnegative
  rw [Bool.eq_false_iff, Ne, isNaN_iff] at h
  have hlt : x.toBits.toNat < 2 ^ 64 := x.toBits.toNat_lt
  have hbits : x.toBits.toNat % 2 ^ 63 + 2 ^ 63 = x.toBits.toNat := by omega
  rw [absolute, Float.neg_ofBits (by omega), hbits, UInt64.ofNat_toNat, Float.ofBits_toBits]

/-- A negative double and its absolute value are the same number but for the sign. -/
theorem ofFloat_absolute (h : x.isNaN = false) (hnegative : isNegative x = true) :
    (∃ v, Reading.ofFloat x = .finite true v ∧ Reading.ofFloat (absolute x) = .finite false v) ∨
      (Reading.ofFloat x = .infinite true ∧ Reading.ofFloat (absolute x) = .infinite false) := by
  have hbits := toNat_toBits_absolute h
  rw [isNegative_eq h] at hnegative
  rw [Bool.eq_false_iff, Ne, isNaN_iff] at h
  have hpositive : decide (2 ^ 63 ≤ x.toBits.toNat % 2 ^ 63) = false := decide_eq_false (by omega)
  simp only [Reading.ofFloat, hbits, Nat.mod_mod, hnegative, hpositive]
  by_cases hfinite : x.toBits.toNat % 2 ^ 63 < Magnitude.infinitePattern
  · exact .inl ⟨_, if_pos hfinite, if_pos hfinite⟩
  · have hinf : x.toBits.toNat % 2 ^ 63 = Magnitude.infinitePattern := by omega
    exact .inr ⟨by rw [if_neg hfinite, if_pos hinf], by rw [if_neg hfinite, if_pos hinf]⟩

end

end Reckon
