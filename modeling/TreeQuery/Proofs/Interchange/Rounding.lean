import Mathlib
import TreeQuery.Proofs.Interchange.Doubles

/-!
# Decimals that do not overflow

The point half way between the largest double and the next power of two is
`(2 ^ 54 - 1) * 2 ^ 970`. What lies below it is rounded to a finite double: a significand with an
exponent (`Below.isFinite_round`), and so a product, a quotient and a decimal
(`isFinite_nearest`).
-/

set_option autoImplicit false

namespace TreeQuery.Decimal

open Float.Model Float.Model.UnpackedFloat

/-! ## Packing -/

/-- A significand with an exponent that is not too large is packed as a finite double. -/
theorem isFinite_pack (s : Sign) {m : Nat} {e : Int} (positive : 0 < m) (most : e ≤ 971) :
    (Float.Model.pack (.finite s m e positive)).isFinite = true := by
  have biased : (e + Format.binary64.exponentBias +
      Format.binary64.mantissaBitsWithoutImplicit).toNat = (e + 1075).toNat := by
    simp only [Format.exponentBias]
    norm_num
    omega
  have fits : ¬ 2 ^ Format.binary64.exponentBits ≤ (e + 1075).toNat + 1 := by
    norm_num
    omega
  have exponent : BitVec.ofNat 11 (e + 1075).toNat ≠ -1#11 := by
    intro same
    have := congrArg BitVec.toNat same
    rw [BitVec.toNat_ofNat, Nat.mod_eq_of_lt (by omega)] at this
    norm_num at this
    omega
  change (UnpackedFloat.unpack .binary64
    (UnpackedFloat.pack .binary64 (.finite s m e positive))).isFinite = true
  simp only [UnpackedFloat.pack, biased, fits, if_false]
  split
  · simp only [UnpackedFloat.unpack, unpackExponent_packComponents, exponent, if_false]
    split
    · split <;> rfl
    · rfl
  · simp only [UnpackedFloat.unpack, unpackExponent_packComponents]
    rw [if_neg (by decide)]
    split
    · split <;> rfl
    · rfl

theorem isFinite_packed (s : Sign) (m : Nat) {e : Int} (most : e ≤ 971) :
    (Float.Model.pack (if h : m = 0 then .zero s else .finite s m e (Nat.pos_of_ne_zero h))).isFinite =
      true := by
  by_cases zero : m = 0
  · rw [dif_pos zero]
    cases s <;> rfl
  · rw [dif_neg zero]
    exact isFinite_pack s _ most

/-- The exponent of a finite double is not too large. -/
theorem exponent_le_of_unpack {x : Float.Model} {s : Sign} {m : Nat} {e : Int} {positive : 0 < m}
    (unpacked : x.unpack = .finite s m e positive) : e ≤ 971 := by
  change UnpackedFloat.unpack .binary64 x.toBits.toBitVec = _ at unpacked
  have bound : (@unpackExponent .binary64 x.toBits.toBitVec).toNat < 2048 := BitVec.isLt _
  have ones : (-1#11).toNat = 2047 := rfl
  simp only [UnpackedFloat.unpack] at unpacked
  split at unpacked
  · split at unpacked <;> cases unpacked
  · rename_i finite
    have small : (@unpackExponent .binary64 x.toBits.toBitVec).toNat ≠ 2047 := fun same =>
      finite (BitVec.eq_of_toNat_eq (same.trans ones.symm))
    split at unpacked
    · split at unpacked
      · cases unpacked
      · rename_i least _
        obtain ⟨-, -, rfl⟩ := UnpackedFloat.finite.inj unpacked
        simp only [least, Format.exponentBias]
        norm_num
    · obtain ⟨-, -, rfl⟩ := UnpackedFloat.finite.inj unpacked
      simp only [Format.exponentBias]
      norm_num
      omega

/-! ## Rounding -/

@[simp] theorem mantissa_ofAccuracy (m : Nat) (accuracy : Accuracy) :
    (ExtendedMantissa.ofMantissaAndAccuracy m accuracy).mantissa = m := by
  cases accuracy with
  | exact => rfl
  | inexact side => cases side <;> rfl

theorem mantissa_shiftRight (em : ExtendedMantissa) (k : Nat) :
    (em >>> k).mantissa = em.mantissa / 2 ^ k := by
  induction k with
  | zero => simp [HShiftRight.hShiftRight, Nat.repeat]
  | succ k ih =>
      change (em >>> k).mantissa / 2 = _
      rw [ih, Nat.div_div_eq_div_mul, Nat.pow_succ]

theorem roundBit_shiftRight (em : ExtendedMantissa) (k : Nat) :
    (em >>> (k + 1)).roundBit = (em.mantissa / 2 ^ k % 2 != 0) := by
  change ((em >>> k).mantissa % 2 != 0) = _
  rw [mantissa_shiftRight]

theorem roundedMantissa_le (em : ExtendedMantissa) : em.roundedMantissa ≤ em.mantissa + 1 := by
  obtain ⟨m, roundBit, stickyBit⟩ := em
  cases roundBit <;> cases stickyBit <;>
    simp only [ExtendedMantissa.roundedMantissa, ExtendedMantissa.accuracy,
      Accuracy.roundToNearestEven] <;> omega

/-- Only what is half way up or further is rounded up. -/
theorem roundBit_of_roundedMantissa {em : ExtendedMantissa}
    (up : em.mantissa < em.roundedMantissa) : em.roundBit = true := by
  obtain ⟨m, roundBit, stickyBit⟩ := em
  cases roundBit with
  | true => rfl
  | false =>
      cases stickyBit <;>
        simp only [ExtendedMantissa.roundedMantissa, ExtendedMantissa.accuracy,
          Accuracy.roundToNearestEven, Nat.lt_irrefl] at up

/-- A significand with an exponent whose value does not reach the point half way between the largest
double and the next power of two. -/
structure Below (m : Nat) (e : Int) : Prop where
  exponent : e ≤ 970
  value : m < (2 ^ 54 - 1) * 2 ^ (970 - e).toNat

namespace Below

variable {m : Nat} {e : Int}

theorem log2_le (below : Below m e) : (m.log2 : Int) + 1 + e ≤ 1024 := by
  have exponent := below.exponent
  rcases Nat.eq_zero_or_pos m with rfl | positive
  · simp
    omega
  · have bound : m < 2 ^ (54 + (970 - e).toNat) := by
      refine Nat.lt_of_lt_of_le below.value ?_
      rw [Nat.pow_add]
      exact Nat.mul_le_mul_right _ (by norm_num)
    have log := (Nat.log2_lt positive.ne').mpr bound
    omega

/-- Once at most 53 bits are left, rounding stays below the next power of two: to be rounded up to it
at the largest exponent, a significand would have to be half way there. -/
theorem log2_rounded (below : Below m e) (accuracy : Accuracy) {k : Nat} (short : m.log2 + 1 ≤ 53 + k)
    (most : e + k ≤ 971) :
    ((ExtendedMantissa.ofMantissaAndAccuracy m accuracy >>> k).roundedMantissa.log2 : Int) + 1 +
      (e + k) ≤ 1024 := by
  let em := ExtendedMantissa.ofMantissaAndAccuracy m accuracy >>> k
  change (em.roundedMantissa.log2 : Int) + 1 + (e + k) ≤ 1024
  have exponent := below.exponent
  have rounded := roundedMantissa_le em
  have whole : em.mantissa = m / 2 ^ k := by
    rw [mantissa_shiftRight, mantissa_ofAccuracy]
  have bits : em.mantissa < 2 ^ 53 := by
    rw [whole, Nat.div_lt_iff_lt_mul (Nat.two_pow_pos k), ← Nat.pow_add]
    exact Nat.lt_of_lt_of_le Nat.lt_log2_self (Nat.pow_le_pow_right (by decide) short)
  rcases Nat.lt_or_ge em.roundedMantissa (2 ^ 53) with small | carry
  · have log : em.roundedMantissa.log2 < 53 := by
      rcases Nat.eq_zero_or_pos em.roundedMantissa with zero | positive
      · rw [zero]
        decide
      · exact (Nat.log2_lt positive.ne').mpr small
    omega
  · have full : em.roundedMantissa = 2 ^ 53 := by omega
    have log : em.roundedMantissa.log2 = 53 := by rw [full, Nat.log2_two_pow]
    refine Int.not_lt.mp fun beyond => ?_
    obtain ⟨j, rfl⟩ : ∃ j, k = j + 1 := ⟨k - 1, by omega⟩
    have half : m / 2 ^ j % 2 = 1 := by
      have up : em.roundBit = true := roundBit_of_roundedMantissa (by omega)
      rw [roundBit_shiftRight, mantissa_ofAccuracy, bne_iff_ne] at up
      omega
    have upper : m / 2 ^ j / 2 = 2 ^ 53 - 1 := by
      rw [Nat.div_div_eq_div_mul, ← Nat.pow_succ, ← whole]
      omega
    have least : (2 ^ 54 - 1) * 2 ^ j ≤ m := by
      rw [← Nat.le_div_iff_mul_le (Nat.two_pow_pos j)]
      omega
    have last : (970 - e).toNat = j := by omega
    have value := below.value
    rw [last] at value
    omega

/-- **What is below the half way point is rounded to a finite double.** -/
theorem isFinite_round (below : Below m e) (s : Sign) (accuracy : Accuracy) :
    (Float.Model.pack (roundWithAccuracy .binary64 s m e accuracy)).isFinite = true := by
  have exponent := below.exponent
  have log := below.log2_le
  have target : ∀ (m : Nat) (e : Int), Format.binary64.targetExponent (totalExponent m e) =
      max ((m.log2 : Int) + 1 + e - 53) (-1074) := by
    intro m e
    simp only [Format.targetExponent, totalExponent, Format.mantissaBits, Format.minExponent]
    norm_num
  have room := below.log2_rounded accuracy
    (k := (Format.binary64.targetExponent (totalExponent m e) - e).toNat)
    (by rw [target]; omega) (by rw [target]; omega)
  simp only [roundWithAccuracy, UnpackedFloat.shiftToTargetExponent, shiftToExponent]
  refine isFinite_packed s _ ?_
  rw [target] at room ⊢
  rw [target]
  omega

end Below

/-! ## Products, quotients and decimals -/

theorem isFinite_mul {s₁ s₂ : Sign} {m₁ m₂ : Nat} {e₁ e₂ : Int} {p₁ : 0 < m₁} {p₂ : 0 < m₂}
    (below : Below (m₁ * m₂) (e₁ + e₂)) :
    (Float.Model.pack (UnpackedFloat.mul .binary64 (.finite s₁ m₁ e₁ p₁)
      (.finite s₂ m₂ e₂ p₂))).isFinite = true :=
  below.isFinite_round (s₁ * s₂) .exact

theorem isFinite_div {s₁ s₂ : Sign} {m₁ m₂ : Nat} {e₁ e₂ : Int} {p₁ : 0 < m₁} {p₂ : 0 < m₂}
    (exponent : e₁ - e₂ ≤ 970) (value : m₁ < (2 ^ 54 - 1) * 2 ^ (970 - (e₁ - e₂)).toNat * m₂) :
    (Float.Model.pack (UnpackedFloat.div .binary64 (.finite s₁ m₁ e₁ p₁)
      (.finite s₂ m₂ e₂ p₂))).isFinite = true := by
  let target := min (e₁ - e₂)
    (Format.binary64.targetExponent (totalExponent m₁ e₁ - totalExponent m₂ e₂))
  have lower : target ≤ e₁ - e₂ := min_le_left _ _
  have below : Below ((m₁ <<< (e₁ - e₂ - target).toNat) / m₂) target := by
    refine ⟨lower.trans exponent, ?_⟩
    have split : (970 - target).toNat = (970 - (e₁ - e₂)).toNat + (e₁ - e₂ - target).toNat := by
      omega
    rw [Nat.div_lt_iff_lt_mul p₂, Nat.shiftLeft_eq, split, Nat.pow_add]
    calc m₁ * 2 ^ (e₁ - e₂ - target).toNat
        < (2 ^ 54 - 1) * 2 ^ (970 - (e₁ - e₂)).toNat * m₂ * 2 ^ (e₁ - e₂ - target).toNat :=
          Nat.mul_lt_mul_of_pos_right value (Nat.two_pow_pos _)
      _ = _ := by ring
  exact below.isFinite_round _ _

/-- The least magnitude that is rounded to infinity. -/
def overflow : Nat := (2 ^ 54 - 1) * twoTo 970

theorem overflow_eq {n : Nat} (last : n = 970) : overflow = (2 ^ 54 - 1) * 2 ^ n := by
  rw [overflow, ← last]
  rfl

attribute [irreducible] overflow

theorem overflow_le {k : Nat} (enough : 342 ≤ k) : overflow ≤ 10 ^ k := by
  obtain ⟨n, last⟩ : ∃ n, n = 970 := ⟨_, rfl⟩
  calc overflow = (2 ^ 54 - 1) * 2 ^ n := overflow_eq last
    _ ≤ 2 ^ 54 * 2 ^ n := Nat.mul_le_mul_right _ (by norm_num)
    _ ≤ 2 ^ (3 * k) := by
        rw [← Nat.pow_add]
        exact Nat.pow_le_pow_right (by decide) (by omega)
    _ = (2 ^ 3) ^ k := by rw [Nat.pow_mul]
    _ ≤ 10 ^ k := Nat.pow_le_pow_left (by decide) _

/-- Powers of ten up to the twenty-second are doubles of no great size. -/
theorem unpack_powerOfTen (k : Fin 23) :
    ∃ m e, ∃ positive : 0 < m, (Float.exactlyRepresentablePowersOfTen[k]).toModel.unpack =
      .finite .positive m e positive ∧ m < 2 ^ 53 ∧ -100 ≤ e ∧ e ≤ 100 := by
  have each : ∀ k : Fin 23, (match (Float.exactlyRepresentablePowersOfTen[k]).toModel.unpack with
      | .finite .positive m e _ => decide (m < 2 ^ 53 ∧ -100 ≤ e ∧ e ≤ 100)
      | _ => false) = true := by
    decide +kernel
  have here := each k
  split at here
  · rename_i m e positive unpacked
    exact ⟨m, e, positive, unpacked, of_decide_eq_true here⟩
  · cases here

/-- Few digits and a small power of ten are multiplied or divided at once. -/
theorem isFinite_ofScientific_short {m : Nat} (positive : 0 < m) (short : m < 2 ^ 53) {k : Nat}
    (small : k ≤ 22) (negative : Bool) : (Float.ofScientific m negative k).isFinite = true := by
  have normal := Normal.of_lt positive short
  have converted := toModel_toFloat positive short
  have log : m.log2 ≤ 52 := Nat.le_of_lt_succ ((Nat.log2_lt positive.ne').mpr short)
  have inside : k < Float.exactlyRepresentablePowersOfTen.size := Nat.lt_succ_of_le small
  obtain ⟨p, e, pPositive, unpacked, narrow, low, high⟩ := unpack_powerOfTen ⟨k, inside⟩
  have power : (Float.exactlyRepresentablePowersOfTen[k]).toModel.unpack =
    .finite .positive p e pPositive := unpacked
  have room : ∀ j : Int, j ≤ 100 → 2 ^ 53 * 2 ^ 53 < (2 ^ 54 - 1) * 2 ^ (970 - j).toNat := by
    intro j least
    calc 2 ^ 53 * 2 ^ 53 < (2 ^ 54 - 1) * 2 ^ 53 := by norm_num
      _ ≤ (2 ^ 54 - 1) * 2 ^ (970 - j).toNat :=
          Nat.mul_le_mul_left _ (Nat.pow_le_pow_right (by decide) (by omega))
  unfold Float.ofScientific
  rw [dif_pos ⟨short, small⟩]
  split
  · change (Float.Model.pack (UnpackedFloat.div .binary64 m.toUInt64.toFloat.toModel.unpack
      (Float.exactlyRepresentablePowersOfTen[k]).toModel.unpack)).isFinite = true
    rw [converted, normal.unpack_pack, power]
    refine isFinite_div (by omega) ?_
    have enough := room (-((52 - m.log2 : Nat) : Int) - e) (by omega)
    have high := normal.high
    calc m * 2 ^ (52 - m.log2) < (2 ^ 54 - 1) * 2 ^ (970 - (-((52 - m.log2 : Nat) : Int) - e)).toNat := by
          omega
      _ ≤ _ := Nat.le_mul_of_pos_right _ pPositive
  · change (Float.Model.pack (UnpackedFloat.mul .binary64 m.toUInt64.toFloat.toModel.unpack
      (Float.exactlyRepresentablePowersOfTen[k]).toModel.unpack)).isFinite = true
    rw [converted, normal.unpack_pack, power]
    exact isFinite_mul ⟨by omega,
      (Nat.mul_lt_mul'' normal.high narrow).trans (room _ (by omega))⟩

/-- A decimal whose magnitude does not reach the point of overflow. -/
def Fits (digits : Nat) (power : Int) : Prop :=
  digits * 10 ^ power.toNat < overflow * 10 ^ (-power).toNat

theorem Fits.isFinite_model {m : Nat} {e : Int} (fits : Fits m e) (positive : 0 < m) :
    (Float.Model.pack (UnpackedFloat.ofScientific .binary64 m e)).isFinite = true := by
  have bound : m * 10 ^ e.toNat < overflow * 10 ^ (-e).toNat := fits
  unfold UnpackedFloat.ofScientific
  rw [dif_neg positive.ne']
  split
  · rename_i large
    have up : 2048 < e := large
    have down : (-e).toNat = 0 := by omega
    rw [down, Nat.pow_zero, Nat.mul_one] at bound
    have least : overflow ≤ m * 10 ^ e.toNat :=
      (overflow_le (by omega)).trans (Nat.le_mul_of_pos_left _ positive)
    omega
  · split
    · rfl
    · obtain ⟨n, last⟩ : ∃ n, n = 970 := ⟨_, rfl⟩
      rw [overflow_eq last] at bound
      split
      · have down : (-e).toNat = 0 := by omega
        have bits : Format.binary64.mantissaBits = 53 := rfl
        have shift : (970 - (-((53 : Nat) : Int) + 0)).toNat = n + 53 := by omega
        rw [down, Nat.pow_zero, Nat.mul_one] at bound
        refine isFinite_mul ⟨by rw [bits]; norm_num, ?_⟩
        rw [bits, shift, Nat.pow_add, Nat.shiftLeft_eq]
        calc m * 2 ^ 53 * 10 ^ e.toNat = m * 10 ^ e.toNat * 2 ^ 53 := Nat.mul_right_comm ..
          _ < (2 ^ 54 - 1) * 2 ^ n * 2 ^ 53 := Nat.mul_lt_mul_of_pos_right bound (by decide)
          _ = _ := Nat.mul_assoc ..
      · have up : e.toNat = 0 := by omega
        have shift : (970 - ((0 : Int) - 0)).toNat = n := by omega
        rw [up, Nat.pow_zero, Nat.mul_one] at bound
        refine isFinite_div (by norm_num) ?_
        rw [shift]
        exact bound

/-- **A decimal that does not reach the point of overflow is rounded to a finite double.** -/
theorem Fits.isFinite_ofScientific {m : Nat} {e : Int} (fits : Fits m e) (positive : 0 < m) :
    (Float.ofScientific m (decide (e < 0)) e.natAbs).isFinite = true := by
  by_cases short : m < 2 ^ 53 ∧ e.natAbs ≤ 22
  · exact isFinite_ofScientific_short positive short.1 short.2 _
  · have power : (if decide (e < 0) = true then Int.negOfNat e.natAbs else Int.ofNat e.natAbs) = e := by
      by_cases negative : e < 0
      · simp only [negative, decide_true, if_true, Int.negOfNat_eq]
        change -(e.natAbs : Int) = e
        omega
      · simp only [negative, decide_false, Bool.false_eq_true, if_false]
        change (e.natAbs : Int) = e
        omega
    unfold Float.ofScientific
    rw [dif_neg short, power]
    exact fits.isFinite_model positive

/-- A number with so many digits is at least that power of ten. -/
theorem pow_le_of_toDigits {n : Nat} (positive : 0 < n) :
    10 ^ ((Nat.toDigits 10 n).length - 1) ≤ n := by
  refine Nat.not_lt.mp fun fewer => ?_
  rcases Nat.eq_zero_or_pos ((Nat.toDigits 10 n).length - 1) with zero | more
  · rw [zero, Nat.pow_zero] at fewer
    omega
  · have short := Nat.toDigits_length 10 n _ more fewer
    omega

theorem Fits.isFinite_nearest {digits : Nat} {power : Int} (fits : Fits digits power) :
    (nearest digits power).isFinite = true := by
  unfold nearest
  dsimp only
  split
  · decide +kernel
  · rename_i nonzero
    have positive : 0 < digits := Nat.pos_of_ne_zero nonzero
    rw [if_neg ?_]
    · split
      · decide +kernel
      · exact fits.isFinite_ofScientific positive
    · intro beyond
      -- The digits alone are at least a power of ten.
      have least := pow_le_of_toDigits positive
      have ample : overflow ≤ 10 ^ 399 := overflow_le (by decide)
      have bound : digits * 10 ^ power.toNat < overflow * 10 ^ (-power).toNat := fits
      have beyondToo : overflow * 10 ^ (-power).toNat ≤ digits * 10 ^ power.toNat := by
        calc overflow * 10 ^ (-power).toNat
            ≤ 10 ^ 399 * 10 ^ (-power).toNat := Nat.mul_le_mul_right _ ample
          _ ≤ 10 ^ ((Nat.toDigits 10 digits).length - 1) * 10 ^ power.toNat := by
              rw [← Nat.pow_add, ← Nat.pow_add]
              exact Nat.pow_le_pow_right (by decide) (by omega)
          _ ≤ digits * 10 ^ power.toNat := Nat.mul_le_mul_right _ least
      omega

/-- The sign of a double does not matter. -/
theorem isFinite_neg {x : Float} (finite : x.isFinite = true) : (-x).isFinite = true := by
  change (Float.Model.pack x.toModel.unpack.neg).isFinite = true
  change x.toModel.unpack.isFinite = true at finite
  cases unpacked : x.toModel.unpack with
  | notANumber | infinity _ =>
      rw [unpacked] at finite
      cases finite
  | zero s => cases s <;> rfl
  | finite s m e positive => exact isFinite_pack _ positive (exponent_le_of_unpack unpacked)

end TreeQuery.Decimal
