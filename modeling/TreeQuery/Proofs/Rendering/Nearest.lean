import Mathlib
import TreeQuery.Proofs.Interchange.Rounding
import TreeQuery.Proofs.Rendering.Exact
import TreeQuery.Proofs.Rendering.Whole

/-!
# Rounding to the nearest double

A magnitude is rounded on the grid of a power of two that leaves it 53 bits, or on the finest grid of
all, to the nearest multiple and of two to the even one (`Rounded`). This is what the standard model
does to a significand with an accuracy (`exists_rounded`), and so to products and quotients
(`Exactly.mul`, `Exactly.div`).

No double is nearer to the exact magnitude than the rounded one (`Rounded.abs_le`), so rounding
keeps to its side of every double (`Rounded.le_of_le`, `Rounded.ge_of_ge`).
-/

set_option autoImplicit false

namespace TreeQuery.Decimal

open Float.Model Float.Model.UnpackedFloat

/-! ## Rounding on a grid -/

/-- A double that is a magnitude rounded: `n` steps on the grid of `2 ^ t`, the nearest to it. -/
structure Rounded (x : Float) (negative : Bool) (q : ℚ) (n : Nat) (t : Int) : Prop where
  least : -1074 ≤ t
  high : q < 2 ^ 53 * 2 ^ t
  full : 2 ^ 52 * 2 ^ t ≤ q ∨ t = -1074
  nearest : NearestEven n (q / 2 ^ t)
  exactly : Exactly x negative (n * 2 ^ t)

theorem targetExponent_eq (m : Nat) (e : Int) :
    Format.binary64.targetExponent (totalExponent m e) =
      max ((m.log2 : Int) + 1 + e - 53) (-1074) := by
  simp only [Format.targetExponent, totalExponent, Format.mantissaBits, Format.minExponent]
  norm_num

/-- A significand of at most 53 bits stays as it is. -/
theorem shiftToTargetExponent_short {n : Nat} (short : n < 2 ^ 53) {t : Int} (least : -1074 ≤ t) :
    shiftToTargetExponent .binary64 n t .exact = (⟨n, false, false⟩, t) := by
  have log : n.log2 < 53 := by
    rcases Nat.eq_zero_or_pos n with rfl | positive
    · decide
    · exact (Nat.log2_lt positive.ne').mpr short
  have none : (Format.binary64.targetExponent (totalExponent n t) - t).toNat = 0 := by
    rw [targetExponent_eq]
    omega
  simp only [UnpackedFloat.shiftToTargetExponent, shiftToExponent, none]
  exact congrArg _ (by rw [Nat.cast_zero, add_zero])

/-- One more bit, after rounding up to a power of two, is shifted out. -/
theorem shiftToTargetExponent_carry {t : Int} (least : -1074 ≤ t) :
    shiftToTargetExponent .binary64 (2 ^ 53) t .exact = (⟨2 ^ 52, false, false⟩, t + 1) := by
  have one : (Format.binary64.targetExponent (totalExponent (2 ^ 53) t) - t).toNat = 1 := by
    rw [targetExponent_eq, Nat.log2_two_pow]
    omega
  simp only [UnpackedFloat.shiftToTargetExponent, shiftToExponent, one]
  rfl

/-- What a significand with an accuracy is rounded to. -/
theorem roundWithAccuracy_eq (s : Sign) {m k n : Nat} {e t : Int} {accuracy : Accuracy}
    (target : t = Format.binary64.targetExponent (totalExponent m e)) (shift : e + k = t)
    (rounds : n = (ExtendedMantissa.ofMantissaAndAccuracy m accuracy >>> k).roundedMantissa)
    (short : n ≤ 2 ^ 53) :
    roundWithAccuracy .binary64 s m e accuracy =
      if n < 2 ^ 53 then signed s n t else signed s (2 ^ 52) (t + 1) := by
  have least : -1074 ≤ t := by
    rw [target, targetExponent_eq]
    exact le_max_right _ _
  have amount : (Format.binary64.targetExponent (totalExponent m e) - e).toNat = k := by omega
  have first : shiftToTargetExponent .binary64 m e accuracy =
      (ExtendedMantissa.ofMantissaAndAccuracy m accuracy >>> k, t) := by
    simp only [UnpackedFloat.shiftToTargetExponent, shiftToExponent, amount, shift]
  have again : roundWithAccuracy .binary64 s m e accuracy =
      signed s (shiftToTargetExponent .binary64 n t .exact).1.mantissa
        (shiftToTargetExponent .binary64 n t .exact).2 := by
    rw [roundWithAccuracy, first, rounds]
    rfl
  rw [again]
  split
  · rename_i below
    rw [shiftToTargetExponent_short below least]
  · obtain rfl : n = 2 ^ 53 := by omega
    rw [shiftToTargetExponent_carry least]

theorem mantissa_le_roundedMantissa (em : ExtendedMantissa) : em.mantissa ≤ em.roundedMantissa := by
  obtain ⟨m, up, left⟩ := em
  cases up <;> cases left <;>
    simp only [ExtendedMantissa.roundedMantissa, ExtendedMantissa.accuracy,
      Accuracy.roundToNearestEven] <;> omega

/-- A shift that leaves at most 53 bits. -/
theorem shifted_lt {m k : Nat} (short : m.log2 ≤ 52 + k) : m / 2 ^ k < 2 ^ 53 := by
  rw [Nat.div_lt_iff_lt_mul (Nat.two_pow_pos k), ← Nat.pow_add]
  exact Nat.lt_of_lt_of_le Nat.lt_log2_self (Nat.pow_le_pow_right (by decide) (by omega))

/-- A shift that leaves 53 bits. -/
theorem le_shifted {m k : Nat} (long : m.log2 = 52 + k) : 2 ^ 52 ≤ m / 2 ^ k := by
  have nonzero : m ≠ 0 := by
    rintro rfl
    rw [Nat.log2_zero] at long
    omega
  rw [Nat.le_div_iff_mul_le (Nat.two_pow_pos k), ← Nat.pow_add, ← long]
  exact Nat.log2_self_le nonzero

/-- The range of a magnitude on a grid that leaves 53 bits, or on the finest grid perhaps fewer. -/
theorem Represents.range {em : ExtendedMantissa} {q : ℚ} {t : Int}
    (represents : Represents em (q / 2 ^ t)) (bits : em.mantissa < 2 ^ 53)
    (leading : 2 ^ 52 ≤ em.mantissa ∨ t = -1074) :
    q < 2 ^ 53 * 2 ^ t ∧ (2 ^ 52 * 2 ^ t ≤ q ∨ t = -1074) := by
  have unit : (0 : ℚ) < 2 ^ t := zpow_pos two_pos t
  obtain ⟨low, high⟩ := represents.whole
  rw [le_div_iff₀ unit] at low
  rw [div_lt_iff₀ unit] at high
  constructor
  · have cast : (em.mantissa : ℚ) + 1 ≤ 2 ^ 53 := by exact_mod_cast bits
    exact high.trans_le (mul_le_mul_of_nonneg_right cast unit.le)
  · refine leading.imp_left fun leads => ?_
    have cast : (2 : ℚ) ^ 52 ≤ em.mantissa := by exact_mod_cast leads
    exact (mul_le_mul_of_nonneg_right cast unit.le).trans low

/-- What the rounding of a significand packs is a double, one binade up after a carry. -/
theorem Exactly.of_rounded {x : Float} {negative : Bool} {n : Nat} {t : Int} (short : n ≤ 2 ^ 53)
    (least : -1074 ≤ t) (most : t ≤ 1) (full : 2 ^ 52 ≤ n ∨ t = -1074)
    (made : x.toModel = Float.Model.pack (if n < 2 ^ 53 then signed (signOf negative) n t
      else signed (signOf negative) (2 ^ 52) (t + 1))) : Exactly x negative (n * 2 ^ t) := by
  split at made
  · rename_i below
    exact Exactly.of_pack ⟨below, least, by omega, full⟩ made
  · have carry : ((2 ^ 52 : Nat) : ℚ) * 2 ^ (t + 1) = n * 2 ^ t := by
      obtain rfl : n = 2 ^ 53 := by omega
      rw [zpow_add_one₀ two_ne_zero]
      push_cast
      ring
    exact carry ▸ Exactly.of_pack ⟨by norm_num, by omega, by omega, .inl le_rfl⟩ made

/-- **Rounding goes to the nearest multiple of the grid**, for magnitudes up to `2 ^ 53`. The
significand has 53 bits at least, or the exponent is no larger than the least one. -/
theorem exists_rounded {x : Float} {negative : Bool} {m : Nat} {e : Int} {accuracy : Accuracy}
    {q : ℚ}
    (represents : Represents (ExtendedMantissa.ofMantissaAndAccuracy m accuracy) (q / 2 ^ e))
    (enough : 52 ≤ m.log2 ∨ e ≤ -1074) (bounded : q ≤ 2 ^ 53)
    (made : x.toModel =
      Float.Model.pack (roundWithAccuracy .binary64 (signOf negative) m e accuracy)) :
    ∃ n t, Rounded x negative q n t := by
  obtain ⟨t, target⟩ : ∃ t, t = Format.binary64.targetExponent (totalExponent m e) := ⟨_, rfl⟩
  have place : t = max ((m.log2 : Int) + 1 + e - 53) (-1074) := target.trans (targetExponent_eq m e)
  obtain ⟨k, shift⟩ : ∃ k : Nat, e + k = t := ⟨(t - e).toNat, by omega⟩
  obtain ⟨em, shifted⟩ : ∃ em, em = ExtendedMantissa.ofMantissaAndAccuracy m accuracy >>> k :=
    ⟨_, rfl⟩
  have scaled : Represents em (q / 2 ^ t) := by
    have split : (2 : ℚ) ^ t = 2 ^ e * 2 ^ k := by
      rw [← shift, zpow_add₀ two_ne_zero, zpow_natCast]
    rw [shifted, split, ← div_div]
    exact represents.shiftRight k
  have mantissa : em.mantissa = m / 2 ^ k := by
    rw [shifted, mantissa_shiftRight, mantissa_ofAccuracy]
  have bits : em.mantissa < 2 ^ 53 := mantissa ▸ shifted_lt (by omega)
  have leading : 2 ^ 52 ≤ em.mantissa ∨ t = -1074 :=
    or_iff_not_imp_right.mpr fun above => mantissa ▸ le_shifted (by omega)
  obtain ⟨high, full⟩ := scaled.range bits leading
  have most : t ≤ 1 := by
    rcases full with full | least
    · have power : (2 : ℚ) ^ t ≤ 2 ^ (1 : Int) := by linarith
      exact (zpow_le_zpow_iff_right₀ one_lt_two).mp power
    · omega
  obtain ⟨n, rounds⟩ : ∃ n, n = em.roundedMantissa := ⟨_, rfl⟩
  have atMost := roundedMantissa_le em
  have atLeast := mantissa_le_roundedMantissa em
  rw [← rounds] at atMost atLeast
  rw [roundWithAccuracy_eq _ target shift (shifted ▸ rounds) (by omega)] at made
  refine ⟨n, t, by omega, high, full, rounds ▸ scaled.nearestEven, ?_⟩
  exact .of_rounded (by omega) (by omega) most (leading.imp_left (Nat.le_trans · atLeast)) made

/-! ## Products and quotients -/

theorem Rounded.zero {x : Float} {negative : Bool} (exactly : Exactly x negative 0) :
    Rounded x negative 0 0 (-1074) := by
  refine ⟨le_rfl, by positivity, .inr rfl, ⟨by norm_num, fun tie => ?_⟩, ?_⟩
  · norm_num at tie
  · rw [Nat.cast_zero, zero_mul]
    exact exactly

theorem Exactly.zero {x : Float} {negative : Bool}
    (made : x.toModel = Float.Model.pack (.zero (signOf negative))) : Exactly x negative 0 := by
  have canonical : Canonical 0 (-1074) := ⟨by norm_num, le_rfl, by norm_num, .inr rfl⟩
  have exactly := Exactly.of_pack canonical made
  rwa [Nat.cast_zero, zero_mul] at exactly

/-- A finite double is a zero or unpacked to a significand. -/
theorem Exactly.cases {x : Float} {negative : Bool} {q : ℚ} (exactly : Exactly x negative q) :
    (q = 0 ∧ x.toModel.unpack = .zero (signOf negative)) ∨
      ∃ (m : Nat) (e : Int) (positive : 0 < m), q = m * 2 ^ e ∧ Canonical m e ∧
        x.toModel.unpack = .finite (signOf negative) m e positive := by
  obtain ⟨b, exact, rfl, rfl⟩ := exactly
  obtain ⟨unpacked, canonical⟩ := unpack_of_ofFloat? exact
  unfold signed at unpacked
  split at unpacked
  · rename_i none
    exact .inl ⟨by rw [BinaryFraction.magnitude, none, Nat.cast_zero, zero_mul], unpacked⟩
  · exact .inr ⟨_, _, _, rfl, canonical, unpacked⟩

theorem quotientExponent_eq (m k : Nat) (e d : Int) :
    Format.binary64.targetExponent (totalExponent m e - totalExponent k d) =
      max ((m.log2 : Int) + e - (k.log2 + d) - 53) (-1074) := by
  simp only [Format.targetExponent, totalExponent, Format.mantissaBits, Format.minExponent]
  norm_num
  omega

/-- A dividend that is shifted far enough leaves 53 bits. -/
theorem log2_quotient {m k shift : Nat} (positive : 0 < m) (positiveToo : 0 < k)
    (far : 53 + k.log2 ≤ m.log2 + shift) : 52 ≤ (m * 2 ^ shift / k).log2 := by
  have dividend : 2 ^ (m.log2 + shift) ≤ m * 2 ^ shift := by
    rw [Nat.pow_add]
    exact Nat.mul_le_mul_right _ (Nat.log2_self_le positive.ne')
  have divisor : k < 2 ^ (k.log2 + 1) := Nat.lt_log2_self
  have least : 2 ^ 52 ≤ m * 2 ^ shift / k := by
    rw [Nat.le_div_iff_mul_le positiveToo]
    calc 2 ^ 52 * k ≤ 2 ^ 52 * 2 ^ (k.log2 + 1) := Nat.mul_le_mul_left _ divisor.le
      _ = 2 ^ (53 + k.log2) := by rw [← Nat.pow_add]; congr 1; omega
      _ ≤ 2 ^ (m.log2 + shift) := Nat.pow_le_pow_right (by decide) far
      _ ≤ m * 2 ^ shift := dividend
  exact (Nat.le_log2 (by omega)).mpr least

section Operations

variable {x y : Float} {negative : Bool} {q r : ℚ}

/-- **A product is rounded**; the second factor has no sign. -/
theorem Exactly.mul (left : Exactly x negative q) (right : Exactly y false r)
    (bounded : q * r ≤ 2 ^ 53) : ∃ n t, Rounded (x * y) negative (q * r) n t := by
  have product : (x * y).toModel =
      Float.Model.pack (UnpackedFloat.mul .binary64 x.toModel.unpack y.toModel.unpack) := rfl
  have sign : signOf negative * signOf false = signOf negative := by cases negative <;> rfl
  rcases left.cases with ⟨rfl, first⟩ | ⟨m, e, mPositive, rfl, mCanonical, first⟩ <;>
    rcases right.cases with ⟨rfl, second⟩ | ⟨k, d, kPositive, rfl, kCanonical, second⟩
  case inr.inr =>
    rw [first, second] at product
    simp only [UnpackedFloat.mul, sign] at product
    refine exists_rounded ?_ ?_ bounded product
    · have value : (m * 2 ^ e * (k * 2 ^ d) : ℚ) / 2 ^ (e + d) = (m * k : Nat) := by
        rw [zpow_add₀ two_ne_zero]
        push_cast
        field_simp
      rw [value]
      exact represents_exact (m * k)
    · have nonzero : m * k ≠ 0 := (Nat.mul_pos mPositive kPositive).ne'
      rcases mCanonical.full with full | small
      · exact .inl ((Nat.le_log2 nonzero).mpr (full.trans (Nat.le_mul_of_pos_right m kPositive)))
      · rcases kCanonical.full with full | smallToo
        · exact .inl ((Nat.le_log2 nonzero).mpr (full.trans (Nat.le_mul_of_pos_left k mPositive)))
        · exact .inr (by omega)
  all_goals
    rw [first, second] at product
    simp only [UnpackedFloat.mul, sign] at product
    simp only [zero_mul, mul_zero]
    exact ⟨0, -1074, Rounded.zero (.zero product)⟩

/-- **A quotient is rounded**; the divisor has no sign. -/
theorem Exactly.div (left : Exactly x negative q) (right : Exactly y false r) (nonzero : r ≠ 0)
    (bounded : q / r ≤ 2 ^ 53) : ∃ n t, Rounded (x / y) negative (q / r) n t := by
  have quotient : (x / y).toModel =
      Float.Model.pack (UnpackedFloat.div .binary64 x.toModel.unpack y.toModel.unpack) := rfl
  have sign : signOf negative / signOf false = signOf negative := by cases negative <;> rfl
  rcases right.cases with ⟨rfl, second⟩ | ⟨k, d, kPositive, rfl, kCanonical, second⟩
  · exact absurd rfl nonzero
  rw [second] at quotient
  rcases left.cases with ⟨rfl, first⟩ | ⟨m, e, mPositive, rfl, mCanonical, first⟩
  · rw [first] at quotient
    simp only [UnpackedFloat.div, sign] at quotient
    rw [zero_div]
    exact ⟨0, -1074, Rounded.zero (.zero quotient)⟩
  · rw [first] at quotient
    simp only [UnpackedFloat.div, sign, divCore] at quotient
    obtain ⟨target, goal⟩ : ∃ target, target = min (e - d)
        (Format.binary64.targetExponent (totalExponent m e - totalExponent k d)) := ⟨_, rfl⟩
    obtain ⟨shift, amount⟩ : ∃ shift : Nat, target + shift = e - d :=
      ⟨(e - d - target).toNat, by omega⟩
    have count : (e - d - target).toNat = shift := by omega
    rw [← goal, count, Nat.shiftLeft_eq] at quotient
    refine exists_rounded ?_ ?_ bounded quotient
    · have value : (m * 2 ^ e / (k * 2 ^ d) : ℚ) / 2 ^ target = (m * 2 ^ shift : Nat) / k := by
        have powers : (2 : ℚ) ^ e = 2 ^ d * 2 ^ target * 2 ^ shift := by
          rw [← zpow_natCast, ← zpow_add₀ two_ne_zero, ← zpow_add₀ two_ne_zero]
          congr 1
          omega
        have real : (k : ℚ) ≠ 0 := by exact_mod_cast kPositive.ne'
        rw [powers]
        push_cast
        field_simp
      rw [value]
      exact represents_div (m * 2 ^ shift) kPositive
    · refine or_iff_not_imp_right.mpr fun above => ?_
      rw [quotientExponent_eq] at goal
      exact log2_quotient mPositive kPositive (by omega)

end Operations

/-! ## No double is nearer -/

/-- A magnitude of at most 53 bits on a grid that doubles have. -/
def IsDouble (d : ℚ) : Prop :=
  ∃ (m : Nat) (e : Int), m < 2 ^ 53 ∧ -1074 ≤ e ∧ d = m * 2 ^ e

theorem Exactly.isDouble {x : Float} {negative : Bool} {d : ℚ} (exactly : Exactly x negative d) :
    IsDouble d := by
  obtain ⟨b, exact, -, rfl⟩ := exactly
  have canonical := (unpack_of_ofFloat? exact).2
  exact ⟨_, _, canonical.high, canonical.least, rfl⟩

theorem isDouble_natCast {n : Nat} (small : n ≤ 2 ^ 53) : IsDouble n := by
  rcases small.eq_or_lt with rfl | less
  · exact ⟨1, 53, by norm_num, by norm_num, by norm_num⟩
  · exact ⟨n, 0, less, by norm_num, by rw [zpow_zero, mul_one]⟩

/-- Halves are doubles up to `2 ^ 52`. -/
theorem isDouble_half {n : Nat} (small : n < 2 ^ 52) : IsDouble (n + 1 / 2) := by
  refine ⟨2 * n + 1, -1, by omega, by norm_num, ?_⟩
  rw [zpow_neg_one]
  push_cast
  ring

/-- They are not doubles from there on. -/
theorem lt_of_isDouble_half {n : Nat} (double : IsDouble (n + 1 / 2)) : n < 2 ^ 52 := by
  obtain ⟨m, e, short, -, value⟩ := double
  have twice : ((2 * n + 1 : Nat) : ℚ) = m * 2 ^ (e + 1) := by
    rw [zpow_add_one₀ two_ne_zero, ← mul_assoc, ← value]
    push_cast
    ring
  rcases Int.lt_or_le e 0 with fraction | whole
  · have bound : ((2 * n + 1 : Nat) : ℚ) ≤ m := by
      rw [twice]
      exact mul_le_of_le_one_right m.cast_nonneg (zpow_le_one_of_nonpos₀ one_le_two (by omega))
    norm_cast at bound
    omega
  · obtain ⟨k, rfl⟩ := Int.eq_ofNat_of_zero_le whole
    have even : 2 * n + 1 = 2 * (m * 2 ^ k) := by
      have real : ((2 * n + 1 : Nat) : ℚ) = 2 * (m * 2 ^ k) := by
        rw [twice, zpow_add_one₀ two_ne_zero, zpow_natCast]
        ring
      exact_mod_cast real
    omega

namespace Rounded

variable {x : Float} {negative : Bool} {q d : ℚ} {n : Nat} {t : Int}

/-- A double stands on the grid, or below it at numbers with fewer bits. -/
theorem on_or_below (rounded : Rounded x negative q n t) (double : IsDouble d) :
    (∃ k : Nat, d = k * 2 ^ t) ∨ d < 2 ^ 52 * 2 ^ t ∧ 2 ^ 52 * 2 ^ t ≤ q := by
  obtain ⟨m, e, short, least, rfl⟩ := double
  rcases Int.lt_or_le e t with finer | coarser
  · refine .inr ⟨?_, rounded.full.resolve_right (by omega)⟩
    have bits : (m : ℚ) < 2 ^ 53 := by exact_mod_cast short
    have step : (2 : ℚ) ^ (e + 1) ≤ 2 ^ t := zpow_le_zpow_right₀ one_le_two (by omega)
    rw [zpow_add_one₀ two_ne_zero] at step
    have unit : (0 : ℚ) < 2 ^ e := zpow_pos two_pos e
    nlinarith
  · refine .inl ⟨m * 2 ^ (e - t).toNat, ?_⟩
    have powers : (2 : ℚ) ^ e = 2 ^ (e - t).toNat * 2 ^ t := by
      rw [← zpow_natCast, ← zpow_add₀ two_ne_zero]
      congr 1
      omega
    rw [powers]
    push_cast
    ring

/-- Distances from the magnitude, in steps of the grid. -/
theorem abs_grid (q : ℚ) (k : Nat) (t : Int) : |k * 2 ^ t - q| = |q / 2 ^ t - k| * 2 ^ t := by
  have unit : (0 : ℚ) < 2 ^ t := zpow_pos two_pos t
  rw [abs_sub_comm, ← abs_of_pos unit, ← abs_mul, abs_of_pos unit, sub_mul,
    div_mul_cancel₀ q unit.ne']

theorem abs_le_grid (rounded : Rounded x negative q n t) (k : Nat) :
    |n * 2 ^ t - q| ≤ |k * 2 ^ t - q| := by
  rw [abs_grid, abs_grid]
  exact mul_le_mul_of_nonneg_right (rounded.nearest.abs_le k) (zpow_pos two_pos t).le

/-- What is below the numbers with 53 bits is farther away than the least of them. -/
theorem abs_lt_below (rounded : Rounded x negative q n t) (below : d < 2 ^ 52 * 2 ^ t)
    (full : 2 ^ 52 * 2 ^ t ≤ q) : |n * 2 ^ t - q| < |d - q| := by
  have edge := rounded.abs_le_grid (2 ^ 52)
  rw [Nat.cast_pow, Nat.cast_ofNat] at edge
  rw [abs_of_nonpos (by linarith : (2 : ℚ) ^ 52 * 2 ^ t - q ≤ 0)] at edge
  rw [abs_of_nonpos (by linarith : d - q ≤ 0)]
  linarith

/-- **No double is nearer to a magnitude than the rounded one.** -/
theorem abs_le (rounded : Rounded x negative q n t) (double : IsDouble d) :
    |n * 2 ^ t - q| ≤ |d - q| := by
  rcases rounded.on_or_below double with ⟨k, rfl⟩ | ⟨below, full⟩
  · exact rounded.abs_le_grid k
  · exact (rounded.abs_lt_below below full).le

/-- Any other double is farther away, unless the magnitude is half way between two steps. -/
theorem abs_lt (rounded : Rounded x negative q n t) (clear : |q / 2 ^ t - n| ≠ 1 / 2)
    (double : IsDouble d) (other : d ≠ n * 2 ^ t) : |n * 2 ^ t - q| < |d - q| := by
  rcases rounded.on_or_below double with ⟨k, rfl⟩ | ⟨below, full⟩
  · have apart : n ≠ k := by
      rintro rfl
      exact other rfl
    rw [abs_grid, abs_grid]
    refine mul_lt_mul_of_pos_right ?_ (zpow_pos two_pos t)
    have near := lt_of_le_of_ne rounded.nearest.near clear
    have gap := NearestEven.one_le_abs apart
    have triangle := abs_sub_le (n : ℚ) (q / 2 ^ t) k
    rw [abs_sub_comm (n : ℚ) (q / 2 ^ t)] at triangle
    linarith
  · exact rounded.abs_lt_below below full

theorem le_of_le (rounded : Rounded x negative q n t) (double : IsDouble d) (below : q ≤ d) :
    n * 2 ^ t ≤ d := by
  refine not_lt.mp fun above => ?_
  have near := rounded.abs_le double
  rw [abs_of_nonneg (by linarith), abs_of_nonneg (by linarith)] at near
  linarith

theorem ge_of_ge (rounded : Rounded x negative q n t) (double : IsDouble d) (above : d ≤ q) :
    d ≤ n * 2 ^ t := by
  refine not_lt.mp fun below => ?_
  have near := rounded.abs_le double
  rw [abs_of_nonpos (by linarith), abs_of_nonpos (by linarith)] at near
  linarith

/-- A double is rounded to itself. -/
theorem eq_of_isDouble (rounded : Rounded x negative q n t) (double : IsDouble q) : n * 2 ^ t = q :=
  le_antisymm (rounded.le_of_le double le_rfl) (rounded.ge_of_ge double le_rfl)

end Rounded

end TreeQuery.Decimal
