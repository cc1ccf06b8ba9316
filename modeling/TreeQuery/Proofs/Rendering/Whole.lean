import Mathlib
import TreeQuery.Decimal.BinaryFraction

/-!
# Rounding to whole numbers

A rational is rounded to the nearest whole number, and half way between two of them to the even one
(`NearestEven`) or away from zero (`NearestAway`). Division with rounding does either
(`nearestEven_roundDiv`, `nearestAway_roundDiv`).

So does the standard model with an extended significand, which keeps of a magnitude its whole part,
whether the rest reaches a half, and whether anything is left beyond: this is all that rounding
needs (`Represents.nearestEven`), a shift does not lose it (`Represents.shiftRight`), and a quotient
has it by its remainder (`represents_div`).
-/

set_option autoImplicit false

namespace TreeQuery.Decimal

open Float.Model Float.Model.UnpackedFloat

/-! ## Nearest whole numbers -/

/-- The whole number nearest to a rational, the even one where two are equally near. -/
structure NearestEven (n : Nat) (q : ℚ) : Prop where
  near : |q - n| ≤ 1 / 2
  even : |q - n| = 1 / 2 → Even n

namespace NearestEven

variable {n k : Nat} {q : ℚ}

theorem low (nearest : NearestEven n q) : n - 1 / 2 ≤ q := by
  have := (abs_le.mp nearest.near).1
  linarith

theorem high (nearest : NearestEven n q) : q ≤ n + 1 / 2 := by
  have := (abs_le.mp nearest.near).2
  linarith

theorem one_le_abs (apart : n ≠ k) : (1 : ℚ) ≤ |(n : ℚ) - k| := by
  have whole : (1 : ℤ) ≤ |(n : ℤ) - k| := Int.one_le_abs (sub_ne_zero.mpr (by exact_mod_cast apart))
  exact_mod_cast whole

theorem abs_le (nearest : NearestEven n q) (k : Nat) : |q - n| ≤ |q - k| := by
  rcases eq_or_ne n k with rfl | apart
  · exact le_rfl
  · have gap := one_le_abs apart
    have triangle := abs_sub_le (n : ℚ) q k
    have near := nearest.near
    rw [abs_sub_comm (n : ℚ) q] at triangle
    linarith

theorem unique (first : NearestEven n q) (second : NearestEven k q) : n = k := by
  -- Two of them are neighbours with `q` half way between, and only one of those is even.
  wlog less : n < k generalizing n k
  · rcases Nat.lt_or_ge k n with more | least
    · exact (this second first more).symm
    · omega
  have bound : (n : ℚ) + 1 ≤ k := by exact_mod_cast less
  have upper := first.high
  have lower := second.low
  have middle : q = n + 1 / 2 := by linarith
  have next : k = n + 1 := by
    have exact : (k : ℚ) = ((n + 1 : Nat) : ℚ) := by push_cast; linarith
    exact_mod_cast exact
  have evenFirst := first.even (by rw [middle]; norm_num)
  have evenSecond := second.even (by rw [middle, next]; push_cast; norm_num)
  rw [next, Nat.even_add_one] at evenSecond
  exact absurd evenFirst evenSecond

end NearestEven

/-- The whole number nearest to a rational, the larger one where two are equally near. -/
structure NearestAway (n : Nat) (q : ℚ) : Prop where
  low : n - 1 / 2 ≤ q
  high : q < n + 1 / 2

namespace NearestAway

variable {n k : Nat} {q : ℚ}

theorem unique (first : NearestAway n q) (second : NearestAway k q) : n = k := by
  have below : (n : ℚ) < k + 1 := by linarith [first.low, second.high]
  have above : (k : ℚ) < n + 1 := by linarith [second.low, first.high]
  norm_cast at below above
  omega

theorem natCast (n : Nat) : NearestAway n n :=
  ⟨by linarith, by linarith⟩

/-- A half goes up. -/
theorem half (n : Nat) : NearestAway (n + 1) (n + 1 / 2) := by
  constructor <;> push_cast <;> linarith

end NearestAway

/-- A quotient by its whole part and its remainder. -/
theorem cast_div_eq (num : Nat) {den : Nat} (positive : 0 < den) :
    (num : ℚ) / den = (num / den : Nat) + ((num % den : Nat) : ℚ) / den := by
  have parts : ((den * (num / den) + num % den : Nat) : ℚ) = num := by rw [Nat.div_add_mod]
  push_cast at parts
  field_simp
  linarith

/-- How a remainder compares with half of the divisor. -/
theorem half_lt_iff {r den : Nat} (positive : 0 < den) :
    ((r : ℚ) / den < 1 / 2 ↔ 2 * r < den) ∧ (1 / 2 < (r : ℚ) / den ↔ den < 2 * r) := by
  have real : (0 : ℚ) < den := by exact_mod_cast positive
  constructor
  · rw [div_lt_iff₀ real, ← @Nat.cast_lt ℚ]
    push_cast
    constructor <;> intro less <;> linarith
  · rw [lt_div_iff₀ real, ← @Nat.cast_lt ℚ]
    push_cast
    constructor <;> intro less <;> linarith

theorem remainder_lt_one {r den : Nat} (less : r < den) : (r : ℚ) / den < 1 := by
  have real : (0 : ℚ) < den := by exact_mod_cast Nat.zero_lt_of_lt less
  rw [div_lt_one real]
  exact_mod_cast less

theorem nearestEven_of_lt {n : Nat} {q : ℚ} (near : |q - n| < 1 / 2) : NearestEven n q :=
  ⟨near.le, fun tie => absurd tie near.ne⟩

/-- Halves to even. -/
theorem nearestEven_roundDiv (num : Nat) {den : Nat} (positive : 0 < den) :
    NearestEven (roundDiv num den .even) (num / den) := by
  obtain ⟨r, remainder⟩ : ∃ r, r = num % den := ⟨_, rfl⟩
  have less : r < den := remainder ▸ Nat.mod_lt num positive
  have least : (0 : ℚ) ≤ (r : ℚ) / den := by positivity
  have most := remainder_lt_one less
  have halves := half_lt_iff (r := r) positive
  rw [cast_div_eq num positive, roundDiv, ← remainder]
  split
  · rename_i below
    have small := halves.1.mpr below
    refine nearestEven_of_lt ?_
    rw [add_sub_cancel_left, abs_of_nonneg least]
    exact small
  · split
    · rename_i above
      have large := halves.2.mpr above
      refine nearestEven_of_lt ?_
      rw [Nat.cast_add, Nat.cast_one, add_sub_add_left_eq_sub, abs_of_neg (by linarith)]
      linarith
    · rename_i notBelow notAbove
      have tie : (r : ℚ) / den = 1 / 2 :=
        le_antisymm (not_lt.mp fun large => notAbove (halves.2.mp large))
          (not_lt.mp fun small => notBelow (halves.1.mp small))
      rw [tie]
      split
      · rename_i even
        refine ⟨?_, fun _ => Nat.even_iff.mpr even⟩
        rw [add_sub_cancel_left, abs_of_pos (by norm_num)]
      · rename_i odd
        refine ⟨?_, fun _ => Nat.even_iff.mpr (by omega)⟩
        rw [Nat.cast_add, Nat.cast_one, add_sub_add_left_eq_sub, abs_of_neg (by norm_num)]
        norm_num

/-- Halves away from zero. -/
theorem nearestAway_roundDiv (num : Nat) {den : Nat} (positive : 0 < den) :
    NearestAway (roundDiv num den .away) (num / den) := by
  obtain ⟨r, remainder⟩ : ∃ r, r = num % den := ⟨_, rfl⟩
  have less : r < den := remainder ▸ Nat.mod_lt num positive
  have least : (0 : ℚ) ≤ (r : ℚ) / den := by positivity
  have most := remainder_lt_one less
  have halves := half_lt_iff (r := r) positive
  rw [cast_div_eq num positive, roundDiv, ← remainder]
  split
  · rename_i below
    have small := halves.1.mpr below
    constructor <;> linarith
  · rename_i notBelow
    have large := not_lt.mp fun small => notBelow (halves.1.mp small)
    split
    · constructor <;> push_cast <;> linarith
    · constructor <;> push_cast <;> linarith

/-! ## What an extended significand keeps -/

def half (up : Bool) : ℚ :=
  if up then 1 / 2 else 0

@[simp] theorem half_true : half true = 1 / 2 := rfl

@[simp] theorem half_false : half false = 0 := rfl

/-- The whole part of a magnitude, whether the rest reaches a half, and whether anything is left. -/
structure Represents (em : ExtendedMantissa) (q : ℚ) : Prop where
  low : em.mantissa + half em.roundBit ≤ q
  high : q < em.mantissa + half em.roundBit + 1 / 2
  sticky : em.stickyBit = false ↔ q = em.mantissa + half em.roundBit

namespace Represents

variable {em : ExtendedMantissa} {q : ℚ}

theorem whole (represents : Represents em q) : em.mantissa ≤ q ∧ q < em.mantissa + 1 := by
  have low := represents.low
  have high := represents.high
  cases up : em.roundBit <;> rw [up] at low high <;> simp only [half] at low high <;>
    norm_num at low high <;> constructor <;> linarith

/-- Nothing is lost by a shift: what is shifted out is the new rest. -/
theorem shiftRightOne (represents : Represents em q) : Represents em.shiftRightOne (q / 2) := by
  obtain ⟨low, high⟩ := represents.whole
  have sticky := represents.sticky
  obtain ⟨m, up, left⟩ := em
  have parts : ((2 * (m / 2) + m % 2 : Nat) : ℚ) = m := by rw [Nat.div_add_mod]
  have bit : half (m % 2 != 0) = ((m % 2 : Nat) : ℚ) / 2 := by
    rcases Nat.mod_two_eq_zero_or_one m with even | odd
    · rw [even]
      norm_num [half]
    · rw [odd]
      norm_num [half]
  push_cast at parts
  simp only at low high sticky
  refine ⟨?_, ?_, ?_⟩ <;> simp only [ExtendedMantissa.shiftRightOne, bit]
  · linarith
  · linarith
  · rw [Bool.or_eq_false_iff]
    constructor
    · rintro ⟨rfl, none⟩
      have exact := sticky.mp none
      norm_num [half] at exact
      linarith
    · intro exact
      have same : q = m := by linarith
      cases up with
      | false => exact ⟨rfl, sticky.mpr (by norm_num [half, same])⟩
      | true =>
          have least := represents.low
          norm_num [half, same] at least

theorem shiftRight (represents : Represents em q) (k : Nat) :
    Represents (em >>> k) (q / 2 ^ k) := by
  induction k with
  | zero =>
      rw [pow_zero, div_one]
      exact represents
  | succ k ih =>
      rw [pow_succ, ← div_div]
      exact ih.shiftRightOne

/-- **An extended significand is rounded to the nearest whole number**, halves to even. -/
theorem nearestEven (represents : Represents em q) : NearestEven em.roundedMantissa q := by
  obtain ⟨low, high, sticky⟩ := represents
  obtain ⟨m, up, left⟩ := em
  simp only at low high sticky
  cases up with
  | false =>
      simp only [half, Bool.false_eq_true, if_false, add_zero] at low high
      have down : ExtendedMantissa.roundedMantissa ⟨m, false, left⟩ = m := by cases left <;> rfl
      rw [down]
      exact nearestEven_of_lt (by rw [abs_of_nonneg] <;> linarith)
  | true =>
      simp only [half, if_true] at low high sticky
      cases left with
      | true =>
          have up : ExtendedMantissa.roundedMantissa ⟨m, true, true⟩ = m + 1 := rfl
          have beyond : q ≠ m + 1 / 2 := fun tie => Bool.noConfusion (sticky.mpr tie)
          have more := lt_of_le_of_ne low beyond.symm
          rw [up]
          refine nearestEven_of_lt ?_
          push_cast
          rw [abs_of_neg] <;> linarith
      | false =>
          have tie := sticky.mp rfl
          have even : ExtendedMantissa.roundedMantissa ⟨m, true, false⟩ = m + m % 2 := rfl
          rw [even, tie]
          rcases Nat.mod_two_eq_zero_or_one m with zero | one
          · rw [zero, add_zero]
            refine ⟨?_, fun _ => Nat.even_iff.mpr zero⟩
            rw [add_sub_cancel_left]
            norm_num
          · rw [one]
            refine ⟨?_, fun _ => Nat.even_iff.mpr (by omega)⟩
            push_cast
            rw [add_sub_add_left_eq_sub]
            norm_num [abs_of_neg]

end Represents

/-- A quotient of whole numbers, with the accuracy of its remainder. -/
theorem represents_div (num : Nat) {den : Nat} (positive : 0 < den) :
    Represents (ExtendedMantissa.ofMantissaAndAccuracy (num / den)
      (accuracyOfFraction (num % den) den)) (num / den) := by
  have less := Nat.mod_lt num positive
  have least : (0 : ℚ) ≤ ((num % den : Nat) : ℚ) / den := by positivity
  have most := remainder_lt_one less
  have halves := half_lt_iff (r := num % den) positive
  rw [cast_div_eq num positive]
  generalize num % den = r at *
  unfold accuracyOfFraction
  split
  · rename_i zero
    rw [zero, Nat.cast_zero, zero_div, add_zero]
    refine ⟨?_, ?_, ?_⟩ <;> norm_num [ExtendedMantissa.ofMantissaAndAccuracy, half]
  · rename_i nonzero
    have some : (0 : ℚ) < (r : ℚ) / den := by
      have real : (0 : ℚ) < r := by exact_mod_cast Nat.pos_of_ne_zero nonzero
      have realToo : (0 : ℚ) < den := by exact_mod_cast positive
      positivity
    cases order : compare (2 * r) den with
    | lt =>
        have small := halves.1.mpr (Nat.compare_eq_lt.mp order)
        refine ⟨?_, ?_, iff_of_false nofun fun same => ?_⟩ <;>
          simp only [ExtendedMantissa.ofMantissaAndAccuracy, half_false] at *
        · linarith
        · linarith
        · linarith
    | eq =>
        have tie : (r : ℚ) / den = 1 / 2 := by
          have same := Nat.compare_eq_eq.mp order
          exact le_antisymm (not_lt.mp fun large => (halves.2.mp large).ne' same)
            (not_lt.mp fun small => (halves.1.mp small).ne same)
        rw [tie]
        refine ⟨?_, ?_, ?_⟩ <;> norm_num [ExtendedMantissa.ofMantissaAndAccuracy, half]
    | gt =>
        have large := halves.2.mpr (Nat.compare_eq_gt.mp order)
        refine ⟨?_, ?_, iff_of_false nofun fun same => ?_⟩ <;>
          simp only [ExtendedMantissa.ofMantissaAndAccuracy, half_true] at *
        · linarith
        · linarith
        · linarith

theorem represents_exact (m : Nat) :
    Represents (ExtendedMantissa.ofMantissaAndAccuracy m .exact) m := by
  have whole := represents_div m Nat.one_pos
  rw [Nat.div_one, Nat.mod_one, Nat.cast_one, div_one] at whole
  exact whole

end TreeQuery.Decimal
