import Mathlib
import TreeQuery.Numeral
import TreeQuery.Proofs.Rendering.Decimals

/-!
# The displayed number and the rounded one

A numeral with places is displayed by rounding its exact value, halves to even. Its rounded value
comes from multiplying by a power of ten, which already rounds once, and then taking halves away
from zero. These go to different whole numbers in one case only (`RoundsApart`): the product is half
way between two of them, and the exact value is below that, or half way too and above an even
number.

Where this does not happen, the rounded value is the double nearest to the displayed decimal; where
it does (`Numeral.Torn`), it is the one nearest to the next decimal (`Numeral.rounded_displayed`).
The product stays on its side of every half (`Rounded.eq_of_not_roundsApart`), as halves are doubles
themselves where there is anything to round.
-/

set_option autoImplicit false

namespace TreeQuery.Decimal

/-! ## Multiples of a place -/

namespace BinaryFraction

theorem scaled_pos (b : BinaryFraction) (places : Nat) : 0 < (b.scaled places).2 :=
  Nat.two_pow_pos _

/-- A power of two as a quotient of two natural numbers, one of which is `1`. -/
theorem zpow_eq_div (e : Int) : (2 : ℚ) ^ e = (twoTo e.toNat : ℚ) / twoTo (-e).toNat := by
  have powers : ∀ n, (twoTo n : ℚ) = 2 ^ n := Nat.cast_pow 2
  rw [powers, powers, ← zpow_natCast, ← zpow_natCast, ← zpow_sub₀ two_ne_zero]
  congr 1
  omega

theorem scaled_eq (b : BinaryFraction) (places : Nat) :
    ((b.scaled places).1 : ℚ) / (b.scaled places).2 = b.magnitude * 10 ^ places := by
  have ten : (tenTo places : ℚ) = 10 ^ places := Nat.cast_pow 10 places
  rw [magnitude, zpow_eq_div, scaled, Nat.cast_mul, Nat.cast_mul, ten]
  ring

theorem nearestEven_roundedTo (b : BinaryFraction) (places : Nat) :
    NearestEven (b.roundedTo places .even) (b.magnitude * 10 ^ places) := by
  rw [← b.scaled_eq]
  exact nearestEven_roundDiv _ (b.scaled_pos places)

theorem nearestAway_roundedTo (b : BinaryFraction) (places : Nat) :
    NearestAway (b.roundedTo places .away) (b.magnitude * 10 ^ places) := by
  rw [← b.scaled_eq]
  exact nearestAway_roundDiv _ (b.scaled_pos places)

end BinaryFraction

/-- The nearest whole double is the nearest whole number. -/
theorem Exactly.nearestWhole {x : Float} {negative : Bool} {q : ℚ}
    (exactly : Exactly x negative q) :
    ∃ n, NearestAway n q ∧ Exactly (nearestWhole x) negative n := by
  obtain ⟨b, exact, sign, value⟩ := exactly
  have canonical := (unpack_of_ofFloat? exact).2
  rw [Decimal.nearestWhole, exact]
  by_cases whole : 0 ≤ b.exponent
  · obtain ⟨k, power⟩ := Int.eq_ofNat_of_zero_le whole
    have integer : q = (b.significand * 2 ^ k : Nat) := by
      rw [← value, BinaryFraction.magnitude, power]
      push_cast
      rfl
    refine ⟨b.significand * 2 ^ k, integer ▸ NearestAway.natCast _, ?_⟩
    simp only [whole, if_true]
    exact ⟨b, exact, sign, integer ▸ value⟩
  · have nearest := b.nearestAway_roundedTo 0
    rw [pow_zero, mul_one] at nearest
    have small : b.roundedTo 0 .away < 2 ^ 53 := by
      have bits : (b.significand : ℚ) < 2 ^ 53 := by exact_mod_cast canonical.high
      have half : b.magnitude ≤ b.significand * (1 / 2) := by
        refine mul_le_mul_of_nonneg_left ?_ b.significand.cast_nonneg
        calc (2 : ℚ) ^ b.exponent ≤ 2 ^ (-1 : Int) := zpow_le_zpow_right₀ one_le_two (by omega)
          _ = 1 / 2 := by norm_num
      have bound : (b.roundedTo 0 .away : ℚ) < 2 ^ 53 := by linarith [nearest.low]
      exact_mod_cast bound
    refine ⟨_, value ▸ nearest, ?_⟩
    simp only [whole, if_false]
    rw [sign]
    cases negative with
    | false => exact Exactly.ofNat small
    | true => exact (Exactly.ofNat small).neg

/-! ## Two ways of rounding -/

/-- A magnitude as computed is half way between two whole numbers, but the exact one is below that,
or half way too and above an even number. -/
def RoundsApart (exact computed : ℚ) : Prop :=
  ∃ k : Nat, computed = k + 1 / 2 ∧ (exact < computed ∨ exact = computed ∧ Even k)

section Agreement

variable {x : Float} {negative : Bool} {q : ℚ} {n a d : Nat} {t : Int}

/-- Where they part, the computed magnitude goes to the next number up. -/
theorem Rounded.next_of_roundsApart (rounded : Rounded x negative q n t)
    (apart : RoundsApart q (n * 2 ^ t)) (away : NearestAway a (n * 2 ^ t))
    (even : NearestEven d q) :
    a = d + 1 ∧ a ≤ 2 ^ 52 := by
  obtain ⟨k, tie, short⟩ := apart
  rw [tie] at away short
  have bound : k < 2 ^ 52 := lt_of_isDouble_half (tie ▸ rounded.exactly.isDouble)
  have low : (k : ℚ) ≤ q := by
    refine not_lt.mp fun below => ?_
    have most := rounded.le_of_le (isDouble_natCast (bound.le.trans (by norm_num))) below.le
    linarith
  have down : NearestEven k q := by
    rcases short with below | ⟨rfl, evenHalf⟩
    · exact nearestEven_of_lt (by rw [abs_of_nonneg] <;> linarith)
    · exact ⟨by norm_num, fun _ => evenHalf⟩
  obtain rfl : k = d := down.unique even
  obtain rfl : k + 1 = a := (NearestAway.half k).unique away
  exact ⟨rfl, bound⟩

/-- From `2 ^ 52` on nothing is left to round. -/
theorem Rounded.whole_of_le (rounded : Rounded x negative q n t) (large : 2 ^ 52 ≤ q)
    (bounded : q < 2 ^ 53) (even : NearestEven d q) : (d : ℚ) = n * 2 ^ t := by
  have unit : (0 : ℚ) < 2 ^ t := zpow_pos two_pos t
  have low : -1 < t := by
    have power : (2 : ℚ) ^ (-1 : Int) < 2 ^ t := by
      rw [zpow_neg_one]
      linarith [rounded.high]
    exact (zpow_lt_zpow_iff_right₀ one_lt_two).mp power
  have high : t < 1 := by
    have full := rounded.full.resolve_right (by omega)
    have power : (2 : ℚ) ^ t < 2 ^ (1 : Int) := by linarith
    exact (zpow_lt_zpow_iff_right₀ one_lt_two).mp power
  obtain rfl : t = 0 := by omega
  have nearest := rounded.nearest
  rw [zpow_zero, div_one] at nearest
  rw [zpow_zero, mul_one, nearest.unique even]

/-- **Where they do not part, both ways of rounding go to the same whole number.** -/
theorem Rounded.eq_of_not_roundsApart (rounded : Rounded x negative q n t) (bounded : q < 2 ^ 53)
    (together : ¬RoundsApart q (n * 2 ^ t)) (away : NearestAway a (n * 2 ^ t))
    (even : NearestEven d q) : a = d := by
  refine away.unique ?_
  rcases le_or_gt (2 ^ 52) q with large | small
  · rw [← rounded.whole_of_le large bounded even]
    exact NearestAway.natCast d
  have most : d ≤ 2 ^ 52 := by
    have real : (d : ℚ) < 2 ^ 52 + 1 := by linarith [even.low]
    norm_cast at real
    omega
  constructor
  · cases d with
    | zero =>
        have least : (0 : ℚ) ≤ n * 2 ^ t := by positivity
        push_cast
        linarith
    | succ k =>
        have below : (k : ℚ) + 1 / 2 ≤ q := by
          have low := even.low
          push_cast at low
          linarith
        have kept := rounded.ge_of_ge (isDouble_half (Nat.lt_of_succ_le most)) below
        push_cast
        linarith
  · rcases most.eq_or_lt with rfl | less
    · have double : IsDouble ((2 ^ 52 : Nat) : ℚ) := isDouble_natCast (by norm_num)
      have kept := rounded.le_of_le double (by push_cast; exact small.le)
      push_cast at kept ⊢
      linarith
    · have kept := rounded.le_of_le (isDouble_half less) even.high
      refine lt_of_le_of_ne kept fun tie => together ⟨d, tie, ?_⟩
      rcases even.high.lt_or_eq with below | exact
      · exact .inl (tie ▸ below)
      · refine .inr ⟨exact.trans tie.symm, even.even ?_⟩
        rw [exact]
        norm_num

end Agreement

end TreeQuery.Decimal

namespace TreeQuery.Numeral

open TreeQuery.Decimal

/-- The power of ten that a numeral is multiplied by, to be rounded. -/
def factor (n : Numeral) : Float :=
  Float.ofNat (tenTo n.precision.val)

/-- With places, the value as displayed and as computed with are rounded apart. -/
def Torn (n : Numeral) : Prop :=
  0 < n.precision.val ∧ ∃ b c, BinaryFraction.ofFloat? n.value = some b ∧
    BinaryFraction.ofFloat? (n.value * n.factor) = some c ∧
    RoundsApart (b.magnitude * 10 ^ n.precision.val) c.magnitude

section Displayed

variable {n : Numeral} {b : BinaryFraction}

/-- The number that is displayed, in steps of the last place. -/
def steps (n : Numeral) (b : BinaryFraction) : Nat :=
  b.roundedTo n.precision.val (if n.precision.val = 0 then .away else .even)

/-- The displayed text has the sign of the value, except in front of a zero without places. -/
theorem display_eq (finite : BinaryFraction.ofFloat? n.value = some b) : ∃ negative,
    n.display.toList = signText negative ++ placed (n.steps b) n.precision.val ∧
      (negative = b.negative ∨ n.precision.val = 0 ∧ n.steps b = 0) := by
  rw [display, finite]
  by_cases whole : n.precision = 0
  · have places : n.precision.val = 0 := congrArg Fin.val whole
    have displayed : n.steps b = b.roundedTo 0 .away := by rw [steps, if_pos places, places]
    refine ⟨b.negative && b.roundedTo 0 .away != 0, ?_, ?_⟩
    · rw [displayed, places]
      simp only [whole, if_true, String.toList_ofList]
      rfl
    · rcases eq_or_ne (b.roundedTo 0 .away) 0 with zero | nonzero
      · exact .inr ⟨places, displayed.trans zero⟩
      · rw [bne_iff_ne.mpr nonzero, Bool.and_true]
        exact .inl rfl
  · have places : n.precision.val ≠ 0 := fun none => whole (Fin.ext none)
    refine ⟨b.negative, ?_, .inl rfl⟩
    simp only [steps, whole, places, if_false, String.toList_ofList, BinaryFraction.fixed]

/-- The product with the power of ten, and the whole number that the rounded value comes from. -/
theorem rounded_nearest (finite : BinaryFraction.ofFloat? n.value = some b)
    (small : b.magnitude * 10 ^ n.precision.val < 2 ^ 53) :
    ∃ m t a, Rounded (n.value * n.factor) b.negative (b.magnitude * 10 ^ n.precision.val) m t ∧
      NearestAway a (m * 2 ^ t) ∧
      NearestDouble (withSign b.negative (a / 10 ^ n.precision.val)) n.rounded := by
  have limit : n.precision.val ≤ 15 := Nat.le_of_lt_succ n.precision.isLt
  have value : Exactly n.value b.negative b.magnitude := ⟨b, finite, rfl, rfl⟩
  obtain ⟨m, t, product⟩ := value.mul (exactly_tenTo limit) small.le
  obtain ⟨a, nearest, whole⟩ := product.exactly.nearestWhole
  have few : a ≤ 2 ^ 53 := by
    have top := product.le_of_le (isDouble_natCast le_rfl) (by exact_mod_cast small.le)
    have less : (a : ℚ) < (2 ^ 53 : Nat) + 1 := by linarith [nearest.low]
    norm_cast at less
    exact Nat.le_of_lt_succ less
  obtain ⟨k, s, quotient⟩ := exists_quotient whole few limit
  refine ⟨m, t, a, product, nearest, ?_⟩
  rw [rounded, roundTo, if_pos value.isFinite]
  simp only [quotient.exactly.isFinite]
  exact quotient_nearest whole few limit

variable {negative : Bool} {m a : Nat} {t : Int}

theorem Torn.next (torn : n.Torn) (finite : BinaryFraction.ofFloat? n.value = some b)
    (product :
      Rounded (n.value * n.factor) negative (b.magnitude * 10 ^ n.precision.val) m t)
    (away : NearestAway a (m * 2 ^ t)) : a = n.steps b + 1 ∧ a ≤ 2 ^ 52 := by
  obtain ⟨places, b', c, same, computed, apart⟩ := torn
  obtain rfl : b = b' := Option.some.inj (finite.symm.trans same)
  obtain ⟨c', exact, -, magnitude⟩ := product.exactly
  obtain rfl : c' = c := Option.some.inj (exact.symm.trans computed)
  rw [magnitude] at apart
  rw [steps, if_neg places.ne']
  exact product.next_of_roundsApart apart away (b.nearestEven_roundedTo _)

theorem steps_of_not_torn (together : ¬n.Torn)
    (finite : BinaryFraction.ofFloat? n.value = some b)
    (small : b.magnitude * 10 ^ n.precision.val < 2 ^ 53)
    (product :
      Rounded (n.value * n.factor) negative (b.magnitude * 10 ^ n.precision.val) m t)
    (away : NearestAway a (m * 2 ^ t)) : a = n.steps b := by
  rcases Nat.eq_zero_or_pos n.precision.val with places | places
  · -- Without places there is no product to round, and halves go away from zero both times.
    have double : IsDouble (b.magnitude * 10 ^ n.precision.val) := by
      have exactly : Exactly n.value b.negative b.magnitude := ⟨b, finite, rfl, rfl⟩
      rw [places]
      simpa using exactly.isDouble
    rw [product.eq_of_isDouble double] at away
    rw [steps, if_pos places]
    exact away.unique (b.nearestAway_roundedTo _)
  · obtain ⟨c, exact, -, magnitude⟩ := product.exactly
    rw [steps, if_neg places.ne']
    refine product.eq_of_not_roundsApart small (fun apart => together ?_) away
      (b.nearestEven_roundedTo _)
    exact ⟨places, b, c, finite, exact, magnitude ▸ apart⟩

/-- **The rounded value is the double nearest to the decimal that is displayed, unless the two are
rounded apart**; then it is the one nearest to the next decimal away from zero. -/
theorem rounded_displayed (finite : BinaryFraction.ofFloat? n.value = some b)
    (small : b.magnitude * 10 ^ n.precision.val < 2 ^ 53) :
    ∃ l, read? n.display.toList = some (.literal l) ∧ l.places = n.precision.val ∧ l.power = 0 ∧
      (NearestDouble l.toRat n.rounded ↔ ¬n.Torn) ∧
      (n.Torn → NearestDouble
        (withSign l.negative ((digitsValue l.digits + 1 : Nat) / 10 ^ l.places)) n.rounded) := by
  obtain ⟨negative, text, sign⟩ := display_eq finite
  obtain ⟨digits, value, read⟩ := read?_placed negative (n.steps b) n.precision.val
  obtain ⟨m, t, a, product, away, nearest⟩ := rounded_nearest finite small
  have signs : withSign negative (n.steps b / 10 ^ n.precision.val) =
      withSign b.negative (n.steps b / 10 ^ n.precision.val) := by
    rcases sign with rfl | ⟨-, zero⟩
    · rfl
    · rw [zero, Nat.cast_zero, zero_div, withSign_zero, withSign_zero]
  refine ⟨⟨negative, digits, n.precision.val, 0⟩, text ▸ read, rfl, rfl, ⟨?_, ?_⟩, ?_⟩
  · rw [Literal.toRat_placed, value, signs]
    intro same torn
    obtain ⟨next, few⟩ := torn.next finite product away
    rw [next] at nearest few
    exact nearest_apart (Nat.le_of_lt_succ n.precision.isLt) few nearest same
  · rw [Literal.toRat_placed, value, signs]
    intro together
    rwa [steps_of_not_torn together finite small product away] at nearest
  · intro torn
    obtain rfl : negative = b.negative := sign.resolve_right fun whole => torn.1.ne' whole.1
    rwa [(torn.next finite product away).1, ← value] at nearest

end Displayed

/-- Three eighths with two places are a tie above an odd number, which goes to `0.38` both ways. -/
theorem rounded_displayed_eighths : ∃ b l, BinaryFraction.ofFloat? (0.375 : Float) = some b ∧
    b.magnitude * 10 ^ 2 < 2 ^ 53 ∧
      read? (display ⟨0.375, some 2⟩).toList = some (.literal l) ∧ l.places = 2 ∧ l.power = 0 ∧
      ¬Torn ⟨0.375, some 2⟩ ∧ NearestDouble l.toRat (rounded ⟨0.375, some 2⟩) := by
  have finite : BinaryFraction.ofFloat? (0.375 : Float) = some ⟨false, 6755399441055744, -54⟩ := by
    decide +kernel
  have exactly : BinaryFraction.magnitude ⟨false, 6755399441055744, -54⟩ * 10 ^ 2 = 37 + 1 / 2 := by
    norm_num [BinaryFraction.magnitude]
  have small : BinaryFraction.magnitude ⟨false, 6755399441055744, -54⟩ * 10 ^ 2 < 2 ^ 53 := by
    rw [exactly]
    norm_num
  have product : BinaryFraction.ofFloat? (0.375 * factor ⟨0.375, some 2⟩) =
      some ⟨false, 5277655813324800, -47⟩ := by
    decide +kernel
  have half : BinaryFraction.magnitude ⟨false, 5277655813324800, -47⟩ = 37 + 1 / 2 := by
    norm_num [BinaryFraction.magnitude]
  have together : ¬Torn ⟨0.375, some 2⟩ := by
    rintro ⟨-, b, c, exact, computed, k, tie, apart⟩
    obtain rfl := Option.some.inj (finite.symm.trans exact)
    obtain rfl := Option.some.inj (product.symm.trans computed)
    rw [half] at tie apart
    obtain rfl : 37 = k := by exact_mod_cast add_right_cancel tie
    rcases apart with less | ⟨-, even⟩
    · exact less.ne exactly
    · exact absurd even (by decide)
  obtain ⟨l, read, places, power, agree, -⟩ :=
    rounded_displayed (n := ⟨0.375, some 2⟩) finite small
  exact ⟨_, l, finite, small, read, places, power, together, agree.mpr together⟩

/-- The double `1.15` is a little less, and `1.1` is displayed; ten times it is rounded to `11.5`,
so that the rounded value is `1.2`. -/
theorem rounded_past_displayed : ∃ b l, BinaryFraction.ofFloat? (1.15 : Float) = some b ∧
    b.magnitude * 10 ^ 1 < 2 ^ 53 ∧
      read? (display ⟨1.15, some 1⟩).toList = some (.literal l) ∧
      ¬NearestDouble l.toRat (rounded ⟨1.15, some 1⟩) := by
  have finite : BinaryFraction.ofFloat? (1.15 : Float) = some ⟨false, 5179139571476070, -52⟩ := by
    decide +kernel
  have small : BinaryFraction.magnitude ⟨false, 5179139571476070, -52⟩ * 10 ^ 1 < 2 ^ 53 := by
    norm_num [BinaryFraction.magnitude]
  have text : read? (display ⟨1.15, some 1⟩).toList =
      some (.literal ⟨false, ['1', '1'], 1, 0⟩) := by
    decide +kernel
  have up : BinaryFraction.ofFloat? (rounded ⟨1.15, some 1⟩) =
      some ⟨false, 5404319552844595, -52⟩ := by
    decide +kernel
  have down : BinaryFraction.ofFloat? (1.1 : Float) = some ⟨false, 4953959590107546, -52⟩ := by
    decide +kernel
  refine ⟨_, _, finite, small, text, ?_⟩
  rintro ⟨b, exact, least⟩
  obtain rfl := Option.some.inj (up.symm.trans exact)
  have farther := least _ _ down
    (by norm_num [BinaryFraction.toRat, BinaryFraction.magnitude, withSign])
  have eleven : digitsValue ['1', '1'] = 11 := by decide
  rw [Literal.toRat_placed, eleven] at farther
  norm_num [BinaryFraction.toRat, BinaryFraction.magnitude, withSign, abs_lt] at farther

end TreeQuery.Numeral
