import Mathlib
import TreeQuery.Proofs.Interchange.Digits
import TreeQuery.Proofs.Rendering.Nearest

/-!
# Decimals and the doubles nearest to them

The text of a number with a fixed count of places is read as the decimal that was written
(`read?_placed`). Where such a decimal has no more digits than a double, it is never half way
between two doubles: that would take one more bit (`not_halfway`). So the quotient by the power of
ten is the nearest double, with every other one farther away (`quotient_nearest`), and up to
`2 ^ 52` steps, neighbouring decimals have different nearest doubles (`nearest_apart`).
-/

set_option autoImplicit false

namespace TreeQuery.Decimal

/-! ## Text -/

/-- The exact value of a written decimal. -/
def Literal.toRat (l : Literal) : ℚ :=
  withSign l.negative (digitsValue l.digits * 10 ^ (l.power - l.places))

/-- A number with places has digits on both sides of its point. -/
theorem placed_pointed (n : Nat) {places : Nat} (some : 0 < places) :
    ∃ whole fraction, placed n places = whole ++ '.' :: fraction ∧ whole ≠ [] ∧
      (∀ c ∈ whole, c.isDigit = true) ∧ fraction.length = places ∧
      (∀ c ∈ fraction, c.isDigit = true) ∧ digitsValue (whole ++ fraction) = n := by
  rcases Nat.eq_zero_or_pos n with rfl | positive
  · have padded :
        zeros (places + 1 - (digitText 0).length) ++ digitText 0 = '0' :: zeros places := by
      change List.replicate places '0' ++ ['0'] = '0' :: List.replicate places '0'
      rw [← List.replicate_succ', ← List.replicate_succ]
    refine ⟨['0'], zeros places, ?_, List.cons_ne_nil _ _, fun _ => isDigit_zeros (n := 1),
      List.length_replicate, fun _ => isDigit_zeros, ?_⟩
    · have one : ('0' :: zeros places).length - places = 1 := by
        rw [List.length_cons, zeros, List.length_replicate]
        omega
      rw [placed, if_neg some.ne']
      simp only [padded, one]
      rfl
    · exact digitsValue_zeros (places + 1)
  · obtain ⟨whole, fraction, text, part, length, digits, value⟩ := Json.placed_parts positive some
    obtain ⟨c, cs, shape, -⟩ := part.shape
    exact ⟨whole, fraction, text, by rw [shape]; exact List.cons_ne_nil _ _, part.digits, length,
      digits, value⟩

theorem digitText_ne_nil (n : Nat) : digitText n ≠ [] := by
  obtain ⟨c, cs, shape, -⟩ := Json.digitText_starts n
  rw [shape]
  exact List.cons_ne_nil _ _

/-- What is written with places is read with them. -/
theorem readUnsigned?_placed (negative : Bool) (n places : Nat) :
    ∃ digits, digitsValue digits = n ∧
      readUnsigned? negative (placed n places) = some ⟨negative, digits, places, 0⟩ := by
  have last : ∀ c ∈ ([] : List Char).head?, c.isDigit = false := nofun
  rcases Nat.eq_zero_or_pos places with rfl | some
  · have digits : ∀ c ∈ digitText n, c.isDigit = true := fun c => Json.isDigit_digitText
    obtain ⟨taken, dropped⟩ := Json.span_digits digits last
    rw [List.append_nil] at taken dropped
    have filled : (digitText n).isEmpty = false := by simpa using digitText_ne_nil n
    refine ⟨digitText n, Json.digitsValue_digitText n, ?_⟩
    simp only [placed, if_true, readUnsigned?, taken, dropped, List.append_nil, filled,
      Bool.false_eq_true, if_false, List.length_nil]
  · obtain ⟨whole, fraction, text, present, wholeDigits, length, digits, value⟩ :=
      placed_pointed n some
    have point : ∀ c ∈ ('.' :: fraction).head?, c.isDigit = false := by
      rintro c ⟨⟩
      decide
    obtain ⟨taken, dropped⟩ := Json.span_digits wholeDigits point
    obtain ⟨takenToo, droppedToo⟩ := Json.span_digits digits last
    rw [List.append_nil] at takenToo droppedToo
    have filled : (whole ++ fraction).isEmpty = false := by simp [present]
    refine ⟨whole ++ fraction, value, ?_⟩
    simp only [text, readUnsigned?, taken, dropped, takenToo, droppedToo, filled,
      Bool.false_eq_true, if_false, length]

/-- A text that starts with a digit is read as a decimal, with a sign in front of it or without. -/
theorem read?_signText (negative : Bool) {c : Char} {cs : List Char} (digit : c.isDigit = true) :
    read? (signText negative ++ c :: cs) = (readUnsigned? negative (c :: cs)).map .literal := by
  have plain : c ≠ '-' ∧ c ≠ '+' := by
    constructor <;> rintro rfl <;> revert digit <;> decide
  have sign : takeSign (signText negative ++ c :: cs) = (negative, c :: cs) := by
    cases negative with
    | true => rfl
    | false =>
        change takeSign (c :: cs) = _
        unfold takeSign
        split
        · rename_i same
          exact absurd (List.cons.inj same).1 plain.1
        · rename_i same
          exact absurd (List.cons.inj same).1 plain.2
        · rfl
  have lower : c.toLower = c := by
    refine Char.toLower_eq_of_not_isUpper ?_
    simp only [Char.isUpper, Char.isDigit] at digit ⊢
    grind
  have noLetter : c ≠ 'i' ∧ c ≠ 'n' := by
    constructor <;> rintro rfl <;> revert digit <;> decide
  simp only [read?, sign, List.map_cons, lower, List.cons.injEq, noLetter.1, noLetter.2, false_and,
    or_self, if_false]

/-- **A number that is written with places is read as the decimal that it is.** -/
theorem read?_placed (negative : Bool) (n places : Nat) : ∃ digits, digitsValue digits = n ∧
    read? (signText negative ++ placed n places) =
      some (.literal ⟨negative, digits, places, 0⟩) := by
  obtain ⟨digits, value, read⟩ := readUnsigned?_placed negative n places
  obtain ⟨c, cs, text, digit⟩ : ∃ c cs, placed n places = c :: cs ∧ c.isDigit = true := by
    rcases Nat.eq_zero_or_pos places with rfl | some
    · obtain ⟨c, cs, shape, digit⟩ := Json.digitText_starts n
      exact ⟨c, cs, shape, digit⟩
    · obtain ⟨whole, fraction, text, present, wholeDigits, -⟩ := placed_pointed n some
      obtain ⟨c, cs, rfl⟩ := List.exists_cons_of_ne_nil present
      exact ⟨c, _, text, wholeDigits c (List.mem_cons_self ..)⟩
  refine ⟨digits, value, ?_⟩
  rw [text] at read ⊢
  rw [read?_signText negative digit, read, Option.map_some]

/-- Without an exponent a decimal is its digits over a power of ten. -/
theorem Literal.toRat_placed {negative : Bool} {digits : List Char} {places : Nat} :
    Literal.toRat ⟨negative, digits, places, 0⟩ =
      withSign negative (digitsValue digits / 10 ^ places) := by
  rw [Literal.toRat, zero_sub, zpow_neg, zpow_natCast, div_eq_mul_inv]

/-! ## The nearest double -/

/-- Of all doubles this one is nearest to a rational: any other value is farther away. -/
def NearestDouble (q : ℚ) (x : Float) : Prop :=
  ∃ b, BinaryFraction.ofFloat? x = some b ∧ ∀ y c, BinaryFraction.ofFloat? y = some c →
    c.toRat ≠ b.toRat → |b.toRat - q| < |c.toRat - q|

theorem abs_withSign_sub (negative : Bool) (q r : ℚ) :
    |withSign negative q - withSign negative r| = |q - r| := by
  cases negative with
  | false => rfl
  | true =>
      simp only [withSign, if_true]
      rw [neg_sub_neg, abs_sub_comm]

theorem abs_withSign_not (negative : Bool) (q r : ℚ) :
    |withSign (!negative) q - withSign negative r| = |q + r| := by
  cases negative with
  | false =>
      simp only [withSign, Bool.not_false, Bool.false_eq_true, if_true, if_false]
      rw [← neg_add', abs_neg]
  | true =>
      simp only [withSign, Bool.not_true, Bool.false_eq_true, if_true, if_false]
      rw [sub_neg_eq_add]

/-- A rounded magnitude is the nearest double, unless the magnitude is half way between two. -/
theorem Rounded.nearestDouble {x : Float} {negative : Bool} {q : ℚ} {n : Nat} {t : Int}
    (rounded : Rounded x negative q n t) (nonneg : 0 ≤ q) (clear : |q / 2 ^ t - n| ≠ 1 / 2) :
    NearestDouble (withSign negative q) x := by
  obtain ⟨b, exact, sign, value⟩ := rounded.exactly
  refine ⟨b, exact, fun y c exactToo other => ?_⟩
  have double : IsDouble c.magnitude := Exactly.isDouble ⟨c, exactToo, rfl, rfl⟩
  simp only [BinaryFraction.toRat, sign, value] at other ⊢
  rw [abs_withSign_sub]
  rcases Bool.eq_or_eq_not c.negative negative with same | opposite
  · rw [same] at other ⊢
    rw [abs_withSign_sub]
    exact rounded.abs_lt clear double fun equal => other (by rw [equal])
  · -- A double of the other sign is no nearer than zero.
    rw [opposite] at other ⊢
    rw [abs_withSign_not]
    have least := c.magnitude_nonneg
    rcases least.eq_or_lt with zero | positive
    · rw [← zero] at other double ⊢
      have nonzero : (0 : ℚ) ≠ n * 2 ^ t := by
        intro equal
        rw [← equal] at other
        exact other (by rw [withSign_zero, withSign_zero])
      have near := rounded.abs_lt clear double nonzero
      rw [zero_sub, abs_neg] at near
      rwa [zero_add]
    · have near := rounded.abs_le (isDouble_natCast (Nat.zero_le (2 ^ 53)))
      rw [Nat.cast_zero, zero_sub, abs_neg, abs_of_nonneg nonneg] at near
      have far : |c.magnitude + q| = c.magnitude + q := abs_of_pos (by linarith)
      rw [far]
      linarith

/-- Twice a number half way between two whole ones is odd. -/
theorem exists_odd {q : ℚ} {n : Nat} (nonneg : 0 ≤ q) (tie : |q - n| = 1 / 2) :
    ∃ j : Nat, Odd j ∧ (j : ℚ) = 2 * q := by
  rcases (abs_eq (by norm_num)).mp tie with above | below
  · exact ⟨2 * n + 1, ⟨n, rfl⟩, by push_cast; linarith⟩
  · have positive : 0 < n := by
      have real : (0 : ℚ) < n := by linarith
      exact_mod_cast real
    obtain ⟨k, rfl⟩ : ∃ k, n = k + 1 := ⟨n - 1, by omega⟩
    refine ⟨2 * k + 1, ⟨k, rfl⟩, ?_⟩
    push_cast at below ⊢
    linarith

/-- **A decimal of few digits is never half way between two doubles**: a number half way takes 54
bits, and all of them would have to come from the digits. -/
theorem not_halfway {N places n : Nat} {t : Int} (few : N ≤ 2 ^ 53) (limit : places ≤ 15)
    (full : 2 ^ 52 * 2 ^ t ≤ (N / 10 ^ places : ℚ) ∨ t = -1074) :
    |(N / 10 ^ places : ℚ) / 2 ^ t - n| ≠ 1 / 2 := by
  intro tie
  have unit : (0 : ℚ) < 2 ^ t := zpow_pos two_pos t
  obtain ⟨j, odd, twice⟩ := exists_odd (by positivity) tie
  have product : (N : ℚ) * 2 = j * 5 ^ places * 2 ^ (t + places) := by
    have ten : (10 : ℚ) ^ places = 5 ^ places * 2 ^ places := by rw [← mul_pow]; norm_num
    rw [twice, zpow_add₀ two_ne_zero, zpow_natCast, ten]
    field_simp
  rcases Int.lt_or_le 0 (t + places) with coarse | fine
  · -- The odd number divides the digits, and it is too large for that.
    obtain ⟨s, power⟩ : ∃ s : Nat, t + places = s + 1 := ⟨(t + places - 1).toNat, by omega⟩
    have large : 2 ^ 53 < j := by
      have least : (2 : ℚ) ^ 53 ≤ j := by
        have above := full.resolve_right (by omega)
        rw [← le_div_iff₀ unit] at above
        rw [twice]
        linarith
      have whole : 2 ^ 53 ≤ j := by exact_mod_cast least
      obtain ⟨k, rfl⟩ := odd
      omega
    have digits : N = j * 5 ^ places * 2 ^ s := by
      rw [power, zpow_add_one₀ two_ne_zero, zpow_natCast, ← mul_assoc] at product
      have real : (N : ℚ) = j * 5 ^ places * 2 ^ s := mul_right_cancel₀ two_ne_zero product
      exact_mod_cast real
    have more : j ≤ N := by
      rw [digits, Nat.mul_assoc]
      exact Nat.le_mul_of_pos_right j (by positivity)
    omega
  · -- An even number would be a product of odd ones.
    obtain ⟨s, power⟩ : ∃ s : Nat, t + places = -s := ⟨(-(t + places)).toNat, by omega⟩
    have even : N * 2 * 2 ^ s = j * 5 ^ places := by
      rw [power, zpow_neg, zpow_natCast] at product
      have real : (N : ℚ) * 2 * 2 ^ s = j * 5 ^ places := by
        rw [product, mul_assoc, inv_mul_cancel₀ (by positivity), mul_one]
      exact_mod_cast real
    have oddProduct : Odd (j * 5 ^ places) := odd.mul (Odd.pow (by decide))
    rw [← even] at oddProduct
    exact Nat.not_odd_iff_even.mpr ⟨N * 2 ^ s, by ring⟩ oddProduct

section Quotients

variable {x : Float} {negative : Bool} {N places : Nat}

/-- The powers of ten up to `10 ^ 15` are doubles. -/
theorem exactly_tenTo (limit : places ≤ 15) :
    Exactly (Float.ofNat (tenTo places)) false (10 ^ places) := by
  have power : tenTo places ≤ 10 ^ 15 := Nat.pow_le_pow_right (by decide) limit
  have cast : (tenTo places : ℚ) = 10 ^ places := Nat.cast_pow 10 places
  exact cast ▸ Exactly.ofNat (Nat.lt_of_le_of_lt power (by norm_num))

theorem exists_quotient (exactly : Exactly x negative N) (few : N ≤ 2 ^ 53) (limit : places ≤ 15) :
    ∃ n t, Rounded (x / Float.ofNat (tenTo places)) negative (N / 10 ^ places) n t := by
  refine exactly.div (exactly_tenTo limit) (by positivity) ?_
  calc (N / 10 ^ places : ℚ) ≤ N := div_le_self N.cast_nonneg (one_le_pow₀ (by norm_num))
    _ ≤ 2 ^ 53 := by exact_mod_cast few

/-- **The quotient by a power of ten is the double nearest to the decimal.** -/
theorem quotient_nearest (exactly : Exactly x negative N) (few : N ≤ 2 ^ 53) (limit : places ≤ 15) :
    NearestDouble (withSign negative (N / 10 ^ places)) (x / Float.ofNat (tenTo places)) := by
  obtain ⟨n, t, rounded⟩ := exists_quotient exactly few limit
  exact rounded.nearestDouble (by positivity) (not_halfway few limit rounded.full)

/-- Up to `2 ^ 52` steps a quotient is nearer to its decimal than half a step. -/
theorem Rounded.close {n : Nat} {t : Int} (rounded : Rounded x negative (N / 10 ^ places) n t)
    (few : N ≤ 2 ^ 52) (limit : places ≤ 15) :
    |n * 2 ^ t - (N / 10 ^ places : ℚ)| < 1 / 2 * (1 / 10 ^ places) := by
  have near := lt_of_le_of_ne rounded.nearest.near
    (not_halfway (few.trans (by norm_num)) limit rounded.full)
  have fine : (2 : ℚ) ^ t ≤ 1 / 10 ^ places := by
    rcases rounded.full with full | least
    · have most : (N / 10 ^ places : ℚ) ≤ 2 ^ 52 * (1 / 10 ^ places) := by
        rw [div_eq_mul_one_div]
        exact mul_le_mul_of_nonneg_right (by exact_mod_cast few) (by positivity)
      linarith
    · calc (2 : ℚ) ^ t ≤ 2 ^ (-50 : Int) := zpow_le_zpow_right₀ one_le_two (by omega)
        _ ≤ 1 / 10 ^ 15 := by norm_num
        _ ≤ 1 / 10 ^ places :=
          one_div_le_one_div_of_le (by positivity) (pow_le_pow_right₀ (by norm_num) limit)
  calc |n * 2 ^ t - (N / 10 ^ places : ℚ)|
      = |(N / 10 ^ places : ℚ) / 2 ^ t - n| * 2 ^ t := Rounded.abs_grid _ n t
    _ < 1 / 2 * 2 ^ t := mul_lt_mul_of_pos_right near (zpow_pos two_pos t)
    _ ≤ 1 / 2 * (1 / 10 ^ places) := mul_le_mul_of_nonneg_left fine (by norm_num)

theorem NearestDouble.close (nearest : NearestDouble (withSign negative (N / 10 ^ places)) x)
    (few : N ≤ 2 ^ 52) (limit : places ≤ 15) : ∃ b, BinaryFraction.ofFloat? x = some b ∧
      |b.toRat - withSign negative (N / 10 ^ places)| < 1 / 2 * (1 / 10 ^ places) := by
  obtain ⟨b, exact, least⟩ := nearest
  obtain ⟨y, whole⟩ : ∃ y, Exactly y negative N := by
    have plain := Exactly.ofNat (Nat.lt_of_le_of_lt few (by norm_num : 2 ^ 52 < 2 ^ 53))
    cases negative with
    | false => exact ⟨_, plain⟩
    | true => exact ⟨_, plain.neg⟩
  obtain ⟨n, t, rounded⟩ := exists_quotient whole (few.trans (by norm_num)) limit
  obtain ⟨c, exactToo, sign, value⟩ := rounded.exactly
  have close : |c.toRat - withSign negative (N / 10 ^ places)| < 1 / 2 * (1 / 10 ^ places) := by
    rw [BinaryFraction.toRat, sign, value, abs_withSign_sub]
    exact rounded.close few limit
  refine ⟨b, exact, ?_⟩
  rcases eq_or_ne c.toRat b.toRat with same | other
  · rwa [← same]
  · exact (least _ c exactToo other).trans close

/-- **Neighbouring decimals have different nearest doubles**, up to `2 ^ 52` steps. -/
theorem nearest_apart (limit : places ≤ 15) (few : N + 1 ≤ 2 ^ 52)
    (upper : NearestDouble (withSign negative ((N + 1 : Nat) / 10 ^ places)) x) :
    ¬NearestDouble (withSign negative (N / 10 ^ places)) x := by
  intro lower
  obtain ⟨b, exact, closeLower⟩ := lower.close (Nat.le_of_succ_le few) limit
  obtain ⟨c, exactToo, closeUpper⟩ := upper.close few limit
  obtain rfl : b = c := Option.some.inj (exact.symm.trans exactToo)
  have step : |withSign negative ((N + 1 : Nat) / 10 ^ places) -
      withSign negative (N / 10 ^ places)| = 1 / 10 ^ places := by
    rw [abs_withSign_sub, ← sub_div, Nat.cast_succ, add_sub_cancel_left]
    exact abs_of_pos (by positivity)
  have triangle := abs_sub_le (withSign negative ((N + 1 : Nat) / 10 ^ places)) b.toRat
    (withSign negative (N / 10 ^ places))
  rw [step, abs_sub_comm _ b.toRat] at triangle
  linarith

end Quotients

end TreeQuery.Decimal
