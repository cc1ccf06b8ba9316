import Mathlib
import TreeQuery.Proofs.Interchange.Rounding
import TreeQuery.Proofs.Interchange.Text

/-!
# The text of a double can be read

The fewest digits that read back lie among the reals that are rounded to the double, or below it, and
so never reach the point of overflow (`Decimal.fits_shortest`). In the interchange form they make a
number by the grammar of JSON, in each of its shapes, and the number is finite
(`Json.readNumber_interchange`). So every double can be read from its text (`Json.readValue_real`).
-/

set_option autoImplicit false

namespace TreeQuery.Decimal

/-! ## Digits that do not overflow -/

/-- The power of ten may be written as any difference. -/
theorem fits_iff {d a b : Nat} {power : Int} (difference : power = (a : Int) - b) :
    Fits d power ↔ d * 10 ^ a < overflow * 10 ^ b := by
  obtain ⟨k, up, down⟩ : ∃ k, a = power.toNat + k ∧ b = (-power).toNat + k :=
    ⟨a - power.toNat, by omega, by omega⟩
  rw [up, down, Nat.pow_add, Nat.pow_add, ← Nat.mul_assoc, ← Nat.mul_assoc,
    Nat.mul_lt_mul_right (Nat.pow_pos (by decide))]
  rfl

/-- Zeros at the end of the digits may go to the power. -/
theorem fits_mul_pow (d k : Nat) (power : Int) :
    Fits (d * 10 ^ k) power ↔ Fits d (power + k) := by
  have shifted : power + k = ((power.toNat + k : Nat) : Int) - (-power).toNat := by omega
  rw [fits_iff shifted, Nat.pow_add, Fits, Nat.mul_comm (10 ^ power.toNat), ← Nat.mul_assoc]

theorem fits_zero (power : Int) : Fits 0 power := by
  obtain ⟨n, last⟩ : ∃ n, n = 970 := ⟨_, rfl⟩
  rw [Fits, Nat.zero_mul, overflow_eq last]
  positivity

/-- Moving zeros into the exponent keeps the magnitude. -/
theorem Digits.fits_strip {fuel : Nat} {d : Digits} (fits : Fits d.digits d.exponent) :
    Fits (d.strip fuel).digits (d.strip fuel).exponent := by
  induction fuel generalizing d with
  | zero => exact fits
  | succ fuel ih =>
      rw [strip]
      split
      · rename_i trailing
        refine ih ?_
        have whole : d.digits / 10 * 10 ^ 1 = d.digits := by omega
        rw [← whole, fits_mul_pow] at fits
        exact fits
      · exact fits

/-- The significand of a double has 53 bits, and its exponent is limited. -/
structure BinaryFraction.InRange (b : BinaryFraction) : Prop where
  significand : b.significand < 2 ^ 53
  exponent : b.exponent ≤ 971

theorem BinaryFraction.inRange_of_ofFloat? {x : Float} {b : BinaryFraction}
    (exact : BinaryFraction.ofFloat? x = some b) : b.InRange := by
  have power : twoTo 52 = 2 ^ 52 := rfl
  have powerToo : twoTo 11 = 2 ^ 11 := rfl
  simp only [BinaryFraction.ofFloat?, power, powerToo] at exact
  split at exact
  · cases exact
  · split at exact
    · cases exact
      refine ⟨?_, by norm_num⟩
      change _ % 2 ^ 52 < _
      omega
    · cases exact
      refine ⟨?_, ?_⟩
      · change 2 ^ 52 + _ % 2 ^ 52 < _
        omega
      · change ((_ / 2 ^ 52 % 2 ^ 11 : Nat) : Int) - 1075 ≤ 971
        omega

namespace Interval

variable {b : BinaryFraction} {d : Nat} {e : Int}

/-- A decimal below the point half way beyond the largest significand, in quarters of the last
place. -/
theorem fits_of_scaled (range : b.InRange)
    (below : ((Interval.of b).scaleTo e 0 d).2 < ((Interval.of b).scaleTo e (2 ^ 55 - 2) d).1) :
    Fits d e := by
  obtain ⟨n, last⟩ : ∃ n, n = 970 := ⟨_, rfl⟩
  obtain ⟨k, quarters⟩ : ∃ k, k = (Interval.of b).exponent := ⟨_, rfl⟩
  have least : k ≤ 969 := by
    have exponent := range.exponent
    change k = b.exponent - 2 at quarters
    omega
  have powers : (2 ^ 55 - 2) * 2 ^ k.toNat ≤ overflow * 2 ^ (-k).toNat := by
    rw [overflow_eq last]
    calc (2 ^ 55 - 2) * 2 ^ k.toNat = (2 ^ 54 - 1) * 2 ^ (1 + k.toNat) := by
          rw [Nat.pow_add]
          omega
      _ ≤ (2 ^ 54 - 1) * 2 ^ (n + (-k).toNat) :=
          Nat.mul_le_mul_left _ (Nat.pow_le_pow_right (by decide) (by omega))
      _ = (2 ^ 54 - 1) * 2 ^ n * 2 ^ (-k).toNat := by rw [Nat.pow_add, Nat.mul_assoc]
  simp only [scaleTo, ← quarters] at below
  refine Nat.lt_of_mul_lt_mul_right (a := 2 ^ (-k).toNat) ?_
  calc d * 10 ^ e.toNat * 2 ^ (-k).toNat
      < (2 ^ 55 - 2) * 2 ^ k.toNat * 10 ^ (-e).toNat := below
    _ ≤ overflow * 2 ^ (-k).toNat * 10 ^ (-e).toNat := Nat.mul_le_mul_right _ powers
    _ = overflow * 10 ^ (-e).toNat * 2 ^ (-k).toNat := Nat.mul_right_comm ..

theorem scaleTo_lt (i : Interval) (e : Int) {n m : Nat} (d : Nat) (less : n < m) :
    (i.scaleTo e n d).1 < (i.scaleTo e m d).1 := by
  have two : 0 < twoTo i.exponent.toNat := Nat.two_pow_pos _
  have ten : 0 < tenTo (-e).toNat := Nat.pow_pos (by decide)
  exact Nat.mul_lt_mul_of_pos_right (Nat.mul_lt_mul_of_pos_right less two) ten

/-- An interval that reaches half way beyond the largest significand does not contain its end. -/
theorem fits_of_contains (range : b.InRange) (inside : (Interval.of b).contains d e = true) :
    Fits d e := by
  have significand := range.significand
  refine fits_of_scaled range ?_
  have high : (Interval.of b).high = 4 * b.significand + 2 := rfl
  have closed : (Interval.of b).closed = (b.significand % 2 == 0) := rfl
  unfold contains at inside
  split at inside
  · rename_i even
    have room : (Interval.of b).high < 2 ^ 55 - 2 := by
      rw [closed, beq_iff_eq] at even
      omega
    rw [Bool.and_eq_true, decide_eq_true_eq, decide_eq_true_eq] at inside
    exact Nat.lt_of_le_of_lt inside.2 (scaleTo_lt _ e d room)
  · have room : (Interval.of b).high ≤ 2 ^ 55 - 2 := by omega
    rw [Bool.and_eq_true, decide_eq_true_eq, decide_eq_true_eq] at inside
    refine Nat.lt_of_lt_of_le inside.2 ?_
    rcases Nat.eq_or_lt_of_le room with same | less
    · rw [same]
    · exact Nat.le_of_lt (scaleTo_lt _ e d less)

/-- The neighbour below the value. -/
theorem fits_below (range : b.InRange) (e : Int) :
    Fits (((Interval.of b).scaleTo e (Interval.of b).value 1).1 /
      ((Interval.of b).scaleTo e (Interval.of b).value 1).2) e := by
  have significand := range.significand
  have value : (Interval.of b).value = 4 * b.significand := rfl
  obtain ⟨num, numEq⟩ : ∃ num, num = ((Interval.of b).scaleTo e (Interval.of b).value 1).1 :=
    ⟨_, rfl⟩
  have room := scaleTo_lt (Interval.of b) e 1 (show (Interval.of b).value < 2 ^ 55 - 2 by omega)
  refine fits_of_scaled range (Nat.lt_of_le_of_lt ?_ room)
  rw [← numEq]
  have unit : ((Interval.of b).scaleTo e (Interval.of b).value 1).2 =
      tenTo e.toNat * twoTo (-(Interval.of b).exponent).toNat := by
    simp only [scaleTo, Nat.one_mul]
  simp only [unit]
  change num / _ * tenTo e.toNat * twoTo (-(Interval.of b).exponent).toNat ≤ num
  rw [Nat.mul_assoc]
  exact Nat.div_mul_le_self _ _

theorem roundDiv_eq (num den : Nat) (tie : Tie) :
    roundDiv num den tie = num / den ∨ roundDiv num den tie = num / den + 1 := by
  unfold roundDiv
  dsimp only
  split
  · exact .inl rfl
  · split
    · exact .inr rfl
    · cases tie with
      | away => exact .inr rfl
      | even =>
          dsimp only
          split
          · exact .inl rfl
          · exact .inr rfl

theorem fits_of_onGrid {tie : Tie} (range : b.InRange)
    (found : (Interval.of b).onGrid tie e = some d) : Fits d e := by
  unfold onGrid at found
  dsimp only at found
  split at found
  · rename_i below above
    cases found
    rcases roundDiv_eq ((Interval.of b).scaleTo e (Interval.of b).value 1).1
      ((Interval.of b).scaleTo e (Interval.of b).value 1).2 tie with down | up
    · rw [down]
      exact fits_of_contains range below
    · rw [up]
      exact fits_of_contains range above
  · rename_i below above
    cases found
    exact fits_of_contains range below
  · rename_i below above
    cases found
    exact fits_of_contains range above
  · cases found

theorem fits_search {tie : Tie} (range : b.InRange) (fuel : Nat) (e : Int) :
    Fits ((Interval.of b).search tie fuel e).digits ((Interval.of b).search tie fuel e).exponent := by
  induction fuel generalizing e with
  | zero => exact fits_below range e
  | succ fuel ih =>
      rw [search]
      split
      · rename_i d found
        exact Digits.fits_strip (d := ⟨d, e⟩) (fits_of_onGrid range found)
      · exact ih (e - 1)

end Interval

/-- **The fewest digits that read back do not overflow.** -/
theorem fits_shortest {b : BinaryFraction} (range : b.InRange) (tie : Tie) :
    Fits (shortest b tie).digits (shortest b tie).exponent := by
  unfold shortest
  split
  · exact fits_zero 0
  · exact Interval.fits_search range 17 _

/-! ## Digits as they are written -/

theorem digitsValue_append (left right : List Char) :
    digitsValue (left ++ right) = digitsValue left * 10 ^ right.length + digitsValue right := by
  have whole : Nat.ofDigitChars 10 (left ++ right) 0 =
      Nat.ofDigitChars 10 left 0 * 10 ^ right.length + Nat.ofDigitChars 10 right 0 := by
    rw [Nat.ofDigitChars_append, Nat.ofDigitChars_eq_ofDigitChars_zero, Nat.mul_comm]
  exact whole

theorem digitsValue_zeros (n : Nat) : digitsValue (zeros n) = 0 := by
  induction n with
  | zero => rfl
  | succ n ih => exact ih

theorem isDigit_zeros {n : Nat} {c : Char} (member : c ∈ zeros n) : c.isDigit = true := by
  rw [List.eq_of_mem_replicate member]
  decide

end TreeQuery.Decimal

namespace TreeQuery.Json

open Decimal

/-! ## Numbers with a point or a power -/

/-- The whole part, the fraction and the power as which a text is read, whatever follows. -/
def Parts (text whole fraction : List Char) (power : Option Int) : Prop :=
  ∀ rest, EndsNumber rest → ∃ pointed powered, readWhole (text ++ rest) = some (whole, pointed) ∧
    readFraction pointed = some (fraction, powered) ∧ readExponent powered = some (power, rest)

/-- A number with a point or a power is a finite double, if it does not overflow. -/
theorem Parts.read {text whole fraction : List Char} {power : Option Int}
    (parts : Parts text whole fraction power) (marked : fraction ≠ [] ∨ power ≠ none)
    (fits : Fits (digitsValue (whole ++ fraction)) (power.getD 0 - fraction.length))
    (negative : Bool) : ∃ x, ∀ rest, EndsNumber rest →
      readNumber negative (text ++ rest) = some (.real x, rest) := by
  let l : Literal := ⟨negative, whole ++ fraction, fraction.length, power.getD 0⟩
  have finite : l.value.isFinite = true := by
    unfold Literal.value
    dsimp only
    split
    · exact isFinite_neg fits.isFinite_nearest
    · exact fits.isFinite_nearest
  refine ⟨l.value, fun rest ends => ?_⟩
  obtain ⟨pointed, powered, first, second, third⟩ := parts rest ends
  simp only [readNumber, first, second, third, Option.bind_eq_bind, Option.bind_some]
  split
  · rcases marked with fractional | exponential
    · exact absurd rfl fractional
    · exact absurd rfl exponential
  · exact if_pos finite

theorem readFraction_point {ds rest : List Char} (present : ds ≠ [])
    (digits : ∀ c ∈ ds, c.isDigit = true) (ends : ∀ c ∈ rest.head?, c.isDigit = false) :
    readFraction ('.' :: (ds ++ rest)) = some (ds, rest) := by
  obtain ⟨taken, dropped⟩ := span_digits digits ends
  have filled : ds.isEmpty = false := by simpa using present
  simp only [readFraction, taken, dropped, filled, Bool.false_eq_true, if_false]

theorem readFraction_zero {rest : List Char} (ends : EndsNumber rest) :
    readFraction ('.' :: (['0'] ++ rest)) = some (['0'], rest) :=
  readFraction_point (List.cons_ne_nil '0' []) (fun _ => isDigit_zeros (n := 1))
    fun c member => (ends c member).1

/-- The power with its sign, as it is written. -/
def powerText (power : Int) : List Char :=
  'e' :: (if power < 0 then '-' else '+') :: digitText power.natAbs

theorem readFraction_powerText (power : Int) (rest : List Char) :
    readFraction (powerText power ++ rest) = some ([], powerText power ++ rest) := rfl

theorem readExponent_powerText (power : Int) {rest : List Char} (ends : EndsNumber rest) :
    readExponent (powerText power ++ rest) = some (some power, rest) := by
  have digits : ∀ c ∈ digitText power.natAbs, c.isDigit = true := fun c => isDigit_digitText
  obtain ⟨taken, dropped⟩ := span_digits digits fun c member => (ends c member).1
  have filled : (digitText power.natAbs).isEmpty = false := by
    obtain ⟨c, cs, shape, -⟩ := digitText_starts power.natAbs
    rw [shape]
    rfl
  have value := digitsValue_digitText power.natAbs
  by_cases negative : power < 0
  · have sign : takeSign ('-' :: (digitText power.natAbs ++ rest)) =
        (true, digitText power.natAbs ++ rest) := rfl
    simp only [powerText, negative, if_true, List.cons_append, readExponent, true_or, sign, taken,
      dropped, filled, Bool.false_eq_true, if_false, value]
    congr 3
    omega
  · have sign : takeSign ('+' :: (digitText power.natAbs ++ rest)) =
        (false, digitText power.natAbs ++ rest) := rfl
    simp only [powerText, negative, if_false, List.cons_append, readExponent, true_or, if_true, sign,
      taken, dropped, filled, Bool.false_eq_true, value]
    congr 3
    omega

/-! ## The interchange form -/

/-- A whole part in front of a point or a power: digits that do not start with a zero, or a zero
alone. -/
structure WholePart (ds : List Char) : Prop where
  digits : ∀ c ∈ ds, c.isDigit = true
  shape : ∃ c cs, ds = c :: cs ∧ (c ≠ '0' ∨ cs = [])

theorem WholePart.read {ds rest : List Char} (part : WholePart ds)
    (ends : ∀ c ∈ rest.head?, c.isDigit = false) : readWhole (ds ++ rest) = some (ds, rest) := by
  obtain ⟨c, cs, rfl, first⟩ := part.shape
  exact readWhole_digits first part.digits ends

theorem WholePart.digitText {n : Nat} (positive : 0 < n) (k : Nat) :
    WholePart (digitText n ++ zeros k) := by
  obtain ⟨c, cs, shape, nonzero⟩ := digitText_cons positive
  refine ⟨fun d member => ?_, c, cs ++ zeros k, ?_, .inl nonzero⟩
  · rcases List.mem_append.mp member with digit | zero
    · exact isDigit_digitText digit
    · exact isDigit_zeros zero
  · rw [shape, List.cons_append]

/-- Where the point falls among the digits of a number with places: zeros in front make up for
missing digits, and no more than one stands in front of the point. -/
theorem placed_parts {n places : Nat} (positive : 0 < n) (some : 0 < places) :
    ∃ whole fraction, placed n places = whole ++ '.' :: fraction ∧ WholePart whole ∧
      fraction.length = places ∧ (∀ c ∈ fraction, c.isDigit = true) ∧
      digitsValue (whole ++ fraction) = n := by
  obtain ⟨padded, padding⟩ : ∃ padded, padded =
      zeros (places + 1 - (digitText n).length) ++ digitText n := ⟨_, rfl⟩
  have digits : ∀ c ∈ padded, c.isDigit = true := by
    intro c member
    rw [padding] at member
    rcases List.mem_append.mp member with zero | digit
    · exact isDigit_zeros zero
    · exact isDigit_digitText digit
  have value : digitsValue padded = n := by
    rw [padding, digitsValue_append, digitsValue_zeros, digitsValue_digitText, Nat.zero_mul,
      Nat.zero_add]
  have length : padded.length = max (places + 1) (digitText n).length := by
    rw [padding, List.length_append, zeros, List.length_replicate]
    omega
  refine ⟨padded.take (padded.length - places), padded.drop (padded.length - places), ?_, ⟨?_, ?_⟩,
    ?_, ?_, ?_⟩
  · simp only [placed, if_neg some.ne', padding]
  · exact fun c member => digits c (List.mem_of_mem_take member)
  · by_cases short : (digitText n).length ≤ places
    · have one : padded.length - places = 1 := by omega
      obtain ⟨k, padded'⟩ : ∃ k, places + 1 - (digitText n).length = k + 1 :=
        ⟨places - (digitText n).length, by omega⟩
      refine ⟨'0', [], ?_, .inr rfl⟩
      rw [one, padding, padded']
      rfl
    · have none : places + 1 - (digitText n).length = 0 := by omega
      obtain ⟨c, cs, shape, nonzero⟩ := digitText_cons positive
      obtain ⟨k, more⟩ : ∃ k, padded.length - places = k + 1 :=
        ⟨padded.length - places - 1, by omega⟩
      refine ⟨c, cs.take k, ?_, .inl nonzero⟩
      rw [more, padding, none, shape]
      rfl
  · rw [List.length_drop]
    omega
  · exact fun c member => digits c (List.mem_of_mem_drop member)
  · rw [List.take_append_drop, value]

/-- One digit, the others after a point, and a power. -/
theorem readNumber_scientific {d : Digits} (positive : 0 < d.digits)
    (fits : Fits d.digits d.exponent) (negative : Bool) :
    ∃ x, ∀ rest, EndsNumber rest →
      readNumber negative (d.scientific ++ rest) = some (.real x, rest) := by
  obtain ⟨c, cs, shape, nonzero⟩ := digitText_cons positive
  obtain ⟨power, same⟩ : ∃ power, power = d.exponent + (digitText d.digits).length - 1 := ⟨_, rfl⟩
  have value := digitsValue_digitText d.digits
  have digits : ∀ c ∈ digitText d.digits, c.isDigit = true := fun c => isDigit_digitText
  rw [shape] at value digits
  have part : WholePart [c] := by
    refine ⟨fun d member => digits d ?_, c, [], rfl, .inl nonzero⟩
    rw [List.mem_singleton.mp member]
    exact List.mem_cons_self ..
  have moved : power - (cs.length : Nat) = d.exponent := by
    rw [same, shape, List.length_cons]
    omega
  have parts : Parts d.scientific [c] cs (some power) := by
    intro rest ends
    have exponent := readExponent_powerText power ends
    cases cs with
    | nil =>
        have text : d.scientific ++ rest = [c] ++ (powerText power ++ rest) := by
          simp only [Digits.scientific, same, shape, powerText, List.append_assoc]
        rw [text]
        exact ⟨_, _, part.read (by rintro e ⟨⟩; decide), readFraction_powerText power rest, exponent⟩
    | cons c' cs =>
        have text : d.scientific ++ rest =
            [c] ++ '.' :: (c' :: cs ++ (powerText power ++ rest)) := by
          simp only [Digits.scientific, same, shape, powerText, List.append_assoc, List.cons_append,
            List.nil_append]
        have fraction : readFraction ('.' :: (c' :: cs ++ (powerText power ++ rest))) =
            some (c' :: cs, powerText power ++ rest) :=
          readFraction_point (List.cons_ne_nil c' cs)
            (fun d member => digits d (List.mem_cons_of_mem _ member)) (by rintro e ⟨⟩; decide)
        rw [text]
        exact ⟨_, _, part.read (by rintro e ⟨⟩; decide), fraction, exponent⟩
  refine parts.read (.inr nofun) ?_ negative
  rw [List.singleton_append, value, Option.getD_some, moved]
  exact fits

/-- All digits, zeros for the power, and a zero after the point. -/
theorem readNumber_whole {d : Digits} (positive : 0 < d.digits) (whole : 0 ≤ d.exponent)
    (fits : Fits d.digits d.exponent) (negative : Bool) :
    ∃ x, ∀ rest, EndsNumber rest →
      readNumber negative (d.positional ++ ['.', '0'] ++ rest) = some (.real x, rest) := by
  have parts : Parts (d.positional ++ ['.', '0'])
      (digitText d.digits ++ zeros d.exponent.toNat) ['0'] none := by
    intro rest ends
    have text : d.positional ++ ['.', '0'] ++ rest =
        digitText d.digits ++ zeros d.exponent.toNat ++ '.' :: (['0'] ++ rest) := by
      simp only [Digits.positional, if_pos whole, List.append_assoc, List.cons_append,
        List.nil_append]
    rw [text]
    exact ⟨_, _, (WholePart.digitText positive d.exponent.toNat).read (by rintro e ⟨⟩; decide),
      readFraction_zero ends, ends.plain.2⟩
  have value : digitsValue (digitText d.digits ++ zeros d.exponent.toNat ++ ['0']) =
      d.digits * 10 ^ (d.exponent.toNat + 1) := by
    rw [List.append_assoc, digitsValue_append, digitsValue_digitText, digitsValue_append,
      digitsValue_zeros]
    simp [zeros, digitsValue]
  have power : (0 : Int) - (['0'].length : Nat) + ((d.exponent.toNat + 1 : Nat) : Int) =
      d.exponent := by
    simp only [List.length_singleton]
    omega
  refine parts.read (.inl (List.cons_ne_nil '0' [])) ?_ negative
  rw [value, fits_mul_pow, Option.getD_none, power]
  exact fits

/-- Digits on both sides of the point. -/
theorem readNumber_placed {d : Digits} (positive : 0 < d.digits) (fractional : ¬ 0 ≤ d.exponent)
    (fits : Fits d.digits d.exponent) (negative : Bool) :
    ∃ x, ∀ rest, EndsNumber rest →
      readNumber negative (d.positional ++ rest) = some (.real x, rest) := by
  have some : 0 < d.places := by
    unfold Digits.places
    omega
  obtain ⟨whole, fraction, placed, part, places, digits, value⟩ := placed_parts positive some
  have present : fraction ≠ [] := by
    rintro rfl
    rw [List.length_nil] at places
    omega
  have parts : Parts d.positional whole fraction none := by
    intro rest ends
    have text : d.positional ++ rest = whole ++ '.' :: (fraction ++ rest) := by
      simp only [Digits.positional, if_neg fractional, placed, List.append_assoc, List.cons_append]
    rw [text]
    exact ⟨_, _, part.read (by rintro e ⟨⟩; decide),
      readFraction_point present digits fun c member => (ends c member).1, ends.plain.2⟩
  have power : (0 : Int) - (fraction.length : Nat) = d.exponent := by
    rw [places, Digits.places]
    omega
  refine parts.read (.inl present) ?_ negative
  rw [value, Option.getD_none, power]
  exact fits

/-- **A decimal that does not overflow can be read from its interchange form**, whatever follows. -/
theorem readNumber_interchange {d : Digits} (fits : Fits d.digits d.exponent) (negative : Bool) :
    ∃ x, ∀ rest, EndsNumber rest →
      readNumber negative (d.interchange ++ rest) = some (.real x, rest) := by
  unfold Digits.interchange
  dsimp only
  split
  · have parts : Parts ['0', '.', '0'] ['0'] ['0'] none := fun rest ends =>
      ⟨_, _, rfl, readFraction_zero ends, ends.plain.2⟩
    exact parts.read (.inl (List.cons_ne_nil '0' [])) (fits_zero _) negative
  · rename_i nonzero
    have positive : 0 < d.digits := Nat.pos_of_ne_zero nonzero
    split
    · exact readNumber_scientific positive fits negative
    · split
      · rename_i whole
        exact readNumber_whole positive whole fits negative
      · rename_i fractional
        exact readNumber_placed positive fractional fits negative

theorem starts_of_readNumber {negative : Bool} {cs : List Char} {read : Json × List Char}
    (reads : readNumber negative cs = some read) : ∃ c tail, cs = c :: tail ∧ c.isDigit = true := by
  cases cs with
  | nil => cases reads
  | cons c tail =>
      refine ⟨c, tail, rfl, ?_⟩
      cases digit : c.isDigit with
      | true => rfl
      | false =>
          have none : readWhole (c :: tail) = none := by
            simp only [readWhole, List.takeWhile_cons_of_neg (Bool.eq_false_iff.mp digit)]
          simp only [readNumber, none] at reads
          cases reads

/-- Every double can be read from its text: a finite one is a number, and for any other null is
written. -/
theorem readValue_real (x : Float) :
    Starts (chars (.real x)) ∧ ∃ j, ∀ depth rest, EndsNumber rest →
      readValue depth (chars (.real x) ++ rest) = some (j, rest) := by
  rw [chars, interchangeText]
  cases exact : BinaryFraction.ofFloat? x with
  | none =>
      refine ⟨⟨'n', _, rfl, by decide⟩, .null, fun depth rest ends => ?_⟩
      rw [readValue_eq]
      rfl
  | some b =>
      have fits := fits_shortest (BinaryFraction.inRange_of_ofFloat? exact) .even
      obtain ⟨y, reads⟩ := readNumber_interchange fits b.negative
      obtain ⟨c, tail, shape, digit⟩ := starts_of_readNumber (reads [] .nil)
      rw [List.append_nil] at shape
      simp only [String.toList_ofList]
      cases negative : b.negative with
      | true =>
          refine ⟨⟨'-', _, rfl, by decide⟩, .real y, fun depth rest ends => ?_⟩
          rw [negative] at reads
          exact (readValue_minus depth _).trans (reads rest ends)
      | false =>
          refine ⟨⟨c, tail, shape, solid_of_isDigit digit⟩, .real y, fun depth rest ends => ?_⟩
          rw [negative] at reads
          have read := reads rest ends
          change readValue depth ((shortest b .even).interchange ++ rest) = _
          rw [shape, List.cons_append] at read ⊢
          rw [readValue_digit digit, read]

end TreeQuery.Json
