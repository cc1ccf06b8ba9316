import Mathlib
import TreeQuery.Value.Interchange

/-!
# Whole numbers as doubles

A whole number of at most 53 bits is a double: its significand is the number shifted up to 53 bits,
and its exponent undoes the shift (`Normal.of_lt`). Making the double loses nothing, so such a
number is written in JSON as it was given (`Numeral.toJson_ofInt`).

The doubles of this library are those of the standard model, which packs sign, exponent and
significand into 64 bits; `Normal.unpack_pack` and `Normal.toNat_toBits` say what becomes of a
significand that has all its bits.
-/

set_option autoImplicit false

namespace TreeQuery.Decimal

open Float.Model Float.Model.UnpackedFloat

/-- A significand of 53 bits and an exponent that make a double. -/
structure Normal (m : Nat) (e : Int) : Prop where
  low : 2 ^ 52 ≤ m
  high : m < 2 ^ 53
  least : -1074 ≤ e
  most : e ≤ 971

/-! ## Packing -/

theorem toNat_packComponents (s : Sign) (e : BitVec 11) (m : BitVec 52) :
    (packComponents .binary64 s e m).toNat =
      s.toBitVec.toNat * 2 ^ 63 + e.toNat * 2 ^ 52 + m.toNat := by
  simp only [packComponents, BitVec.toNat_append]
  rw [← Nat.shiftLeft_add_eq_or_of_lt m.isLt, ← Nat.shiftLeft_add_eq_or_of_lt e.isLt]
  simp only [Nat.shiftLeft_eq]
  ring

theorem unpackSign_packComponents (s : Sign) (e : BitVec 11) (m : BitVec 52) :
    unpackSign (packComponents .binary64 s e m) = s.toBitVec := by
  have sign := s.toBitVec.isLt
  have exponent := e.isLt
  have fraction := m.isLt
  have shown : (unpackSign (packComponents .binary64 s e m)).toNat =
      (packComponents .binary64 s e m).toNat >>> 63 % 2 := rfl
  apply BitVec.eq_of_toNat_eq
  rw [shown, toNat_packComponents, Nat.shiftRight_eq_div_pow]
  omega

/-- Bits that are all zero are shifted out without loss. -/
theorem shiftRight_exact {m : Nat} (k : Nat) :
    ExtendedMantissa.mk (m * 2 ^ k) false false >>> k = ⟨m, false, false⟩ := by
  induction k generalizing m with
  | zero => simp [HShiftRight.hShiftRight, Nat.repeat]
  | succ k ih =>
      have twice : m * 2 ^ (k + 1) = (m * 2) * 2 ^ k := by ring
      change ExtendedMantissa.shiftRightOne
        (ExtendedMantissa.mk (m * 2 ^ (k + 1)) false false >>> k) = _
      rw [twice, ih]
      simp [ExtendedMantissa.shiftRightOne]

namespace Normal

variable {m : Nat} {e : Int} (normal : Normal m e)

include normal

theorem pos : 0 < m :=
  Nat.lt_of_lt_of_le (by decide) normal.low

theorem log2_mul (k : Nat) : (m * 2 ^ k).log2 = 52 + k := by
  have positive : m * 2 ^ k ≠ 0 := (Nat.mul_pos normal.pos (Nat.two_pow_pos k)).ne'
  rw [Nat.log2_eq_iff positive, Nat.pow_add, show 52 + k + 1 = 53 + k by omega, Nat.pow_add]
  exact ⟨Nat.mul_le_mul_right _ normal.low,
    Nat.mul_lt_mul_of_pos_right normal.high (Nat.two_pow_pos k)⟩

theorem shiftToTargetExponent (k : Nat) :
    shiftToTargetExponent .binary64 (m * 2 ^ k) (e - k) .exact = (⟨m, false, false⟩, e) := by
  have target : Format.binary64.targetExponent (totalExponent (m * 2 ^ k) (e - k)) = e := by
    have least := normal.least
    simp only [Format.targetExponent, totalExponent, normal.log2_mul, Format.mantissaBits,
      Format.minExponent]
    norm_num
    omega
  have amount : (e - (e - k)).toNat = k := by omega
  simp only [UnpackedFloat.shiftToTargetExponent, target, shiftToExponent, amount,
    ExtendedMantissa.ofMantissaAndAccuracy, shiftRight_exact, sub_add_cancel]

/-- A significand with zeros behind it is rounded to itself. -/
theorem round_exact (s : Sign) (k : Nat) :
    roundWithAccuracy .binary64 s (m * 2 ^ k) (e - k) .exact = .finite s m e normal.pos := by
  have again := normal.shiftToTargetExponent 0
  simp only [Nat.pow_zero, Nat.mul_one, Nat.cast_zero, sub_zero] at again
  simp only [roundWithAccuracy, normal.shiftToTargetExponent k, ExtendedMantissa.roundedMantissa,
    ExtendedMantissa.accuracy, Accuracy.roundToNearestEven, again, normal.pos.ne', dite_false]

theorem pack_eq (s : Sign) : UnpackedFloat.pack .binary64 (.finite s m e normal.pos) =
    packComponents .binary64 s (BitVec.ofNat 11 (e + 1075).toNat) (BitVec.ofNat 52 m) := by
  have log : m.log2 + 1 = Format.binary64.mantissaBits := by
    have := normal.log2_mul 0
    simp only [Nat.pow_zero, Nat.mul_one] at this
    rw [this]
    rfl
  have biased : (e + Format.binary64.exponentBias +
      Format.binary64.mantissaBitsWithoutImplicit).toNat = (e + 1075).toNat := by
    simp only [Format.exponentBias]
    norm_num
    omega
  have finite : ¬ 2 ^ Format.binary64.exponentBits ≤ (e + 1075).toNat + 1 := by
    have := normal.most
    norm_num
    omega
  simp only [UnpackedFloat.pack, biased, finite, log, if_false, if_true]

theorem toNat_exponent : (BitVec.ofNat 11 (e + 1075).toNat).toNat = (e + 1075).toNat := by
  have most := normal.most
  rw [BitVec.toNat_ofNat]
  exact Nat.mod_eq_of_lt (by omega)

theorem unpack_pack (s : Sign) :
    (Float.Model.pack (.finite s m e normal.pos)).unpack = .finite s m e normal.pos := by
  have low := normal.low
  have high := normal.high
  have least := normal.least
  have most := normal.most
  have exponent := normal.toNat_exponent
  have finite : BitVec.ofNat 11 (e + 1075).toNat ≠ -1#11 := by
    intro same
    have := congrArg BitVec.toNat same
    rw [exponent] at this
    norm_num at this
    omega
  have normalToo : BitVec.ofNat 11 (e + 1075).toNat ≠ 0#11 := by
    intro same
    have := congrArg BitVec.toNat same
    rw [exponent] at this
    norm_num at this
    omega
  have significand : (1#1 ++ BitVec.ofNat 52 m).toNat = m := by
    rw [BitVec.toNat_append, ← Nat.shiftLeft_add_eq_or_of_lt (BitVec.isLt _), BitVec.toNat_ofNat,
      Nat.shiftLeft_eq]
    norm_num
    omega
  have sign : Sign.ofBitVec s.toBitVec = s := by
    cases s <;> rfl
  change UnpackedFloat.unpack .binary64
    (UnpackedFloat.pack .binary64 (.finite s m e normal.pos)) = _
  rw [normal.pack_eq]
  simp only [UnpackedFloat.unpack, unpackExponent_packComponents, unpackMantissa_packComponents,
    unpackSign_packComponents, finite, normalToo, if_false, significand, exponent, sign]
  congr 1
  simp only [Format.exponentBias]
  norm_num
  omega

theorem toNat_toBits (s : Sign) :
    (Float.Model.pack (.finite s m e normal.pos)).toBits.toNat =
      s.toBitVec.toNat * 2 ^ 63 + (e + 1075).toNat * 2 ^ 52 + (m - 2 ^ 52) := by
  have low := normal.low
  have high := normal.high
  change (UnpackedFloat.pack .binary64 (.finite s m e normal.pos)).toNat = _
  rw [normal.pack_eq, toNat_packComponents, normal.toNat_exponent, BitVec.toNat_ofNat]
  omega

/-- The exact value of a double is what it was made of. -/
theorem ofFloat? {x : Float} {s : Sign}
    (made : x.toModel = Float.Model.pack (.finite s m e normal.pos)) :
    BinaryFraction.ofFloat? x = some ⟨s.toBitVec == 1#1, m, e⟩ := by
  have low := normal.low
  have high := normal.high
  have least := normal.least
  have most := normal.most
  have signed : s.toBitVec.toNat < 2 := s.toBitVec.isLt
  have bits : x.toBits.toNat =
      s.toBitVec.toNat * 2 ^ 63 + (e + 1075).toNat * 2 ^ 52 + (m - 2 ^ 52) := by
    change x.toModel.toBits.toNat = _
    rw [made, normal.toNat_toBits]
  have biased : x.toBits.toNat / 2 ^ 52 % 2 ^ 11 = (e + 1075).toNat := by omega
  have fraction : x.toBits.toNat % 2 ^ 52 = m - 2 ^ 52 := by omega
  have negative : decide (2 ^ 63 ≤ x.toBits.toNat) = (s.toBitVec == 1#1) := by
    rw [bits]
    cases s with
    | negative =>
        simp only [Sign.toBitVec, beq_self_eq_true, decide_eq_true_eq, BitVec.toNat_ofNat]
        omega
    | positive =>
        simp only [Sign.toBitVec, BitVec.toNat_ofNat]
        refine decide_eq_false ?_
        omega
  have powers : ∀ n, twoTo n = 2 ^ n := fun _ => rfl
  simp only [BinaryFraction.ofFloat?, powers, biased, fraction, negative]
  rw [if_neg (by omega), if_neg (by omega)]
  have whole : 2 ^ 52 + (m - 2 ^ 52) = m := by omega
  have exponent : ((e + 1075).toNat : Int) - 1075 = e := by omega
  rw [whole, exponent]

end Normal

/-! ## Whole numbers -/

/-- The significand of a whole number of at most 53 bits, and its exponent. -/
theorem Normal.of_lt {n : Nat} (positive : 0 < n) (small : n < 2 ^ 53) :
    Normal (n * 2 ^ (52 - n.log2)) (-(52 - n.log2 : Nat)) := by
  have log : n.log2 ≤ 52 := Nat.le_of_lt_succ ((Nat.log2_lt positive.ne').mpr small)
  have low := Nat.log2_self_le positive.ne'
  have high := Nat.lt_log2_self (n := n)
  refine ⟨?_, ?_, by omega, by omega⟩
  · calc 2 ^ 52 = 2 ^ n.log2 * 2 ^ (52 - n.log2) := by rw [← Nat.pow_add]; congr 1; omega
      _ ≤ n * 2 ^ (52 - n.log2) := Nat.mul_le_mul_right _ low
  · calc n * 2 ^ (52 - n.log2) < 2 ^ (n.log2 + 1) * 2 ^ (52 - n.log2) :=
          Nat.mul_lt_mul_of_pos_right high (Nat.two_pow_pos _)
      _ = 2 ^ 53 := by rw [← Nat.pow_add]; congr 1; omega

/-- Shifting a whole number up to 53 bits leaves nothing to round. -/
theorem round_whole {n : Nat} (positive : 0 < n) (small : n < 2 ^ 53) (s : Sign) :
    UnpackedFloat.round .binary64 s n 0 =
      .finite s (n * 2 ^ (52 - n.log2)) (-(52 - n.log2 : Nat)) (Normal.of_lt positive small).pos := by
  have log : n.log2 ≤ 52 := Nat.le_of_lt_succ ((Nat.log2_lt positive.ne').mpr small)
  have target : Format.binary64.targetExponent (totalExponent n 0) = -(52 - n.log2 : Nat) := by
    simp only [Format.targetExponent, totalExponent, Format.mantissaBits, Format.minExponent]
    norm_num
    omega
  have exact := (Normal.of_lt positive small).round_exact s 0
  simp only [Nat.pow_zero, Nat.mul_one, Nat.cast_zero, sub_zero] at exact
  have amount : (0 - -((52 - n.log2 : Nat) : Int)).toNat = 52 - n.log2 := by omega
  have left : 0 - ((52 - n.log2 : Nat) : Int) = -((52 - n.log2 : Nat) : Int) := by omega
  simp only [UnpackedFloat.round, target, decreaseExponent, amount, Nat.shiftLeft_eq, left, exact]

/-- A whole number of at most 53 bits is converted without loss. -/
theorem toModel_toFloat {n : Nat} (positive : 0 < n) (small : n < 2 ^ 53) :
    n.toUInt64.toFloat.toModel = Float.Model.pack
      (.finite .positive (n * 2 ^ (52 - n.log2)) (-(52 - n.log2 : Nat))
        (Normal.of_lt positive small).pos) := by
  have word : n.toUInt64.toNat = n := by
    rw [Nat.toUInt64, UInt64.toNat_ofNat']
    exact Nat.mod_eq_of_lt (by omega)
  change Float.Model.pack
    (UnpackedFloat.normalize .binary64 (n.toUInt64.toNat : Int) 0 .positive) = _
  have sign : compare (n : Int) 0 = .gt := by
    rw [Int.compare_eq_gt]
    omega
  rw [word, UnpackedFloat.normalize, sign]
  change Float.Model.pack (UnpackedFloat.round .binary64 .positive n 0) = _
  rw [round_whole positive small]

theorem toModel_ofNat {n : Nat} (positive : 0 < n) (small : n < 2 ^ 53) :
    (Float.ofNat n).toModel = Float.Model.pack
      (.finite .positive (n * 2 ^ (52 - n.log2)) (-(52 - n.log2 : Nat))
        (Normal.of_lt positive small).pos) := by
  have normal := Normal.of_lt positive small
  -- A number of at most 53 bits is converted as a word, and then multiplied by one.
  have product : Float.ofNat n = n.toUInt64.toFloat * Float.ofBits 0x3FF0000000000000 := by
    change Float.ofScientific n false 0 = _
    unfold Float.ofScientific
    rw [dif_pos ⟨small, by decide⟩]
    rfl
  have converted := toModel_toFloat positive small
  have one : (Float.ofBits 0x3FF0000000000000).toModel.unpack =
      .finite .positive (2 ^ 52) (-52) (by decide) := rfl
  rw [product]
  change Float.Model.pack (UnpackedFloat.mul .binary64 n.toUInt64.toFloat.toModel.unpack
    (Float.ofBits 0x3FF0000000000000).toModel.unpack) = _
  rw [one, converted, normal.unpack_pack]
  have shifted : -((52 - n.log2 : Nat) : Int) + -52 =
      -((52 - n.log2 : Nat) : Int) - ((52 : Nat) : Int) := by omega
  have exact := normal.round_exact (.positive * .positive) 52
  simp only [UnpackedFloat.mul]
  rw [shifted, exact]
  rfl

/-- The double of a whole number is written as that number. -/
theorem Normal.toJson {x : Float} {s : Sign} {k j : Nat} (normal : Normal (k * 2 ^ j) (-j))
    (small : k < 2 ^ 53) (marker : Option Precision)
    (made : x.toModel = Float.Model.pack (.finite s (k * 2 ^ j) (-j) normal.pos)) :
    (Numeral.mk x marker).toJson = .integer (s.apply k) := by
  have finite : x.isFinite = true := by
    change x.toModel.unpack.isFinite = true
    rw [made, normal.unpack_pack]
    rfl
  have scaled : BinaryFraction.scaled ⟨s.toBitVec == 1#1, k * 2 ^ j, -j⟩ 0 =
      (k * 2 ^ j, 2 ^ j) := by
    have up : (-(j : Int)).toNat = 0 := by omega
    have down : (-(-(j : Int))).toNat = j := by omega
    simp only [BinaryFraction.scaled, up, down]
    simp [tenTo, twoTo]
  have whole : BinaryFraction.isWhole ⟨s.toBitVec == 1#1, k * 2 ^ j, -j⟩ = true := by
    simp [BinaryFraction.isWhole, scaled]
  have value : BinaryFraction.toInt ⟨s.toBitVec == 1#1, k * 2 ^ j, -j⟩ = s.apply k := by
    simp only [BinaryFraction.toInt, scaled, Nat.mul_div_cancel k (Nat.two_pow_pos j)]
    cases s <;> rfl
  have range : -(twoTo 63 : Int) ≤ s.apply k ∧ s.apply k ≤ twoTo 63 - 1 := by
    have power : twoTo 63 = 2 ^ 63 := rfl
    rw [power]
    cases s <;> simp only [Sign.apply] <;> omega
  have fits : (Numeral.mk x marker).toInt? = some (s.apply k) := by
    simp only [Numeral.toInt?, normal.ofFloat? made, whole, value]
    rw [if_pos ⟨trivial, range.1, by omega⟩, Int.min_eq_left range.2]
  simp only [Numeral.toJson, finite, if_true, fits]

end TreeQuery.Decimal

namespace TreeQuery

open Decimal Float.Model Float.Model.UnpackedFloat

theorem Numeral.toJson_zero : (Numeral.ofInt 0).toJson = .integer 0 := by
  have finite : (Numeral.ofInt 0).value.isFinite = true := by decide +kernel
  have fits : (Numeral.ofInt 0).toInt? = some 0 := by decide +kernel
  simp only [Numeral.toJson, finite, if_true, fits]

/-- **A whole number of at most 53 bits, or its negative, is written as it is.** The bound itself has
54 bits, and is a double too. -/
theorem Numeral.toJson_ofInt {n : Int} (small : n.natAbs ≤ 2 ^ 53) :
    (Numeral.ofInt n).toJson = .integer n := by
  rcases Nat.lt_or_eq_of_le small with below | bound
  · cases n with
    | ofNat k =>
        rcases Nat.eq_zero_or_pos k with rfl | positive
        · exact Numeral.toJson_zero
        · exact (Normal.of_lt positive below).toJson below _ (toModel_ofNat positive below)
    | negSucc k =>
        have positive : 0 < k + 1 := Nat.succ_pos k
        have normal := Normal.of_lt positive below
        refine normal.toJson (s := .negative) below _ ?_
        change Float.Model.pack (Float.ofNat (k + 1)).toModel.unpack.neg = _
        rw [toModel_ofNat positive below, normal.unpack_pack]
        rfl
  · rcases Int.natAbs_eq_iff.mp bound with rfl | rfl <;> rfl

end TreeQuery
