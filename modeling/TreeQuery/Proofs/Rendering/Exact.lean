import Mathlib
import TreeQuery.Proofs.Interchange.Doubles

/-!
# Doubles as rational numbers

A finite double is a rational number: its significand times a power of two, with a sign. The
significand has 53 bits, or fewer at the least exponent (`Canonical`). The exact value that the
library computes from the bits of a double is that of the standard model, both ways: what a double
is unpacked to (`unpack_of_ofFloat?`), and what becomes of a significand and an exponent that are
packed (`Exactly.of_pack`).
-/

set_option autoImplicit false

namespace TreeQuery.Decimal

open Float.Model Float.Model.UnpackedFloat

/-- A magnitude with a sign. -/
def withSign (negative : Bool) (q : ℚ) : ℚ :=
  if negative then -q else q

theorem withSign_zero (negative : Bool) : withSign negative 0 = 0 := by
  cases negative <;> norm_num [withSign]

namespace BinaryFraction

/-- The exact magnitude. -/
def magnitude (b : BinaryFraction) : ℚ :=
  b.significand * 2 ^ b.exponent

/-- The exact value. -/
def toRat (b : BinaryFraction) : ℚ :=
  withSign b.negative b.magnitude

theorem magnitude_nonneg (b : BinaryFraction) : 0 ≤ b.magnitude := by
  unfold magnitude
  positivity

end BinaryFraction

/-- A significand and an exponent as a double has them. -/
structure Canonical (m : Nat) (e : Int) : Prop where
  high : m < 2 ^ 53
  least : -1074 ≤ e
  most : e ≤ 971
  full : 2 ^ 52 ≤ m ∨ e = -1074

/-- The unpacked double of a significand, which may be zero. -/
def signed (s : Sign) (m : Nat) (e : Int) : UnpackedFloat :=
  if zero : m = 0 then .zero s else .finite s m e (Nat.pos_of_ne_zero zero)

def signOf (negative : Bool) : Sign :=
  if negative then .negative else .positive

/-- A finite double of this sign, zeros included, and of this exact magnitude. -/
def Exactly (x : Float) (negative : Bool) (q : ℚ) : Prop :=
  ∃ b, BinaryFraction.ofFloat? x = some b ∧ b.negative = negative ∧ b.magnitude = q

/-! ## From the bits -/

/-- The parts of a double, from the three fields of its bits. -/
theorem ofFloat?_of_bits {x : Float} {sign biased fraction : Nat} (signed : sign < 2)
    (finite : biased < 2047) (short : fraction < 2 ^ 52)
    (bits : x.toBits.toNat = sign * 2 ^ 63 + biased * 2 ^ 52 + fraction) :
    BinaryFraction.ofFloat? x = some (if biased = 0 then ⟨decide (sign = 1), fraction, -1074⟩
      else ⟨decide (sign = 1), 2 ^ 52 + fraction, (biased : Int) - 1075⟩) := by
  have powers : ∀ n, twoTo n = 2 ^ n := fun _ => rfl
  have exponent : x.toBits.toNat / 2 ^ 52 % 2 ^ 11 = biased := by omega
  have rest : x.toBits.toNat % 2 ^ 52 = fraction := by omega
  have negative : decide (2 ^ 63 ≤ x.toBits.toNat) = decide (sign = 1) :=
    decide_eq_decide.mpr (by omega)
  simp only [BinaryFraction.ofFloat?, powers, exponent, rest, negative]
  rw [if_neg (by omega)]
  split <;> rfl

theorem ofBitVec_eq_signOf {sign : BitVec 1} {negative : Bool}
    (same : negative = decide (sign.toNat = 1)) : Sign.ofBitVec sign = signOf negative := by
  have bound := sign.isLt
  rw [Sign.ofBitVec, signOf, same]
  by_cases zero : sign = 0#1
  · subst zero
    rfl
  · have one : sign.toNat = 1 := by
      have nonzero : sign.toNat ≠ 0 := fun none => zero (BitVec.eq_of_toNat_eq none)
      omega
    rw [if_neg zero, one]
    rfl

section Unpacking

variable {word : BitVec 64}

/-- With no exponent the fraction is all of the significand. -/
theorem unpack_short (least : (@unpackExponent .binary64 word).toNat = 0) :
    UnpackedFloat.unpack .binary64 word = signed (.ofBitVec (@unpackSign .binary64 word))
      (@unpackMantissa .binary64 word).toNat (-1074) := by
  have none : @unpackExponent .binary64 word = 0#11 := BitVec.eq_of_toNat_eq least
  have some : @unpackExponent .binary64 word ≠ -1#11 := by
    rw [none]
    decide
  simp only [UnpackedFloat.unpack]
  rw [if_neg some, if_pos none]
  by_cases zero : @unpackMantissa .binary64 word = 0#52
  · simp only [zero, signed, BitVec.toNat_ofNat, Nat.zero_mod, dite_true]
  · have nonzero : (@unpackMantissa .binary64 word).toNat ≠ 0 := fun none =>
      zero (BitVec.eq_of_toNat_eq none)
    rw [dif_neg zero, signed, dif_neg nonzero, least]
    rfl

/-- With an exponent the significand has one more bit. -/
theorem unpack_long (normal : (@unpackExponent .binary64 word).toNat ≠ 0)
    (finite : (@unpackExponent .binary64 word).toNat ≠ 2047) :
    UnpackedFloat.unpack .binary64 word = signed (.ofBitVec (@unpackSign .binary64 word))
      (2 ^ 52 + (@unpackMantissa .binary64 word).toNat)
      ((@unpackExponent .binary64 word).toNat - 1075) := by
  have some : @unpackExponent .binary64 word ≠ -1#11 := fun all => finite (by rw [all]; rfl)
  have whole : (1#1 ++ @unpackMantissa .binary64 word).toNat =
      2 ^ 52 + (@unpackMantissa .binary64 word).toNat := by
    rw [BitVec.toNat_append, ← Nat.shiftLeft_add_eq_or_of_lt (BitVec.isLt _), Nat.shiftLeft_eq]
    norm_num
  have nonzero : 2 ^ 52 + (@unpackMantissa .binary64 word).toNat ≠ 0 := by omega
  simp only [UnpackedFloat.unpack]
  rw [if_neg some, if_neg fun none => normal (by rw [none]; rfl), signed, dif_neg nonzero]
  congr 1

end Unpacking

/-- **The exact value of a double is the one that the standard model unpacks it to.** -/
theorem unpack_of_ofFloat? {x : Float} {b : BinaryFraction}
    (exact : BinaryFraction.ofFloat? x = some b) :
    x.toModel.unpack = signed (signOf b.negative) b.significand b.exponent ∧
      Canonical b.significand b.exponent := by
  obtain ⟨word, same⟩ : ∃ word, word = x.toModel.toBits.toBitVec := ⟨_, rfl⟩
  have bits : x.toBits.toNat = word.toNat := congrArg BitVec.toNat same.symm
  have exponent : (@unpackExponent .binary64 word).toNat = word.toNat >>> 52 % 2 ^ 11 := rfl
  have fraction : (@unpackMantissa .binary64 word).toNat = word.toNat % 2 ^ 52 := rfl
  have sign : (@unpackSign .binary64 word).toNat = word.toNat >>> 63 % 2 := rfl
  rw [Nat.shiftRight_eq_div_pow] at exponent sign
  have powers : ∀ n, twoTo n = 2 ^ n := fun _ => rfl
  have bound := word.isLt
  have negative :
      decide (2 ^ 63 ≤ word.toNat) = decide ((@unpackSign .binary64 word).toNat = 1) := by
    refine decide_eq_decide.mpr ?_
    rw [sign]
    omega
  have signs := ofBitVec_eq_signOf negative
  have inside : (@unpackExponent .binary64 word).toNat < 2 ^ 11 := BitVec.isLt _
  have short : (@unpackMantissa .binary64 word).toNat < 2 ^ 52 := BitVec.isLt _
  change UnpackedFloat.unpack .binary64 x.toModel.toBits.toBitVec = _ ∧ _
  rw [← same]
  simp only [BinaryFraction.ofFloat?, powers, bits, ← exponent, ← fraction] at exact
  split at exact
  · cases exact
  · rename_i finite
    split at exact
    · rename_i least
      cases exact
      refine ⟨signs ▸ unpack_short least, ⟨?_, le_rfl, by norm_num, .inr rfl⟩⟩
      dsimp only
      omega
    · rename_i normal
      cases exact
      refine ⟨signs ▸ unpack_long normal finite, ⟨?_, ?_, ?_, .inl ?_⟩⟩ <;>
        dsimp only <;> omega

/-! ## From a significand and an exponent -/

theorem toNat_toBitVec_signOf (negative : Bool) :
    (signOf negative).toBitVec.toNat = if negative then 1 else 0 := by
  cases negative <;> rfl

/-- A short significand is packed as it is, in front of no exponent. -/
theorem toNat_pack_short (s : Sign) {m : Nat} (short : m < 2 ^ 52) :
    (Float.Model.pack (signed s m (-1074))).toBits.toNat = s.toBitVec.toNat * 2 ^ 63 + m := by
  change (UnpackedFloat.pack .binary64 (signed s m (-1074))).toNat = _
  by_cases zero : m = 0
  · rw [zero, signed, dif_pos rfl]
    change (packComponents .binary64 s 0#11 0#52).toNat = _
    simp only [toNat_packComponents, BitVec.toNat_ofNat, Nat.zero_mod, Nat.zero_mul, Nat.add_zero]
  · have few : m.log2 + 1 ≠ Format.binary64.mantissaBits := by
      have log := (Nat.log2_lt zero).mpr short
      change m.log2 + 1 ≠ 53
      omega
    have biased : (-1074 + (Format.binary64.exponentBias : Int) +
        Format.binary64.mantissaBitsWithoutImplicit).toNat = 1 := rfl
    rw [signed, dif_neg zero]
    simp only [UnpackedFloat.pack, biased, few, if_false]
    rw [if_neg (by norm_num), toNat_packComponents, BitVec.toNat_ofNat, BitVec.toNat_ofNat,
      Nat.mod_eq_of_lt short]
    norm_num

/-- **A significand and an exponent that are packed make a double of their value.** -/
theorem Exactly.of_pack {x : Float} {negative : Bool} {m : Nat} {e : Int}
    (canonical : Canonical m e)
    (made : x.toModel = Float.Model.pack (signed (signOf negative) m e)) :
    Exactly x negative (m * 2 ^ e) := by
  by_cases short : m < 2 ^ 52
  · obtain rfl : e = -1074 := by
      rcases canonical.full with full | least
      · omega
      · exact least
    have bits : x.toBits.toNat = (if negative then 1 else 0) * 2 ^ 63 + 0 * 2 ^ 52 + m := by
      change x.toModel.toBits.toNat = _
      rw [made, toNat_pack_short _ short, toNat_toBitVec_signOf, Nat.zero_mul, Nat.add_zero]
    have exact := ofFloat?_of_bits (by split <;> decide) (by decide) short bits
    rw [if_pos rfl] at exact
    exact ⟨_, exact, by cases negative <;> rfl, rfl⟩
  · have normal : Normal m e := ⟨by omega, canonical.high, canonical.least, canonical.most⟩
    rw [signed, dif_neg normal.pos.ne'] at made
    exact ⟨_, normal.ofFloat? made, by cases negative <;> rfl, rfl⟩

namespace Exactly

variable {x : Float} {negative : Bool} {q : ℚ}

theorem isFinite (exactly : Exactly x negative q) : x.isFinite = true := by
  obtain ⟨b, exact, -, -⟩ := exactly
  change x.toModel.unpack.isFinite = true
  rw [(unpack_of_ofFloat? exact).1, signed]
  split <;> rfl

/-- The double with the other sign. -/
theorem neg (exactly : Exactly x negative q) : Exactly (-x) (!negative) q := by
  obtain ⟨b, exact, rfl, rfl⟩ := exactly
  obtain ⟨unpacked, canonical⟩ := unpack_of_ofFloat? exact
  refine of_pack canonical ?_
  change Float.Model.pack x.toModel.unpack.neg = _
  rw [unpacked, signed, signed]
  split <;> cases b.negative <;> rfl

/-- A whole number of at most 53 bits. -/
theorem ofNat {n : Nat} (small : n < 2 ^ 53) : Exactly (Float.ofNat n) false n := by
  rcases Nat.eq_zero_or_pos n with rfl | positive
  · refine ⟨⟨false, 0, -1074⟩, by decide +kernel, rfl, ?_⟩
    simp [BinaryFraction.magnitude]
  · have normal := Normal.of_lt positive small
    refine ⟨_, normal.ofFloat? (toModel_ofNat positive small), rfl, ?_⟩
    have shifted : ((n * 2 ^ (52 - n.log2) : Nat) : ℚ) * 2 ^ (-(52 - n.log2 : Nat) : Int) = n := by
      rw [Nat.cast_mul, Nat.cast_pow, Nat.cast_ofNat, zpow_neg, zpow_natCast, mul_assoc,
        mul_inv_cancel₀ (by positivity), mul_one]
    exact shifted

end Exactly

end TreeQuery.Decimal
