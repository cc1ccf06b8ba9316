import Mathlib
import TreeQuery.Numeral
import TreeQuery.Proofs.Interchange.Text

/-!
# The precision of a written decimal

A numeral that is read from text has the places that the text shows: the digits after the point, less
the power of ten (`Numeral.parse?_marker`). Both are counted here on the text itself, in front of the
mark of the power and behind it, and agree with what the reader finds (`readUnsigned?_counts`).

Their difference is taken in 32 bits. It is at least `-(2 ^ 31 - 1)`, but it can be too large by as
much as the places and one: under the least power of all, the difference turns negative and the
numeral loses all its places (`Numeral.parse?_least_power`).
-/

set_option autoImplicit false

namespace TreeQuery

namespace Decimal

/-! ## Places and power as written -/

/-- The mark between the digits and the power of ten. -/
def isMark (c : Char) : Bool :=
  c == 'e' || c == 'E'

/-- How many digits stand after the point, in front of the mark of the power. -/
def writtenPlaces (cs : List Char) : Nat :=
  ((cs.takeWhile fun c => !isMark c).dropWhile (· != '.')).countP Char.isDigit

/-- A power that does not fit 32 bits counts as zero. -/
def fitted (power : Int) : Int :=
  if -2 ^ 31 ≤ power ∧ power < 2 ^ 31 then power else 0

/-- The power of ten that is written behind the mark; zero where there is no mark. -/
def writtenPower (cs : List Char) : Int :=
  fitted ((readPower? (cs.dropWhile fun c => !isMark c).tail).getD 0)

/-- A text whose digits and point stand in `front`, with nothing or a marked power behind it. -/
theorem written_append {front tail : List Char} (plain : ∀ c ∈ front, isMark c = false)
    (marked : ∀ c ∈ tail.head?, isMark c = true) :
    writtenPlaces (front ++ tail) = (front.dropWhile (· != '.')).countP Char.isDigit ∧
      writtenPower (front ++ tail) = fitted ((readPower? tail.tail).getD 0) := by
  have unmarked : ∀ c ∈ front, (!isMark c) = true := fun c among => by
    rw [plain c among, Bool.not_false]
  obtain ⟨before, behind⟩ := Json.span_append unmarked fun c first => by
    rw [marked c first, Bool.not_true]
  rw [writtenPlaces, writtenPower, before, behind]
  exact ⟨rfl, rfl⟩

/-- A sign in front changes neither. -/
theorem written_takeSign (cs : List Char) :
    writtenPlaces (takeSign cs).2 = writtenPlaces cs ∧
      writtenPower (takeSign cs).2 = writtenPower cs := by
  unfold takeSign
  split
  · exact ⟨rfl, rfl⟩
  · exact ⟨rfl, rfl⟩
  · exact ⟨rfl, rfl⟩

theorem digit_plain {c : Char} (digit : c.isDigit = true) : isMark c = false ∧ c ≠ '.' := by
  refine ⟨Bool.eq_false_iff.mpr fun mark => ?_, ?_⟩
  · rcases (by simpa [isMark] using mark : c = 'e' ∨ c = 'E') with rfl | rfl <;>
      revert digit <;> decide
  · rintro rfl
    revert digit
    decide

section Parts

variable {negative : Bool} {whole fraction front tail : List Char} {l : Literal}

/-- Digits and a point in front, and what is read as the power behind them. -/
theorem counts_of_tail {digits : List Char} (plain : ∀ c ∈ front, isMark c = false)
    (places : (front.dropWhile (· != '.')).countP Char.isDigit = fraction.length)
    (read : (match tail with
      | [] => some ⟨negative, digits, fraction.length, 0⟩
      | c :: power =>
        if c = 'e' ∨ c = 'E' then (readPower? power).map (⟨negative, digits, fraction.length, ·⟩)
        else none) = some l) :
    l.places = writtenPlaces (front ++ tail) ∧ fitted l.power = writtenPower (front ++ tail) := by
  cases tail with
  | nil =>
      have last : ∀ c ∈ ([] : List Char).head?, isMark c = true := nofun
      obtain ⟨count, power⟩ := written_append plain last
      cases read
      exact ⟨places.symm.trans count.symm, power.symm⟩
  | cons c behind =>
      dsimp only at read
      split at read
      · rename_i mark
        have marked : ∀ d ∈ (c :: behind).head?, isMark d = true := by
          rintro _ ⟨⟩
          simpa [isMark] using mark
        obtain ⟨count, power⟩ := written_append plain marked
        obtain ⟨n, reads, rfl⟩ := Option.map_eq_some_iff.mp read
        rw [List.tail_cons, reads] at power
        exact ⟨places.symm.trans count.symm, power.symm⟩
      · cases read

theorem plain_of_digits (digits : ∀ c ∈ whole, c.isDigit = true) : ∀ c ∈ whole, isMark c = false :=
  fun c among => (digit_plain (digits c among)).1

/-- Only the digits behind the point count as places. -/
theorem countP_places (digits : ∀ c ∈ whole, c.isDigit = true)
    (fractional : ∀ c ∈ fraction, c.isDigit = true) :
    (whole.dropWhile (· != '.')).countP Char.isDigit = 0 ∧
      ((whole ++ '.' :: fraction).dropWhile (· != '.')).countP Char.isDigit = fraction.length := by
  have before : ∀ c ∈ whole, (c != '.') = true := fun c among =>
    bne_iff_ne.mpr (digit_plain (digits c among)).2
  have none : whole.dropWhile (· != '.') = [] := List.dropWhile_eq_nil_iff.mpr before
  have point : ('.' :: fraction).dropWhile (· != '.') = '.' :: fraction := rfl
  refine ⟨by rw [none, List.countP_nil], ?_⟩
  rw [List.dropWhile_append_of_pos before, point, List.countP_cons_of_neg (by decide),
    List.countP_eq_length.mpr fractional]

/-- The reader finds the places and the power that are written. -/
theorem readUnsigned?_counts {cs : List Char} (read : readUnsigned? negative cs = some l) :
    l.places = writtenPlaces cs ∧ fitted l.power = writtenPower cs := by
  have digits : ∀ c ∈ cs.takeWhile Char.isDigit, c.isDigit = true := fun c among =>
    List.mem_takeWhile_imp among
  have whole := List.takeWhile_append_dropWhile (p := Char.isDigit) (l := cs)
  unfold readUnsigned? at read
  dsimp only at read
  generalize cs.takeWhile Char.isDigit = front at read digits whole
  generalize cs.dropWhile Char.isDigit = rest at read whole
  rw [← whole]
  split at read
  · rename_i r
    have fractional : ∀ c ∈ r.takeWhile Char.isDigit, c.isDigit = true := fun c among =>
      List.mem_takeWhile_imp among
    have parts : front ++ '.' :: r =
        (front ++ '.' :: r.takeWhile Char.isDigit) ++ r.dropWhile Char.isDigit := by
      rw [List.append_assoc, List.cons_append, List.takeWhile_append_dropWhile]
    dsimp only at read
    split at read
    · cases read
    · rw [parts]
      refine counts_of_tail (fun c among => ?_) (countP_places digits fractional).2 read
      rcases List.mem_append.mp among with digit | later
      · exact plain_of_digits digits c digit
      · rcases List.mem_cons.mp later with rfl | digit
        · rfl
        · exact plain_of_digits fractional c digit
  · dsimp only at read
    split at read
    · cases read
    · have none : ∀ c ∈ ([] : List Char), c.isDigit = true := List.forall_mem_nil _
      have without := (countP_places digits none).1
      rw [← List.length_nil (α := Char)] at without
      exact counts_of_tail (plain_of_digits digits) without read

end Parts

/-- The letters of the words for infinity and for what is not a number, in either case. -/
theorem plain_of_letter {c : Char} (letter : c.toLower ∈ ['a', 'f', 'i', 'n', 't', 'y']) :
    isMark c = false ∧ c.isDigit = false := by
  constructor
  · refine Bool.eq_false_iff.mpr fun mark => ?_
    rcases (by simpa [isMark] using mark : c = 'e' ∨ c = 'E') with rfl | rfl <;>
      revert letter <;> decide
  · refine Bool.eq_false_iff.mpr fun digit => ?_
    have same : c.toLower = c := by
      refine Char.toLower_eq_of_not_isUpper ?_
      simp only [Char.isUpper, Char.isDigit] at digit ⊢
      grind
    rw [same] at letter
    simp only [List.mem_cons, List.not_mem_nil, or_false] at letter
    rcases letter with rfl | rfl | rfl | rfl | rfl | rfl <;> revert digit <;> decide

/-- A word has neither places nor a power. -/
theorem written_word {cs : List Char}
    (letters : ∀ c ∈ cs, c.toLower ∈ ['a', 'f', 'i', 'n', 't', 'y']) :
    writtenPlaces cs = 0 ∧ writtenPower cs = 0 := by
  have last : ∀ c ∈ ([] : List Char).head?, isMark c = true := nofun
  obtain ⟨places, power⟩ :=
    written_append (fun c among => (plain_of_letter (letters c among)).1) last
  rw [List.append_nil] at places power
  refine ⟨places.trans (List.countP_eq_zero.mpr fun c among => ?_), power⟩
  have member := (List.dropWhile_sublist _).subset among
  rw [(plain_of_letter (letters c member)).2]
  exact Bool.false_ne_true

/-- **The reader counts what is written**, and takes a word for one without places. -/
theorem precision_of_read? {cs : List Char} {w : Written} (read : read? cs = some w) :
    w.precision = Precision.ofNat
      (Int32.ofNat (writtenPlaces cs) - Int32.ofInt (writtenPower cs)).toInt.toNat := by
  have places := (written_takeSign cs).1
  have power := (written_takeSign cs).2
  have word : ∀ letters : List Char, (∀ c ∈ letters, c ∈ ['a', 'f', 'i', 'n', 't', 'y']) →
      (takeSign cs).2.map Char.toLower = letters → writtenPlaces cs = 0 ∧ writtenPower cs = 0 := by
    rintro _ each rfl
    rw [← places, ← power]
    exact written_word fun c among => each _ (List.mem_map_of_mem among)
  unfold read? at read
  dsimp only at read
  split at read
  · rename_i infinite
    cases read
    obtain ⟨none, zero⟩ : writtenPlaces cs = 0 ∧ writtenPower cs = 0 := by
      rcases infinite with short | long
      · exact word _ (by simp) short
      · exact word _ (by simp) long
    rw [none, zero]
    rfl
  · split at read
    · rename_i notNumber
      cases read
      obtain ⟨none, zero⟩ := word _ (by simp) notNumber
      rw [none, zero]
      rfl
    · obtain ⟨l, reads, rfl⟩ := Option.map_eq_some_iff.mp read
      obtain ⟨same, alike⟩ := readUnsigned?_counts reads
      rw [← places, ← power, ← same, ← alike]
      rfl

/-! ## The difference -/

theorem fitted_range (power : Int) : -2 ^ 31 ≤ fitted power ∧ fitted power < 2 ^ 31 := by
  unfold fitted
  split
  · assumption
  · norm_num

/-- The difference in 32 bits. -/
theorem toInt_difference {places : Nat} (short : places < 2 ^ 31) {power : Int}
    (range : -2 ^ 31 ≤ power ∧ power < 2 ^ 31) :
    (Int32.ofNat places - Int32.ofInt power).toInt =
      if places - power < 2 ^ 31 then places - power else places - power - 2 ^ 32 := by
  rw [Int32.toInt_sub, Int32.toInt_ofNat_of_lt short, Int32.toInt_ofInt_of_le range.1 range.2]
  split
  · rw [Int.bmod_eq_of_le (by omega) (by omega)]
  · rw [← Int.sub_bmod_right, Int.bmod_eq_of_le (by norm_num; omega) (by norm_num; omega)]
    norm_num

theorem ssubOverflow_iff {places : Nat} (short : places < 2 ^ 31) {power : Int}
    (range : -2 ^ 31 ≤ power ∧ power < 2 ^ 31) :
    (Int32.ofNat places).toBitVec.ssubOverflow (Int32.ofInt power).toBitVec = false ↔
      places - power < 2 ^ 31 := by
  have left : (Int32.ofNat places).toBitVec.toInt = places := Int32.toInt_ofNat_of_lt short
  have right : (Int32.ofInt power).toBitVec.toInt = power :=
    Int32.toInt_ofInt_of_le range.1 range.2
  rw [BitVec.ssubOverflow, left, right, Bool.or_eq_false_iff, decide_eq_false_iff_not,
    decide_eq_false_iff_not]
  omega

end Decimal

namespace Numeral

open Decimal

/-- **The precision of a numeral that is read is its places less its power**, kept between zero and
fifteen, and 32 bits are enough for the difference, exactly as long as it is less than `2 ^ 31`. A
larger one leaves no places. -/
theorem parse?_marker {s : String} {n : Numeral} (accepted : parse? s = some n)
    (short : writtenPlaces (Text.trim s).toList < 2 ^ 31) :
    let places := writtenPlaces (Text.trim s).toList
    let power := writtenPower (Text.trim s).toList
    ((Int32.ofNat places).toBitVec.ssubOverflow (Int32.ofInt power).toBitVec = false ↔
        places - power < 2 ^ 31) ∧
      ∃ p, n.marker = some p ∧
        (places - power < 2 ^ 31 → (p.val : Int) = max 0 (min 15 (places - power))) ∧
        (2 ^ 31 ≤ places - power → p = 0) := by
  intro places power
  have range : -2 ^ 31 ≤ power ∧ power < 2 ^ 31 := fitted_range _
  obtain ⟨w, read, rfl⟩ := Option.map_eq_some_iff.mp accepted
  have precision := precision_of_read? read
  rw [toInt_difference short range] at precision
  refine ⟨ssubOverflow_iff short range, _, congrArg some precision, fun less => ?_, fun more => ?_⟩
  · rw [if_pos less]
    simp only [Precision.ofNat]
    omega
  · rw [if_neg (by omega), Int.toNat_of_nonpos (by omega)]
    rfl

/-- A power just above the least one. -/
theorem parse?_marker_small :
    let s := " -0.50e-2147483645"
    writtenPlaces (Text.trim s).toList < 2 ^ 31 ∧ ∃ n, parse? s = some n ∧ n.marker = some 15 := by
  intro s
  have places : writtenPlaces (Text.trim s).toList = 2 := by decide +kernel
  have power : writtenPower (Text.trim s).toList = -2147483645 := by decide +kernel
  have short : writtenPlaces (Text.trim s).toList < 2 ^ 31 := by
    rw [places]
    norm_num
  obtain ⟨n, accepted⟩ : ∃ n, parse? s = some n :=
    Option.isSome_iff_exists.mp (by decide +kernel)
  obtain ⟨-, p, marker, clamped, -⟩ := parse?_marker accepted short
  rw [places, power] at clamped
  have fifteen := clamped (by norm_num)
  norm_num at fifteen
  exact ⟨short, n, accepted, marker.trans (congrArg some (Fin.ext (by exact_mod_cast fifteen)))⟩

/-- Under the least power that fits 32 bits the difference does not, and all places are lost. -/
theorem parse?_least_power :
    (parse? "1e-2147483648").map marker = some (some 0) ∧
      writtenPlaces (Text.trim "1e-2147483648").toList = 0 ∧
      writtenPower (Text.trim "1e-2147483648").toList = -2 ^ 31 ∧
      (Int32.ofNat 0).toBitVec.ssubOverflow (Int32.ofInt (-2 ^ 31)).toBitVec = true ∧
      max 0 (min 15 (((0 : Nat) : Int) - -2 ^ 31)) = 15 := by
  decide +kernel

end Numeral

end TreeQuery
