import Mathlib
import TreeQuery.Proofs.Interchange.Base64

/-!
# What hexadecimal text is

Reading takes exactly the texts that are made of pairs of digits, and it undoes writing; where it
fails, it tells the pair at which the text stops being one of them (`Bytes.parseHex_exact`).

The reader walks over bytes. `ofSlices` is the same reader over slices of the text, which exist only
between characters: `ofHexPairs_eq_slices` says that a pair that would cut a character in two is a
pair that is not made of digits.
-/

set_option autoImplicit false

namespace TreeQuery

/-! ## Slices of text -/

namespace Text

/-- The bytes of characters. -/
def encode (cs : List Char) : Bytes :=
  cs.flatMap String.utf8EncodeChar

/-- The characters before and after a byte offset, if it stands between two characters. -/
def cut? : List Char → Nat → Option (List Char × List Char)
  | cs, 0 => some ([], cs)
  | [], _ + 1 => none
  | c :: cs, n + 1 =>
    if c.utf8Size ≤ n + 1 then
      (cut? cs (n + 1 - c.utf8Size)).map fun parts => (c :: parts.1, parts.2)
    else none

/-- The characters from one byte offset to another, if both stand between two characters. -/
def slice? (cs : List Char) (start stop : Nat) : Option (List Char) := do
  let parts ← cut? cs start
  let piece ← cut? parts.2 (stop - start)
  return piece.1

theorem encode_cons (c : Char) (cs : List Char) :
    encode (c :: cs) = String.utf8EncodeChar c ++ encode cs := rfl

theorem encode_append (front back : List Char) :
    encode (front ++ back) = encode front ++ encode back :=
  List.flatMap_append ..

theorem length_encode_cons (c : Char) (cs : List Char) :
    (encode (c :: cs)).length = c.utf8Size + (encode cs).length := by
  rw [encode_cons, List.length_append, String.length_utf8EncodeChar]

theorem cut?_zero (cs : List Char) : cut? cs 0 = some ([], cs) := by
  cases cs <;> rfl

theorem cut?_cons (c : Char) (cs : List Char) {n : Nat} (fits : c.utf8Size ≤ n) :
    cut? (c :: cs) n = (cut? cs (n - c.utf8Size)).map fun parts => (c :: parts.1, parts.2) := by
  have size := c.utf8Size_pos
  cases n with
  | zero => omega
  | succ n => rw [cut?, if_pos fits]

theorem cut?_append (front back : List Char) :
    cut? (front ++ back) (encode front).length = some (front, back) := by
  induction front with
  | nil => exact cut?_zero back
  | cons c front ih =>
      rw [List.cons_append, length_encode_cons, cut?_cons c _ (Nat.le_add_right ..),
        Nat.add_sub_cancel_left, ih]
      rfl

theorem cut?_parts {cs front back : List Char} {n : Nat} (cut : cut? cs n = some (front, back)) :
    cs = front ++ back ∧ (encode front).length = n := by
  induction cs generalizing n front with
  | nil => cases n with
    | zero =>
        cases cut
        exact ⟨rfl, rfl⟩
    | succ n => cases cut
  | cons c cs ih => cases n with
    | zero =>
        cases cut
        exact ⟨rfl, rfl⟩
    | succ n =>
        rw [cut?] at cut
        split at cut
        · rename_i fits
          obtain ⟨⟨start, stop⟩, inner, parts⟩ := Option.map_eq_some_iff.mp cut
          cases parts
          obtain ⟨rfl, size⟩ := ih inner
          refine ⟨rfl, ?_⟩
          rw [length_encode_cons, size]
          omega
        · cases cut

/-- A slice is what stands between two offsets. -/
theorem slice?_eq_some_iff {cs piece : List Char} {start stop : Nat} :
    slice? cs start stop = some piece ↔ ∃ front back, cs = front ++ (piece ++ back) ∧
      (encode front).length = start ∧ (encode piece).length = stop - start := by
  constructor
  · intro sliced
    simp only [slice?, Option.bind_eq_bind, Option.bind_eq_some_iff, Option.pure_def] at sliced
    obtain ⟨⟨front, rest⟩, before, ⟨inner, back⟩, after, last⟩ := sliced
    cases last
    obtain ⟨rfl, first⟩ := cut?_parts before
    obtain ⟨rest', second⟩ := cut?_parts after
    exact ⟨front, back, by rw [← rest'], first, second⟩
  · rintro ⟨front, back, rfl, rfl, size⟩
    simp only [slice?, cut?_append, ← size, Option.bind_eq_bind, Option.bind_some]
    rfl

theorem encode_slice {cs piece : List Char} {start stop : Nat}
    (sliced : slice? cs start stop = some piece) :
    encode piece = ((encode cs).drop start).take (stop - start) := by
  obtain ⟨front, back, rfl, rfl, size⟩ := slice?_eq_some_iff.mp sliced
  rw [encode_append, encode_append, List.drop_left, ← size, List.take_left]

/-! ## Bytes below 128 -/

/-- A byte below 128 is a whole character: the bytes of a longer one are all above. -/
theorem utf8EncodeChar_of_mem {c : Char} {a : UInt8} (member : a ∈ String.utf8EncodeChar c)
    (narrow : a.toNat < 128) : String.utf8EncodeChar c = [a] := by
  by_cases single : c.toNat < 128
  · rw [Bytes.utf8EncodeChar_of_lt single] at member ⊢
    rw [List.mem_singleton.mp member]
  · have wide : ∀ n, 128 ≤ n → n < 256 → UInt8.ofNat n ≠ a := by
      rintro n low high rfl
      rw [UInt8.toNat_ofNat_of_lt' high] at narrow
      omega
    have start : ¬ c.val.toNat ≤ 127 := fun small => single (Nat.lt_succ_of_le small)
    rw [String.utf8EncodeChar, if_neg start] at member
    split at member
    · simp only [List.mem_cons, List.not_mem_nil, or_false] at member
      obtain same | same := member <;>
        exact absurd same.symm (wide _ (by omega) (by omega))
    · split at member
      · simp only [List.mem_cons, List.not_mem_nil, or_false] at member
        obtain same | same | same := member <;>
          exact absurd same.symm (wide _ (by omega) (by omega))
      · simp only [List.mem_cons, List.not_mem_nil, or_false] at member
        obtain same | same | same | same := member <;>
          exact absurd same.symm (wide _ (by omega) (by omega))

/-- Where the byte at an offset is below 128, a character starts there and is that byte. -/
theorem exists_char {cs : List Char} {k : Nat} {a : UInt8} (found : (encode cs)[k]? = some a)
    (narrow : a.toNat < 128) : ∃ front c back, cs = front ++ c :: back ∧
      (encode front).length = k ∧ String.utf8EncodeChar c = [a] := by
  induction cs generalizing k with
  | nil => cases found
  | cons c cs ih =>
      rw [encode_cons] at found
      by_cases inside : k < (String.utf8EncodeChar c).length
      · rw [List.getElem?_append_left inside] at found
        have whole := utf8EncodeChar_of_mem (List.mem_of_getElem? found) narrow
        rw [whole, List.length_singleton, Nat.lt_one_iff] at inside
        exact ⟨[], c, cs, rfl, inside.symm, whole⟩
      · rw [List.getElem?_append_right (Nat.le_of_not_lt inside)] at found
        obtain ⟨front, d, back, rfl, size, whole⟩ := ih found
        refine ⟨c :: front, d, back, rfl, ?_, whole⟩
        rw [encode_cons, List.length_append, size]
        omega

/-- Two bytes below 128 can be sliced out, whatever stands around them. -/
theorem exists_slice {cs : List Char} {k : Nat} {a b : UInt8} {rest : Bytes}
    (here : (encode cs).drop k = a :: b :: rest) (first : a.toNat < 128) (second : b.toNat < 128) :
    ∃ pair, slice? cs k (k + 2) = some pair := by
  have foundFirst : (encode cs)[k]? = some a := by
    have head : ((encode cs).drop k)[0]? = some a := by
      rw [here]
      rfl
    rwa [List.getElem?_drop] at head
  obtain ⟨front, c, after, rfl, size, whole⟩ := exists_char foundFirst first
  have foundSecond : (encode after)[0]? = some b := by
    rw [encode_append, ← size, List.drop_left, encode_cons, whole] at here
    have tail : encode after = b :: rest := (List.cons.inj here).2
    rw [tail]
    rfl
  obtain ⟨none, d, back, rfl, empty, whole'⟩ := exists_char foundSecond second
  refine ⟨c :: (none ++ [d]), slice?_eq_some_iff.mpr ⟨front, back, by simp, size, ?_⟩⟩
  rw [encode_cons, encode_append, encode_cons, whole, whole', List.length_append,
    List.length_append, empty]
  simp [encode]

end Text

namespace Bytes

/-! ## Digits -/

/-- A byte that is an ASCII digit, or one of the first six letters in either case. -/
def IsHexDigit (b : UInt8) : Prop :=
  (48 ≤ b.toNat ∧ b.toNat ≤ 57) ∨ (65 ≤ b.toNat ∧ b.toNat ≤ 70) ∨
    (97 ≤ b.toNat ∧ b.toNat ≤ 102)

instance : DecidablePred IsHexDigit := fun b =>
  inferInstanceAs (Decidable ((48 ≤ b.toNat ∧ b.toNat ≤ 57) ∨ _ ∨ _))

theorem hexValue?_eq_none_iff {b : UInt8} : hexValue? b = none ↔ ¬ IsHexDigit b := by
  simp only [hexValue?, IsHexDigit]
  split
  · simp; omega
  · split
    · simp; omega
    · split
      · simp; omega
      · simp; omega

theorem exists_hexValue {b : UInt8} (digit : IsHexDigit b) : ∃ n, hexValue? b = some n :=
  Option.ne_none_iff_exists'.mp fun none => hexValue?_eq_none_iff.mp none digit

theorem isHexDigit_of_hexValue {b : UInt8} {n : Nat} (value : hexValue? b = some n) :
    IsHexDigit b := by
  by_contra other
  rw [hexValue?_eq_none_iff.mpr other] at value
  cases value

theorem IsHexDigit.narrow {b : UInt8} (digit : IsHexDigit b) : b.toNat < 128 := by
  obtain digit | digit | digit := digit <;> omega

/-- Digits stand for one byte of text each, and writing their values gives them back in lower
case. -/
theorem hexDigit_hexValue {c : Char} (narrow : c.toNat < 128) {n : Nat}
    (value : hexValue? (symbolByte c) = some n) : n < 16 ∧ Text.hexDigit n = c.toLower := by
  have all : ∀ m < 128, ∀ n ∈ hexValue? (symbolByte (Char.ofNat m)),
      n < 16 ∧ Text.hexDigit n = (Char.ofNat m).toLower := by decide +kernel
  have here := all c.toNat narrow n
  rw [Char.ofNat_toNat] at here
  exact here value

theorem hexValue_hexDigit {n : Nat} (small : n < 16) :
    hexValue? (symbolByte (Text.hexDigit n)) = some n := by
  have all : ∀ n < 16, hexValue? (symbolByte (Text.hexDigit n)) = some n := by decide
  exact all n small

theorem isSymbol_hexDigit {n : Nat} (small : n < 16) : IsSymbol (Text.hexDigit n) := by
  have all : ∀ n < 16, IsSymbol (Text.hexDigit n) := by decide
  exact all n small

/-! ## Pairs of digits -/

/-- One pair of digits, read as a slice of a text. -/
def pairAt (cs : List Char) (offset : Nat) : Except Nat UInt8 :=
  match (Text.slice? cs offset (offset + 2)).bind fun pair => (Text.encode pair).mapM hexValue? with
  | some digits => .ok (UInt8.ofNat (digits.foldl (fun n digit => 16 * n + digit) 0))
  | none => .error offset

/-- Hexadecimal text read in slices of two bytes. -/
def ofSlices (s : String) : Except Nat Bytes :=
  let size := (ofText s).length
  if size % 2 ≠ 0 then .error size else (List.range' 0 (size / 2) 2).mapM (pairAt s.toList)

theorem ofText_eq_encode (s : String) : ofText s = Text.encode s.toList := by
  conv_lhs => rw [← String.ofList_toList (s := s)]
  change (String.ofList s.toList).toByteArray.data.toList = _
  rw [String.toByteArray_ofList, List.utf8Encode, List.toList_data_toByteArray]
  rfl

section Pair

variable {cs : List Char} {offset : Nat} {a b : UInt8} {rest : Bytes}

theorem pairAt_digits (here : (Text.encode cs).drop offset = a :: b :: rest) {high low : Nat}
    (first : hexValue? a = some high) (second : hexValue? b = some low) :
    pairAt cs offset = .ok (UInt8.ofNat (16 * high + low)) := by
  obtain ⟨pair, sliced⟩ := Text.exists_slice here (isHexDigit_of_hexValue first).narrow
    (isHexDigit_of_hexValue second).narrow
  have bytes : Text.encode pair = [a, b] := by
    rw [Text.encode_slice sliced, here, Nat.add_sub_cancel_left]
    rfl
  simp [pairAt, sliced, bytes, first, second]

theorem pairAt_other (here : (Text.encode cs).drop offset = a :: b :: rest)
    (other : hexValue? a = none ∨ hexValue? b = none) : pairAt cs offset = .error offset := by
  cases sliced : Text.slice? cs offset (offset + 2) with
  | none => simp [pairAt, sliced]
  | some pair =>
      have bytes : Text.encode pair = [a, b] := by
        rw [Text.encode_slice sliced, here, Nat.add_sub_cancel_left]
        rfl
      have unread : [a, b].mapM hexValue? = none := by
        obtain none | none := other
        · simp [none]
        · cases first : hexValue? a <;> simp [first, none]
      simp only [pairAt, sliced, Option.bind_some, bytes, unread]

end Pair

/-- Reading bytes and reading slices of the text is the same. -/
theorem ofHexPairs_eq_slices (cs : List Char) (n offset : Nat)
    (size : ((Text.encode cs).drop offset).length = 2 * n) :
    ofHexPairs offset ((Text.encode cs).drop offset) =
      (List.range' offset n 2).mapM (pairAt cs) := by
  induction n generalizing offset with
  | zero =>
      rw [List.length_eq_zero_iff.mp size]
      rfl
  | succ n ih =>
      obtain ⟨a, b, rest, here⟩ : ∃ a b rest, (Text.encode cs).drop offset = a :: b :: rest := by
        cases first : (Text.encode cs).drop offset with
        | nil => simp [first] at size
        | cons a tail => cases tail with
          | nil => simp [first] at size; omega
          | cons b rest => exact ⟨a, b, rest, rfl⟩
      have next : (Text.encode cs).drop (offset + 2) = rest := by
        rw [← List.drop_drop, here]
        rfl
      have later := ih (offset + 2) (by
        rw [here] at size
        rw [next]
        simp only [List.length_cons] at size
        omega)
      rw [next] at later
      rw [List.range'_succ, List.mapM_cons, here, ofHexPairs, later]
      split
      · rename_i first second
        rw [pairAt_digits here first second]
        cases (List.range' (offset + 2) n 2).mapM (pairAt cs) <;> rfl
      · rename_i other
        rw [pairAt_other here ?_]
        · rfl
        · cases first : hexValue? a with
          | none => exact .inl rfl
          | some high => cases second : hexValue? b with
            | none => exact .inr rfl
            | some low => exact absurd second (other high low first)

theorem ofHex_eq_slices (t : String) : ofHex t = ofSlices (Text.trim t) := by
  rw [ofHex, ofSlices]
  split
  · rfl
  · rename_i even
    rw [ofText_eq_encode] at even ⊢
    have pairs := ofHexPairs_eq_slices (Text.trim t).toList
      ((Text.encode (Text.trim t).toList).length / 2) 0
    rw [List.drop_zero] at pairs
    exact pairs (by omega)

/-! ## Texts of digits -/

theorem toNat_lt_of_encode {cs : List Char} (narrow : ∀ byte ∈ Text.encode cs, byte.toNat < 128) :
    ∀ c ∈ cs, c.toNat < 128 := by
  intro c member
  obtain ⟨a, own⟩ : ∃ a, a ∈ String.utf8EncodeChar c :=
    List.exists_mem_of_length_pos (by rw [String.length_utf8EncodeChar]; exact c.utf8Size_pos)
  have whole := Text.utf8EncodeChar_of_mem own
    (narrow a (List.mem_flatMap.mpr ⟨c, member, own⟩))
  have single : c.utf8Size = 1 := by
    rw [← String.length_utf8EncodeChar, whole, List.length_singleton]
  rw [Char.utf8Size_eq_one_iff, UInt32.le_iff_toNat_le] at single
  exact Nat.lt_succ_of_le single

/-- Where all bytes are digits, there is one character a byte. -/
theorem encode_of_digits {cs : List Char} (digits : ∀ byte ∈ Text.encode cs, IsHexDigit byte) :
    Text.encode cs = cs.map symbolByte ∧
      ∀ c ∈ cs, c.toNat < 128 ∧ IsHexDigit (symbolByte c) := by
  have narrow := toNat_lt_of_encode fun byte member => (digits byte member).narrow
  have bytes : Text.encode cs = cs.map symbolByte := by
    rw [← ofText_ofList narrow, ofText_eq_encode, String.toList_ofList]
  refine ⟨bytes, fun c member => ⟨narrow c member, digits _ ?_⟩⟩
  rw [bytes]
  exact List.mem_map_of_mem member

theorem ofHexPairs_of_digits {cs : List Char} (even : cs.length % 2 = 0)
    (digits : ∀ c ∈ cs, c.toNat < 128 ∧ IsHexDigit (symbolByte c)) (offset : Nat) :
    ∃ b, ofHexPairs offset (cs.map symbolByte) = .ok b ∧
      b.flatMap hexPair = cs.map Char.toLower := by
  induction cs using List.twoStepInduction generalizing offset with
  | nil => exact ⟨[], rfl, rfl⟩
  | singleton c => simp at even
  | cons_cons c d rest ih =>
      obtain ⟨⟨narrow, first⟩, ⟨narrow', second⟩, others⟩ :=
        (List.forall_mem_cons.trans (and_congr_right fun _ => List.forall_mem_cons)).mp digits
      obtain ⟨high, value⟩ := exists_hexValue first
      obtain ⟨low, value'⟩ := exists_hexValue second
      obtain ⟨smallHigh, lower⟩ := hexDigit_hexValue narrow value
      obtain ⟨smallLow, lower'⟩ := hexDigit_hexValue narrow' value'
      have fewer : rest.length % 2 = 0 := by
        simp only [List.length_cons] at even
        omega
      obtain ⟨b, later, back⟩ := ih fewer others (offset + 2)
      have byte : (UInt8.ofNat (16 * high + low)).toNat = 16 * high + low :=
        UInt8.toNat_ofNat_of_lt' (by change _ < 256; omega)
      have upper : (16 * high + low) / 16 = high := by omega
      have under : (16 * high + low) % 16 = low := by omega
      refine ⟨UInt8.ofNat (16 * high + low) :: b, ?_, ?_⟩
      · simp only [List.map_cons, ofHexPairs, value, value', later]
        rfl
      · rw [List.flatMap_cons, hexPair, byte, upper, under, lower, lower', back]
        rfl

theorem ofHexPairs_hexPair (b : Bytes) (offset : Nat) :
    ofHexPairs offset ((b.flatMap hexPair).map symbolByte) = .ok b := by
  induction b generalizing offset with
  | nil => rfl
  | cons a rest ih =>
      have bound := a.toNat_lt
      have whole : UInt8.ofNat (16 * (a.toNat / 16) + a.toNat % 16) = a :=
        ofNat_eq (by omega)
      simp only [List.flatMap_cons, hexPair, List.cons_append, List.nil_append, List.map_cons,
        ofHexPairs, hexValue_hexDigit (show a.toNat / 16 < 16 by omega),
        hexValue_hexDigit (show a.toNat % 16 < 16 by omega), whole]
      rw [ih (offset + 2)]
      rfl

/-! ## The first byte that is no digit -/

/-- The index of the first byte that is no digit. -/
def firstOther (bytes : Bytes) : Nat :=
  bytes.findIdx fun byte => ¬ IsHexDigit byte

theorem firstOther_of_not {a : UInt8} (other : ¬ IsHexDigit a) (rest : Bytes) :
    firstOther (a :: rest) = 0 := by
  simp [firstOther, List.findIdx_cons, other]

theorem firstOther_of_isHexDigit {a : UInt8} (digit : IsHexDigit a) (rest : Bytes) :
    firstOther (a :: rest) = firstOther rest + 1 := by
  simp [firstOther, List.findIdx_cons, digit]

theorem ofHexPairs_of_other {bytes : Bytes} (even : bytes.length % 2 = 0)
    (other : ¬ ∀ byte ∈ bytes, IsHexDigit byte) (offset : Nat) :
    ofHexPairs offset bytes = .error (offset + 2 * (firstOther bytes / 2)) := by
  induction bytes using List.twoStepInduction generalizing offset with
  | nil => exact absurd (by simp) other
  | singleton a => simp at even
  | cons_cons a b rest ih =>
      by_cases first : IsHexDigit a
      · obtain ⟨high, value⟩ := exists_hexValue first
        rw [firstOther_of_isHexDigit first]
        by_cases second : IsHexDigit b
        · obtain ⟨low, value'⟩ := exists_hexValue second
          have fewer : rest.length % 2 = 0 := by
            simp only [List.length_cons] at even
            omega
          have later := ih fewer (fun digits => other
            (List.forall_mem_cons.mpr ⟨first, List.forall_mem_cons.mpr ⟨second, digits⟩⟩))
            (offset + 2)
          have place : offset + 2 + 2 * (firstOther rest / 2) =
              offset + 2 * ((firstOther rest + 1 + 1) / 2) := by omega
          rw [ofHexPairs, value, value', later, place, firstOther_of_isHexDigit second]
          rfl
        · simp [ofHexPairs, value, hexValue?_eq_none_iff.mpr second, firstOther_of_not second]
      · simp [ofHexPairs, hexValue?_eq_none_iff.mpr first, firstOther_of_not first]

/-! ## Exactness -/

theorem parseHex_toHex (b : Bytes) : parseHex (toHex b) = .ok b := by
  have symbols : ∀ c ∈ b.flatMap hexPair, IsSymbol c := by
    intro c member
    obtain ⟨a, -, digit⟩ := List.mem_flatMap.mp member
    have bound := a.toNat_lt
    simp only [hexPair, List.mem_cons, List.not_mem_nil, or_false] at digit
    obtain rfl | rfl := digit <;> exact isSymbol_hexDigit (by omega)
  have encoded : ofText (Text.trim (toHex b)) = (b.flatMap hexPair).map symbolByte := by
    rw [toHex, Text.trim_ofList fun c member => (symbols c member).2,
      ofText_ofList fun c member => (symbols c member).1]
  have even : ((b.flatMap hexPair).map symbolByte).length % 2 = 0 := by
    have pairs : (b.map fun a => (hexPair a).length) = b.map fun _ => 2 := rfl
    rw [List.length_map, List.length_flatMap, pairs, List.map_const', List.sum_replicate,
      smul_eq_mul, Nat.mul_mod_left]
  rw [parseHex, ofHex, encoded, if_neg (by rw [even]; decide), ofHexPairs_hexPair]
  rfl

theorem parseHex_of_digits {t : String} (even : (ofText (Text.trim t)).length % 2 = 0)
    (digits : ∀ byte ∈ ofText (Text.trim t), IsHexDigit byte) :
    ∃ b, parseHex t = .ok b ∧ toHex b = (Text.trim t).toLower := by
  rw [ofText_eq_encode] at even digits
  obtain ⟨bytes, chars⟩ := encode_of_digits digits
  rw [bytes, List.length_map] at even
  obtain ⟨b, read, back⟩ := ofHexPairs_of_digits even chars 0
  refine ⟨b, ?_, ?_⟩
  · rw [parseHex, ofHex, ofText_eq_encode, bytes, List.length_map, if_neg (by rw [even]; decide),
      read]
    rfl
  · rw [toHex, back, String.toLower, ← String.toList_map, String.ofList_toList]

theorem parseHex_of_other {t : String} (even : (ofText (Text.trim t)).length % 2 = 0)
    (other : ¬ ∀ byte ∈ ofText (Text.trim t), IsHexDigit byte) :
    parseHex t = .error (.hex (2 * (firstOther (ofText (Text.trim t)) / 2))) := by
  rw [parseHex, ofHex, if_neg (by rw [even]; decide), ofHexPairs_of_other even other, Nat.zero_add]
  rfl

theorem parseHex_of_odd {t : String} (odd : (ofText (Text.trim t)).length % 2 ≠ 0) :
    parseHex t = .error (.hex (ofText (Text.trim t)).length) := by
  rw [parseHex, ofHex, if_pos odd]
  rfl

/-- **Hexadecimal text is read exactly.** Every byte sequence is read back. Of a text without the
blanks at its ends: it is read as by slices, none of which may cut a character; it is taken if and
only if it has an even number of bytes that are all digits, and written it is the same text in lower
case; it fails at its end if the number of bytes is odd, and otherwise at the pair that holds the
first byte that is no digit. -/
theorem parseHex_exact :
    (∀ b : Bytes, parseHex (toHex b) = .ok b) ∧
    ∀ t : String,
      ofHex t = ofSlices (Text.trim t) ∧
      ((∃ b, parseHex t = .ok b) ↔ (ofText (Text.trim t)).length % 2 = 0 ∧
        ∀ byte ∈ ofText (Text.trim t), IsHexDigit byte) ∧
      (∀ b, parseHex t = .ok b → toHex b = (Text.trim t).toLower) ∧
      ((ofText (Text.trim t)).length % 2 ≠ 0 →
        parseHex t = .error (.hex (ofText (Text.trim t)).length)) ∧
      ((ofText (Text.trim t)).length % 2 = 0 →
        (¬ ∀ byte ∈ ofText (Text.trim t), IsHexDigit byte) →
        parseHex t = .error (.hex (2 * (firstOther (ofText (Text.trim t)) / 2)))) := by
  refine ⟨parseHex_toHex, fun t => ?_⟩
  have taken : (∃ b, parseHex t = .ok b) → (ofText (Text.trim t)).length % 2 = 0 ∧
      ∀ byte ∈ ofText (Text.trim t), IsHexDigit byte := by
    rintro ⟨b, read⟩
    by_cases even : (ofText (Text.trim t)).length % 2 = 0
    · refine ⟨even, ?_⟩
      by_contra other
      rw [parseHex_of_other even other] at read
      cases read
    · rw [parseHex_of_odd even] at read
      cases read
  refine ⟨ofHex_eq_slices t, ⟨taken, fun ⟨even, digits⟩ => ?_⟩, fun b read => ?_, parseHex_of_odd,
    parseHex_of_other⟩
  · obtain ⟨b, read, -⟩ := parseHex_of_digits even digits
    exact ⟨b, read⟩
  · obtain ⟨even, digits⟩ := taken ⟨b, read⟩
    obtain ⟨b', read', lower⟩ := parseHex_of_digits even digits
    rw [read] at read'
    cases read'
    exact lower

/-- A letter of two bytes that two pairs would share, a text of odd length, and capital digits
between blanks. -/
theorem parseHex_exact_straddling :
    parseHex "00aéa" = .error (.hex 2) ∧ parseHex " 0é\n" = .error (.hex 3) ∧
      ∃ b, parseHex " 00FF\t" = .ok b ∧ toHex b = "00ff" := by
  obtain ⟨-, all⟩ := parseHex_exact
  obtain ⟨-, -, -, -, first⟩ := all "00aéa"
  obtain ⟨-, -, -, odd, -⟩ := all " 0é\n"
  obtain ⟨-, taken, lower, -, -⟩ := all " 00FF\t"
  have shared : ofText (Text.trim "00aéa") = [48, 48, 97, 195, 169, 97] := by cbv
  have three : ofText (Text.trim " 0é\n") = [48, 195, 169] := by cbv
  have capitals : ofText (Text.trim " 00FF\t") = [48, 48, 70, 70] := by cbv
  have small : (Text.trim " 00FF\t").toLower = "00ff" := by cbv
  rw [shared] at first
  rw [three] at odd
  rw [capitals] at taken
  have place : firstOther [48, 48, 97, 195, 169, 97] = 3 := by decide +kernel
  rw [place] at first
  obtain ⟨b, read⟩ := taken.mpr (by decide +kernel)
  have written : toHex b = "00ff" := (lower b read).trans small
  have sized : parseHex " 0é\n" = .error (.hex 3) := odd (by decide)
  have failed : parseHex "00aéa" = .error (.hex 2) := first (by decide) (by decide +kernel)
  exact ⟨failed, sized, b, read, written⟩

end Bytes

end TreeQuery
