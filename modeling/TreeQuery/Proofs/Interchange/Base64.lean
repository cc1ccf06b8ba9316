import Mathlib
import TreeQuery.Bytes.Parsing

/-!
# Base64 text reads back

Reading the base64 text of any bytes gives these bytes (`Bytes.parseBase64_toBase64`). Each symbol is
one byte of text and stands for its group of six bits; four symbols hold three bytes, and what one
or two bytes at the end leave unused is zero.
-/

set_option autoImplicit false

namespace TreeQuery

/-! ## Symbols as text -/

/-- A character that is one byte of text and no blank. -/
abbrev Bytes.IsSymbol (c : Char) : Prop :=
  c.toNat < 128 ∧ Text.isBlank c = false

/-- Text without blanks has nothing to trim. -/
theorem Text.trim_ofList {cs : List Char} (solid : ∀ c ∈ cs, Text.isBlank c = false) :
    Text.trim (String.ofList cs) = String.ofList cs := by
  have front : ∀ {ds : List Char}, (∀ c ∈ ds, Text.isBlank c = false) →
      ds.dropWhile Text.isBlank = ds := by
    intro ds all
    cases ds with
    | nil => rfl
    | cons c rest => rw [List.dropWhile_cons_of_neg (by simp [all c (List.mem_cons_self ..)])]
  have back : ∀ c ∈ cs.reverse, Text.isBlank c = false := fun c member =>
    solid c (List.mem_reverse.mp member)
  rw [Text.trim, Text.trimChars, String.toList_ofList, front solid, front back, List.reverse_reverse]

namespace Bytes

/-- The byte that encodes a symbol. -/
def symbolByte (c : Char) : UInt8 :=
  UInt8.ofNat c.toNat

theorem utf8EncodeChar_of_lt {c : Char} (narrow : c.toNat < 128) :
    String.utf8EncodeChar c = [symbolByte c] := by
  have single : c.utf8Size = 1 := by
    rw [Char.utf8Size_eq_one_iff, UInt32.le_iff_toNat_le]
    exact Nat.le_of_lt_succ narrow
  rw [String.utf8EncodeChar_eq_singleton single]
  rfl

/-- Text of one byte a character is encoded character by character. -/
theorem ofText_ofList {cs : List Char} (narrow : ∀ c ∈ cs, c.toNat < 128) :
    ofText (String.ofList cs) = cs.map symbolByte := by
  have encoded : cs.flatMap String.utf8EncodeChar = cs.map symbolByte := by
    rw [← List.flatMap_singleton' (cs.map symbolByte), List.flatMap_map]
    exact List.flatMap_congr fun c member => utf8EncodeChar_of_lt (narrow c member)
  change (String.ofList cs).toByteArray.data.toList = _
  rw [String.toByteArray_ofList, List.utf8Encode, List.toList_data_toByteArray, encoded]

theorem groupOf?_symbol {n : Nat} (group : n < 64) :
    groupOf? (symbolByte (symbolOf n)) = some n := by
  have all : ∀ n < 64, groupOf? (symbolByte (symbolOf n)) = some n := by decide
  exact all n group

theorem symbol_ne_pad {n : Nat} (group : n < 64) : symbolByte (symbolOf n) ≠ pad := by
  have all : ∀ n < 64, symbolByte (symbolOf n) ≠ pad := by decide
  exact all n group

theorem isSymbol_symbolOf (n : Nat) : IsSymbol (symbolOf n) := by
  have all : ∀ n < 64, IsSymbol (symbolOf n) := by decide
  by_cases group : n < 64
  · exact all n group
  · have other : symbolOf n = '/' := by
      simp only [symbolOf]
      rw [if_neg (by omega), if_neg (by omega), if_neg (by omega), if_neg (by omega)]
    rw [other]
    decide

theorem isSymbol_base64Chars (b : Bytes) : ∀ c ∈ base64Chars b, IsSymbol c := by
  have pads : IsSymbol '=' := by decide
  intro c
  induction b using base64Chars.induct with
  | case1 => simp [base64Chars]
  | case2 a | case3 a b =>
      simp only [base64Chars, List.mem_cons, List.not_mem_nil, or_false]
      rintro (rfl | rfl | rfl | rfl) <;> first | exact pads | exact isSymbol_symbolOf _
  | case4 a b d rest ih =>
      simp only [base64Chars, List.mem_cons]
      rintro (rfl | rfl | rfl | rfl | later)
      case inr.inr.inr.inr => exact ih later
      all_goals exact isSymbol_symbolOf _

/-! ## Groups of bytes -/

theorem ofNat_eq {n : Nat} {a : UInt8} (low : n % 256 = a.toNat) : UInt8.ofNat n = a := by
  apply UInt8.toNat_inj.mp
  rw [UInt8.toNat_ofNat']
  exact low

theorem base64Chars_ne_nil {b : Bytes} (some : b ≠ []) : base64Chars b ≠ [] := by
  cases b using base64Chars.fun_cases with
  | case1 => exact absurd rfl some
  | case2 | case3 | case4 => simp [base64Chars]

/-- The groups of symbols, with no pad among them. -/
theorem lastGroups_symbols (start position : Nat) (groups : List Nat) (small : ∀ g ∈ groups, g < 64)
    (pads : Bytes) {count : Nat}
    (padding : lastGroups start (position + groups.length) none pads = .ok ([], count)) :
    lastGroups start position none (groups.map (fun g => symbolByte (symbolOf g)) ++ pads) =
      .ok (groups.map (fun g => (symbolByte (symbolOf g), g)), count) := by
  induction groups generalizing position with
  | nil => exact padding
  | cons g rest ih =>
      have here := small g (List.mem_cons_self ..)
      have later := ih (position + 1) (fun g member => small g (List.mem_cons_of_mem _ member))
        (by rw [← padding]; congr 1; simp only [List.length_cons]; omega)
      simp only [List.map_cons, List.cons_append, lastGroups, if_neg (symbol_ne_pad here),
        groupOf?_symbol here, later]
      rfl

/-- The number that groups of six bits make. -/
def joinGroups (groups : List Nat) : Nat :=
  groups.foldl (fun n g => 64 * n + g) 0

/-- A last quad gives the whole bytes of its groups, if the bits beyond them are zero. -/
theorem ofLastQuad_symbols (start : Nat) (groups : List Nat) (pads : Bytes)
    {length count size unused : Nat}
    (shape : 2 ≤ length ∧ (length + count) % 4 = 0 ∧ 6 * length / 8 = size ∧
      6 * length % 8 = unused)
    (isLength : groups.length = length) (small : ∀ g ∈ groups, g < 64)
    (padding : lastGroups start length none pads = .ok ([], count))
    (zero : joinGroups groups % twoTo unused = 0) :
    ofLastQuad start (groups.map (fun g => symbolByte (symbolOf g)) ++ pads) =
      .ok ((List.range size).map fun i =>
        UInt8.ofNat (joinGroups groups / twoTo unused / twoTo (8 * (size - 1 - i)))) := by
  obtain ⟨enough, full, whole, left⟩ := shape
  have read := lastGroups_symbols start 0 groups small pads
    (by rw [Nat.zero_add, isLength]; exact padding)
  have joined : (groups.map fun g => (symbolByte (symbolOf g), g)).foldl
      (fun n g => 64 * n + g.2) 0 = joinGroups groups := by
    rw [List.foldl_map]
    rfl
  simp only [ofLastQuad, read]
  change (if (groups.map fun g => (symbolByte (symbolOf g), g)).length < 2 then _ else _) = _
  simp only [List.length_map, isLength, joined, whole, left]
  rw [if_neg (by omega), if_neg (by omega), if_neg (by omega)]

theorem ofLastQuad_one (start : Nat) (a : UInt8) :
    ofLastQuad start ((base64Chars [a]).map symbolByte) = .ok [a] := by
  have bound := a.toNat_lt
  obtain ⟨n, value⟩ : ∃ n, a.toNat * 16 = n := ⟨_, rfl⟩
  have joined : joinGroups [n / 64, n % 64] = n := by
    simp only [joinGroups, List.foldl_cons, List.foldl_nil]
    omega
  have read := ofLastQuad_symbols start [n / 64, n % 64] [pad, pad]
    (show 2 ≤ 2 ∧ (2 + 2) % 4 = 0 ∧ 6 * 2 / 8 = 1 ∧ 6 * 2 % 8 = 4 by decide) rfl (by simp; omega) rfl
    (by rw [joined]; change n % 16 = 0; omega)
  rw [joined] at read
  have first : UInt8.ofNat (n / 16 / 1) = a := ofNat_eq (by omega)
  simp only [base64Chars, value]
  refine read.trans ?_
  change Except.ok [UInt8.ofNat (n / 16 / 1)] = _
  rw [first]

theorem ofLastQuad_two (start : Nat) (a b : UInt8) :
    ofLastQuad start ((base64Chars [a, b]).map symbolByte) = .ok [a, b] := by
  have boundA := a.toNat_lt
  have boundB := b.toNat_lt
  obtain ⟨n, value⟩ : ∃ n, (a.toNat * 256 + b.toNat) * 4 = n := ⟨_, rfl⟩
  have joined : joinGroups [n / 4096, n / 64 % 64, n % 64] = n := by
    simp only [joinGroups, List.foldl_cons, List.foldl_nil]
    omega
  have read := ofLastQuad_symbols start [n / 4096, n / 64 % 64, n % 64] [pad]
    (show 2 ≤ 3 ∧ (3 + 1) % 4 = 0 ∧ 6 * 3 / 8 = 2 ∧ 6 * 3 % 8 = 2 by decide) rfl (by simp; omega) rfl
    (by rw [joined]; change n % 4 = 0; omega)
  rw [joined] at read
  have first : UInt8.ofNat (n / 4 / 256) = a := ofNat_eq (by omega)
  have second : UInt8.ofNat (n / 4 / 1) = b := ofNat_eq (by omega)
  simp only [base64Chars, value]
  refine read.trans ?_
  change Except.ok [UInt8.ofNat (n / 4 / 256), UInt8.ofNat (n / 4 / 1)] = _
  rw [first, second]

/-- The groups of three bytes. -/
theorem joinGroups_three (n : Nat) (bound : n < 16777216) :
    joinGroups [n / 262144, n / 4096 % 64, n / 64 % 64, n % 64] = n := by
  simp only [joinGroups, List.foldl_cons, List.foldl_nil]
  omega

theorem ofLastQuad_three (start : Nat) (a b c : UInt8) :
    ofLastQuad start ((base64Chars [a, b, c]).map symbolByte) = .ok [a, b, c] := by
  have boundA := a.toNat_lt
  have boundB := b.toNat_lt
  have boundC := c.toNat_lt
  obtain ⟨n, value⟩ : ∃ n, (a.toNat * 256 + b.toNat) * 256 + c.toNat = n := ⟨_, rfl⟩
  have joined := joinGroups_three n (by omega)
  have read := ofLastQuad_symbols start [n / 262144, n / 4096 % 64, n / 64 % 64, n % 64] []
    (show 2 ≤ 4 ∧ (4 + 0) % 4 = 0 ∧ 6 * 4 / 8 = 3 ∧ 6 * 4 % 8 = 0 by decide) rfl (by simp; omega) rfl
    (by rw [joined]; change n % 1 = 0; omega)
  rw [joined] at read
  have first : UInt8.ofNat (n / 1 / 65536) = a := ofNat_eq (by omega)
  have second : UInt8.ofNat (n / 1 / 256) = b := ofNat_eq (by omega)
  have third : UInt8.ofNat (n / 1 / 1) = c := ofNat_eq (by omega)
  simp only [base64Chars, value]
  refine read.trans ?_
  change Except.ok [UInt8.ofNat (n / 1 / 65536), UInt8.ofNat (n / 1 / 256),
    UInt8.ofNat (n / 1 / 1)] = _
  rw [first, second, third]

/-- Symbols that more of them follow are read four at a time. -/
theorem ofQuads_base64Chars (start : Nat) (b : Bytes) :
    ofQuads start ((base64Chars b).map symbolByte) = .ok b := by
  induction b using base64Chars.induct generalizing start with
  | case1 => rfl
  | case2 a => exact ofLastQuad_one start a
  | case3 a b => exact ofLastQuad_two start a b
  | case4 a b c rest ih =>
      cases rest with
      | nil => exact ofLastQuad_three start a b c
      | cons d further =>
          have boundA := a.toNat_lt
          have boundB := b.toNat_lt
          have boundC := c.toNat_lt
          obtain ⟨e, others, later⟩ : ∃ e others,
              (base64Chars (d :: further)).map symbolByte = e :: others := by
            cases symbols : base64Chars (d :: further) with
            | nil => exact absurd symbols (base64Chars_ne_nil (by simp))
            | cons e others => exact ⟨_, _, rfl⟩
          obtain ⟨n, value⟩ : ∃ n, (a.toNat * 256 + b.toNat) * 256 + c.toNat = n := ⟨_, rfl⟩
          have quad : ofQuad start (symbolByte (symbolOf (n / 262144)))
              (symbolByte (symbolOf (n / 4096 % 64))) (symbolByte (symbolOf (n / 64 % 64)))
              (symbolByte (symbolOf (n % 64))) = .ok n := by
            have groups : ((n / 262144 * 64 + n / 4096 % 64) * 64 + n / 64 % 64) * 64 + n % 64 = n := by
              omega
            rw [ofQuad, groupOf?_symbol (by omega), groupOf?_symbol (by omega),
              groupOf?_symbol (by omega), groupOf?_symbol (by omega)]
            exact congrArg Except.ok groups
          have first : UInt8.ofNat (n / 65536) = a := ofNat_eq (by omega)
          have second : UInt8.ofNat (n / 256) = b := ofNat_eq (by omega)
          have third : UInt8.ofNat n = c := ofNat_eq (by omega)
          have tail := ih (start + 4)
          rw [later] at tail
          simp only [base64Chars, value, List.map_cons, later, ofQuads, quad, tail]
          change Except.ok (UInt8.ofNat (n / 65536) :: UInt8.ofNat (n / 256) :: UInt8.ofNat n ::
            d :: further) = _
          rw [first, second, third]

theorem length_base64Chars (b : Bytes) : (base64Chars b).length % 4 = 0 := by
  induction b using base64Chars.induct with
  | case1 | case2 | case3 => simp [base64Chars]
  | case4 a b c rest ih =>
      simp only [base64Chars, List.length_cons]
      omega

/-- **What is written as base64 reads back.** -/
theorem parseBase64_toBase64 (b : Bytes) : parseBase64 (toBase64 b) = .ok b := by
  have symbols := isSymbol_base64Chars b
  have encoded : ofText (Text.trim (toBase64 b)) = (base64Chars b).map symbolByte := by
    rw [toBase64, Text.trim_ofList fun c member => (symbols c member).2,
      ofText_ofList fun c member => (symbols c member).1]
  have read : ofBase64 (toBase64 b) = .ok b := by
    have length : ((base64Chars b).map symbolByte).length % 4 ≠ 1 := by
      rw [List.length_map, length_base64Chars]
      decide
    simp only [ofBase64, encoded]
    split
    · rename_i none
      have empty := List.map_eq_nil_iff.mp (List.getLast?_eq_none_iff.mp none)
      by_cases nothing : b = []
      · rw [nothing]
      · exact absurd empty (base64Chars_ne_nil nothing)
    · rw [if_neg fun lone => length lone.1]
      exact ofQuads_base64Chars 0 b
  rw [parseBase64, read]
  rfl

end Bytes

end TreeQuery
