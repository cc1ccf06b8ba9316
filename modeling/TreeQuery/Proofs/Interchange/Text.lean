import Mathlib
import TreeQuery.Json.Reader

/-!
# JSON text reads back

Reading the compact text of a tree gives the tree, whatever follows (`Json.readValue_chars`), if its
numbers are whole and of 64 bits and no more containers stand inside each other than the reader
takes. What follows a number has to end it; a comma, a closing bracket and the end of the text do.
-/

set_option autoImplicit false

namespace TreeQuery.Json

/-! ## Quoted text -/

-- An alias makes the equations of a definition at once. The proofs below run side by side, and would
-- otherwise all wait for the first of them to do so.
alias readText_close := readText.eq_2

theorem readText_letter {l c : Char} (notHex : l ≠ 'u') (stands : escaped? l = some c)
    (tail : List Char) :
    readText ('\\' :: l :: tail) = (readText tail).map (Prod.map (c :: ·) id) := by
  have other : ∀ (a b c d : Char) (rest : List Char), l = 'u' → tail = a :: b :: c :: d :: rest →
      False := fun _ _ _ _ _ hex _ => notHex hex
  rw [readText.eq_4 l tail other, stands]
  rfl

theorem readText_hex {a b c d : Char} {n : Nat} (reads : hex4? a b c d = some n)
    (low : n < 0xD800) (tail : List Char) :
    readText ('\\' :: 'u' :: a :: b :: c :: d :: tail) =
      (readText tail).map (Prod.map (Char.ofNat n :: ·) id) := by
  have high : isHighSurrogate n = false := by
    simp only [isHighSurrogate, Bool.and_eq_false_iff, decide_eq_false_iff_not]
    omega
  have lower : isLowSurrogate n = false := by
    simp only [isLowSurrogate, Bool.and_eq_false_iff, decide_eq_false_iff_not]
    omega
  rw [readText.eq_3, reads]
  simp only [high, lower, Bool.false_eq_true, if_false]
  rfl

theorem readText_plain {c : Char} (quote : c ≠ '"') (backslash : c ≠ '\\')
    (printed : 32 ≤ c.toNat) (tail : List Char) :
    readText (c :: tail) = (readText tail).map (Prod.map (c :: ·) id) := by
  have accepted : ¬ (c = '\\' ∨ c.toNat < 32) := by
    rintro (same | control)
    · exact backslash same
    · omega
  rw [readText.eq_5 c tail quote (fun _ _ _ _ _ same _ => backslash same)
    (fun _ _ same _ => backslash same), if_neg accepted]
  rfl

/-- The reader takes the letters of the style for the characters that they stand for. -/
def Readable (style : Text.QuoteStyle) : Prop :=
  ∀ c l, style.letter c = some l → l ≠ 'u' ∧ escaped? l = some c

theorem readable_interchange : Readable .interchange := by
  intro c l named
  simp only [Text.QuoteStyle.interchange] at named
  split at named <;> cases named <;> decide

theorem readable_display : Readable .display := by
  intro c l named
  simp only [Text.QuoteStyle.display] at named
  split at named <;> cases named <;> decide

theorem hex4?_hex4 {n : Nat} (control : n < 32) :
    ∃ a b c d, Text.hex4 n = [a, b, c, d] ∧ hex4? a b c d = some n := by
  refine ⟨_, _, _, _, rfl, ?_⟩
  have all : ∀ n < 32, hex4? (Text.hexDigit (n / 4096 % 16)) (Text.hexDigit (n / 256 % 16))
      (Text.hexDigit (n / 16 % 16)) (Text.hexDigit (n % 16)) = some n := by decide
  exact all n control

section Escapes

variable {style : Text.QuoteStyle} (readable : Readable style)

include readable

/-- A character reads back from its escape. -/
theorem readText_escapeChar (c : Char) (tail : List Char) :
    readText (Text.escapeChar style c ++ tail) = (readText tail).map (Prod.map (c :: ·) id) := by
  by_cases quote : c = '"'
  · subst quote
    exact readText_letter (by decide) rfl tail
  by_cases backslash : c = '\\'
  · subst backslash
    exact readText_letter (by decide) rfl tail
  simp only [Text.escapeChar, quote, backslash, if_false]
  cases named : style.letter c with
  | some l =>
      obtain ⟨notHex, stands⟩ := readable c l named
      exact readText_letter notHex stands tail
  | none =>
      by_cases control : c.toNat < 32
      · obtain ⟨x, y, z, w, digits, reads⟩ := hex4?_hex4 control
        simp only [control, if_true, digits]
        have read := readText_hex reads (by omega) tail
        rw [Char.ofNat_toNat] at read
        exact read
      · simp only [control, if_false]
        exact readText_plain quote backslash (by omega) tail

theorem readText_escape (cs rest : List Char) :
    readText (Text.escape style cs ++ '"' :: rest) = some (cs, rest) := by
  induction cs with
  | nil => exact readText_close rest
  | cons c cs ih =>
      have split : Text.escape style (c :: cs) ++ '"' :: rest =
          Text.escapeChar style c ++ (Text.escape style cs ++ '"' :: rest) := by
        simp only [Text.escape, List.flatMap_cons, List.append_assoc]
      rw [split, readText_escapeChar readable, ih]
      rfl

end Escapes

/-- A quoted text, its quotes included, reads back. -/
theorem readQuoted_textChars (s : String) (rest : List Char) :
    readQuoted (textChars s ++ rest) = some (s, rest) := by
  have shape : textChars s ++ rest =
      '"' :: (Text.escape .interchange s.toList ++ '"' :: rest) := by
    simp [textChars]
  rw [shape, readQuoted, readText_escape readable_interchange]
  simp only [Option.map_some, String.ofList_toList]

/-! ## Numbers -/

/-- A text that ends a number in front of it. -/
def EndsNumber (rest : List Char) : Prop :=
  ∀ c ∈ rest.head?, c.isDigit = false ∧ c ≠ '.' ∧ c ≠ 'e' ∧ c ≠ 'E'

theorem isDigit_digitText {n : Nat} {c : Char} (member : c ∈ Decimal.digitText n) :
    c.isDigit = true :=
  Nat.isDigit_of_mem_toDigits (by decide) (by decide) member

theorem digitsValue_digitText (n : Nat) : Decimal.digitsValue (Decimal.digitText n) = n :=
  Nat.ofDigitChars_ten_toDigits

/-- Digits do not start with a zero, unless they are those of zero. -/
theorem digitText_cons {n : Nat} (positive : 0 < n) :
    ∃ c cs, Decimal.digitText n = c :: cs ∧ c ≠ '0' := by
  induction n using Nat.strongRecOn with
  | ind n ih =>
      by_cases small : n < 10
      · have first : ∀ n < 10, 0 < n → n.digitChar ≠ '0' := by decide
        exact ⟨n.digitChar, [], Nat.toDigits_of_lt_base small, first n small positive⟩
      · obtain ⟨c, cs, digits, nonzero⟩ := ih (n / 10) (by omega) (by omega)
        refine ⟨c, cs ++ [(n % 10).digitChar], ?_, nonzero⟩
        have whole : Decimal.digitText n = Decimal.digitText (n / 10) ++ [(n % 10).digitChar] :=
          Nat.toDigits_of_base_le (by decide) (by omega)
        rw [whole, digits, List.cons_append]

/-- Characters of a kind are taken up to the first one that is not of it. -/
theorem span_append {kind : Char → Bool} {cs rest : List Char} (all : ∀ c ∈ cs, kind c = true)
    (ends : ∀ c ∈ rest.head?, kind c = false) :
    (cs ++ rest).takeWhile kind = cs ∧ (cs ++ rest).dropWhile kind = rest := by
  rw [List.takeWhile_append_of_pos all, List.dropWhile_append_of_pos all]
  cases rest with
  | nil => simp
  | cons c rest => simp [ends c rfl]

theorem span_digits {ds rest : List Char} (digits : ∀ c ∈ ds, c.isDigit = true)
    (ends : ∀ c ∈ rest.head?, c.isDigit = false) :
    (ds ++ rest).takeWhile Char.isDigit = ds ∧ (ds ++ rest).dropWhile Char.isDigit = rest :=
  span_append digits ends

/-- A whole part is read up to the first character that is no digit. -/
theorem readWhole_digits {c : Char} {cs rest : List Char} (first : c ≠ '0' ∨ cs = [])
    (digits : ∀ d ∈ c :: cs, d.isDigit = true) (ends : ∀ d ∈ rest.head?, d.isDigit = false) :
    readWhole (c :: cs ++ rest) = some (c :: cs, rest) := by
  obtain ⟨taken, dropped⟩ := span_digits digits ends
  simp only [readWhole, taken, dropped]
  split
  · rename_i empty
    cases empty
  · rfl
  · rename_i lone shape
    cases shape
    refine if_neg ?_
    rintro rfl
    rcases first with nonzero | rfl
    · exact nonzero rfl
    · exact lone rfl rfl

theorem readWhole_digitText (n : Nat) {rest : List Char} (ends : EndsNumber rest) :
    readWhole (Decimal.digitText n ++ rest) = some (Decimal.digitText n, rest) := by
  have digits : ∀ c ∈ Decimal.digitText n, c.isDigit = true := fun c => isDigit_digitText
  have ended : ∀ c ∈ rest.head?, c.isDigit = false := fun c member => (ends c member).1
  rcases Nat.eq_zero_or_pos n with rfl | positive
  · exact readWhole_digits (.inr rfl) digits ended
  · obtain ⟨c, cs, shape, nonzero⟩ := digitText_cons positive
    rw [shape] at digits ⊢
    exact readWhole_digits (.inl nonzero) digits ended

/-- Neither a point nor a power follows. -/
theorem EndsNumber.plain {rest : List Char} (ends : EndsNumber rest) :
    readFraction rest = some ([], rest) ∧ readExponent rest = some (none, rest) := by
  cases rest with
  | nil => exact ⟨rfl, rfl⟩
  | cons c rest =>
      obtain ⟨-, point, small, large⟩ := ends c rfl
      refine ⟨?_, ?_⟩
      · unfold readFraction
        split
        · rename_i shape
          cases shape
          exact absurd rfl point
        · rfl
      · simp only [readExponent, small, large, or_self, if_false]

theorem readNumber_digitText {negative : Bool} {n : Nat} {v : Int}
    (fits : wholeOf? negative n = some v) {rest : List Char} (ends : EndsNumber rest) :
    readNumber negative (Decimal.digitText n ++ rest) = some (.integer v, rest) := by
  obtain ⟨fraction, power⟩ := ends.plain
  simp only [readNumber, readWhole_digitText n ends, fraction, power, digitsValue_digitText, fits,
    Option.bind_eq_bind, Option.bind_some]

/-! ## Containers -/

theorem skipBlank_cons {c : Char} (solid : isBlank c = false) (tail : List Char) :
    skipBlank (c :: tail) = c :: tail :=
  List.dropWhile_cons_of_neg (by simp [solid])

theorem EndsNumber.nil : EndsNumber [] := by
  rintro c ⟨⟩

theorem EndsNumber.of_cons {c : Char} (mark : c = ',' ∨ c = ']' ∨ c = '\x7d')
    (rest : List Char) : EndsNumber (c :: rest) := by
  rintro d ⟨⟩
  rcases mark with rfl | rfl | rfl <;> decide

theorem length_le_joined (separator : List Char) {pieces : List (List Char)}
    (solid : ∀ piece ∈ pieces, piece ≠ []) : pieces.length ≤ (joined separator pieces).length := by
  induction pieces using joined.induct with
  | case1 => simp
  | case2 piece =>
      have positive := List.length_pos_iff.mpr (solid piece (List.mem_singleton_self piece))
      exact positive
  | case3 piece rest more ih =>
      have positive := List.length_pos_iff.mpr (solid piece (List.mem_cons_self ..))
      have others := ih fun piece member => solid piece (List.mem_cons_of_mem _ member)
      rw [joined.eq_3 _ _ _ more]
      simp only [List.length_cons, List.length_append]
      omega

theorem joined_cons (separator : List Char) (c : Char) (cs : List Char)
    (pieces : List (List Char)) : ∃ tail, joined separator ((c :: cs) :: pieces) = c :: tail := by
  cases pieces with
  | nil => exact ⟨cs, rfl⟩
  | cons piece pieces => exact ⟨_, rfl⟩

/-- Elements with commas between them are read one by one, until one of them cannot be read. -/
theorem readItems_joined {α β : Type} (one : Reader β) (write : α → List Char)
    (reads : α → Option β) {items : List α} (present : items ≠ [])
    (each : ∀ a ∈ items, ∀ rest, EndsNumber rest →
      one (write a ++ rest) = (reads a).map (·, rest))
    (fuel : Nat) (enough : items.length ≤ fuel) (rest : List Char) :
    readItems one fuel (joined [','] (items.map write) ++ ']' :: rest) =
      (items.mapM reads).map (·, rest) := by
  induction items generalizing fuel with
  | nil => exact absurd rfl present
  | cons a items ih =>
      obtain ⟨fuel, rfl⟩ : ∃ more, fuel = more + 1 := ⟨fuel - 1, by simp at enough; omega⟩
      have first := each a (List.mem_cons_self ..)
      cases items with
      | nil =>
          have read := first (']' :: rest) (.of_cons (.inr (.inl rfl)) rest)
          simp only [List.map_cons, List.map_nil, joined, readItems, read, List.mapM_cons]
          cases reads a with
          | none => rfl
          | some b =>
              simp only [Option.map_some, Option.bind_eq_bind, Option.bind_some,
                skipBlank_cons (show isBlank ']' = false by decide)]
              rfl
      | cons b items =>
          have others := ih (by simp) (fun a member => each a (List.mem_cons_of_mem _ member)) fuel
            (by simp at enough ⊢; omega)
          have read := first (',' :: (joined [','] ((b :: items).map write) ++ ']' :: rest))
            (.of_cons (.inl rfl) _)
          have shape : joined [','] ((a :: b :: items).map write) ++ ']' :: rest =
              write a ++ ',' :: (joined [','] ((b :: items).map write) ++ ']' :: rest) := by
            simp [joined]
          rw [shape, List.mapM_cons]
          simp only [readItems, read]
          cases reads a with
          | none => rfl
          | some v =>
              simp only [Option.map_some, Option.bind_eq_bind, Option.bind_some, others,
                skipBlank_cons (show isBlank ',' = false by decide)]
              cases (b :: items).mapM reads <;> rfl

/-- How a member of an object is written. -/
def memberText (member : String × Json) : List Char :=
  textChars member.1 ++ ':' :: chars member.2

theorem memberText_append (member : String × Json) (rest : List Char) :
    ∃ tail, memberText member ++ rest = '"' :: tail ∧
      readQuoted ('"' :: tail) = some (member.1, ':' :: (chars member.2 ++ rest)) := by
  have whole : memberText member ++ rest = textChars member.1 ++ ':' :: (chars member.2 ++ rest) := by
    simp [memberText]
  refine ⟨_, rfl, ?_⟩
  change readQuoted (memberText member ++ rest) = _
  rw [whole]
  exact readQuoted_textChars member.1 _

/-- What becomes of a member whose value is read. -/
def readMember (reads : Json → Option Json) (member : String × Json) : Option (String × Json) :=
  (reads member.2).map (member.1, ·)

/-- Members with commas between them are read one by one, until the value of one cannot be read. -/
theorem readMembers_joined {one : Reader Json} (reads : Json → Option Json)
    {members : List (String × Json)} (present : members ≠ [])
    (each : ∀ m ∈ members, ∀ rest, EndsNumber rest →
      one (chars m.2 ++ rest) = (reads m.2).map (·, rest))
    (fuel : Nat) (enough : members.length ≤ fuel) (rest : List Char) :
    readMembers readQuoted (fun _ => one) fuel
      (joined [','] (members.map memberText) ++ '\x7d' :: rest) =
      (members.mapM (readMember reads)).map (·, rest) := by
  induction members generalizing fuel with
  | nil => exact absurd rfl present
  | cons member members ih =>
      obtain ⟨fuel, rfl⟩ : ∃ more, fuel = more + 1 := ⟨fuel - 1, by simp at enough; omega⟩
      have first := each member (List.mem_cons_self ..)
      cases members with
      | nil =>
          obtain ⟨tail, shape, key⟩ := memberText_append member ('\x7d' :: rest)
          have value := first ('\x7d' :: rest) (.of_cons (.inr (.inr rfl)) rest)
          simp only [List.map_cons, List.map_nil, joined, shape, readMembers, key, value,
            Option.bind_eq_bind, Option.bind_some, List.mapM_cons, readMember,
            skipBlank_cons (show isBlank ':' = false by decide)]
          cases reads member.2 with
          | none => rfl
          | some v =>
              simp only [Option.map_some, Option.bind_some,
                skipBlank_cons (show isBlank '\x7d' = false by decide)]
              rfl
      | cons next members =>
          have others := ih (by simp) (fun a member => each a (List.mem_cons_of_mem _ member)) fuel
            (by simp at enough ⊢; omega)
          obtain ⟨tail, shape, key⟩ := memberText_append member
            (',' :: (joined [','] ((next :: members).map memberText) ++ '\x7d' :: rest))
          have value := first (',' :: (joined [','] ((next :: members).map memberText) ++
            '\x7d' :: rest)) (.of_cons (.inl rfl) _)
          have whole : joined [','] ((member :: next :: members).map memberText) ++ '\x7d' :: rest =
              memberText member ++
                ',' :: (joined [','] ((next :: members).map memberText) ++ '\x7d' :: rest) := by
            simp [joined]
          obtain ⟨further, starts⟩ : ∃ tail, joined [','] ((next :: members).map memberText) =
              '"' :: tail := joined_cons [','] '"' _ (members.map memberText)
          have solid : skipBlank (joined [','] ((next :: members).map memberText) ++
              '\x7d' :: rest) = joined [','] ((next :: members).map memberText) ++ '\x7d' :: rest := by
            rw [starts]
            exact skipBlank_cons (by decide) _
          rw [whole, shape, List.mapM_cons]
          simp only [readMembers, key, value, Option.bind_eq_bind, Option.bind_some, readMember,
            skipBlank_cons (show isBlank ':' = false by decide)]
          cases reads member.2 with
          | none => rfl
          | some v =>
              simp only [Option.map_some, Option.bind_some, solid, others,
                skipBlank_cons (show isBlank ',' = false by decide)]
              cases (next :: members).mapM (readMember reads) <;> rfl

/-! ## Trees -/

/-- A tree whose text can be read: no more than the given number of containers stand inside each
other, and its numbers are whole and of 64 bits. -/
inductive Legible : Nat → Json → Prop
  | null {depth : Nat} : Legible depth .null
  | bool {depth : Nat} (b : Bool) : Legible depth (.bool b)
  | integer {depth : Nat} {n : Int} (low : -2 ^ 63 ≤ n) (high : n < 2 ^ 64) :
      Legible depth (.integer n)
  | text {depth : Nat} (s : String) : Legible depth (.text s)
  | array {depth : Nat} {items : List Json} (each : ∀ j ∈ items, Legible depth j) :
      Legible (depth + 1) (.array items)
  | object {depth : Nat} {members : List (String × Json)}
      (each : ∀ m ∈ members, Legible depth m.2) : Legible (depth + 1) (.object members)

theorem itemChars_eq (items : List Json) : itemChars items = items.map chars := by
  induction items with
  | nil => simp only [itemChars, List.map_nil]
  | cons j items ih => simp only [itemChars, List.map_cons, ih]

theorem memberChars_eq (members : List (String × Json)) :
    memberChars members = members.map memberText := by
  induction members with
  | nil => simp only [memberChars, List.map_nil]
  | cons member members ih => simp only [memberChars, List.map_cons, ih, memberText]

/-- The text of a whole number, its sign apart, starts with a digit. -/
theorem digitText_starts (n : Nat) :
    ∃ c cs, Decimal.digitText n = c :: cs ∧ c.isDigit = true := by
  cases digits : Decimal.digitText n with
  | nil => exact absurd digits Nat.toDigits_ne_nil
  | cons c cs =>
      refine ⟨c, cs, rfl, isDigit_digitText (n := n) ?_⟩
      rw [digits]
      exact List.mem_cons_self ..

theorem solid_of_isDigit {c : Char} (digit : c.isDigit = true) : isBlank c = false ∧ c ≠ ']' := by
  refine ⟨?_, ?_⟩
  · cases blank : isBlank c with
    | false => rfl
    | true =>
        simp only [isBlank, Bool.or_eq_true, beq_iff_eq] at blank
        rcases blank with ((rfl | rfl) | rfl) | rfl <;> cases digit
  · rintro rfl
    cases digit

/-- A text that starts with a character that is neither blank nor a closing bracket. -/
def Starts (cs : List Char) : Prop :=
  ∃ c tail, cs = c :: tail ∧ isBlank c = false ∧ c ≠ ']'

theorem Legible.starts {depth : Nat} {j : Json} (legible : Legible depth j) : Starts (chars j) := by
  cases legible with
  | null => exact ⟨_, _, by rw [chars], by decide⟩
  | bool b => cases b <;> exact ⟨_, _, by rw [chars], by decide⟩
  | text s => exact ⟨_, _, by rw [chars]; rfl, by decide⟩
  | array each => exact ⟨_, _, by rw [chars]; rfl, by decide⟩
  | object each => exact ⟨_, _, by rw [chars]; rfl, by decide⟩
  | @integer _ n low high =>
      rw [chars, integerText]
      by_cases negative : n < 0
      · simp only [negative, decide_true, Decimal.signText, if_true]
        exact ⟨_, _, rfl, by decide⟩
      · simp only [negative, decide_false, Decimal.signText]
        obtain ⟨c, cs, digits, digit⟩ := digitText_starts n.natAbs
        exact ⟨c, cs, digits, solid_of_isDigit digit⟩

alias readValue_eq := readValue.eq_def

theorem readValue_digit {c : Char} (digit : c.isDigit = true) (depth : Nat) (tail : List Char) :
    readValue depth (c :: tail) = readNumber false (c :: tail) := by
  unfold readValue
  rw [skipBlank_cons (solid_of_isDigit digit).1]
  split
  all_goals first
    | rfl
    | rename_i shape; cases shape; cases digit

theorem readValue_minus (depth : Nat) (tail : List Char) :
    readValue depth ('-' :: tail) = readNumber true tail := by
  rw [readValue_eq]
  rfl

theorem readValue_quote (depth : Nat) (tail : List Char) :
    readValue depth ('"' :: tail) =
      (readText tail).map (Prod.map (fun s => .text (String.ofList s)) id) := by
  rw [readValue_eq]
  rfl

/-- An array that does not end at once is read element by element. -/
theorem readValue_bracket {c : Char} (solid : isBlank c = false) (apart : c ≠ ']') (depth : Nat)
    (tail : List Char) : readValue (depth + 1) ('[' :: c :: tail) =
      (readItems (readValue depth) (c :: tail).length (c :: tail)).map
        (Prod.map .array id) := by
  unfold readValue
  simp only [skipBlank_cons (show isBlank '[' = false by decide), skipBlank_cons solid]
  split
  · rename_i shape
    cases shape
    exact absurd rfl apart
  · rfl

/-- An object that does not end at once is read member by member. -/
theorem readValue_brace (depth : Nat) (tail : List Char) :
    readValue (depth + 1) ('\x7b' :: '"' :: tail) =
      (readMembers readQuoted (fun _ => readValue depth) ('"' :: tail).length ('"' :: tail)).map
        (Prod.map .object id) := by
  rw [readValue_eq]
  rfl

theorem readValue_integer {n : Int} (low : -2 ^ 63 ≤ n) (high : n < 2 ^ 64) (depth : Nat)
    {rest : List Char} (ends : EndsNumber rest) :
    readValue depth (chars (.integer n) ++ rest) = some (.integer n, rest) := by
  rw [chars, integerText]
  by_cases negative : n < 0
  · have fits : wholeOf? true n.natAbs = some n := by
      have bound : 0 < n.natAbs ∧ n.natAbs ≤ twoTo 63 := by
        change 0 < n.natAbs ∧ n.natAbs ≤ 2 ^ 63
        omega
      simp only [wholeOf?, if_true, if_pos bound]
      congr 1
      omega
    simp only [negative, decide_true, Decimal.signText, if_true]
    exact (readValue_minus depth _).trans (readNumber_digitText fits ends)
  · have fits : wholeOf? false n.natAbs = some n := by
      have bound : n.natAbs < twoTo 64 := by
        change n.natAbs < 2 ^ 64
        omega
      simp only [wholeOf?, if_pos bound, Bool.false_eq_true, if_false]
      congr 1
      omega
    obtain ⟨c, cs, digits, digit⟩ := digitText_starts n.natAbs
    have read := readNumber_digitText fits ends
    simp only [negative, decide_false, Decimal.signText, Bool.false_eq_true, if_false,
      List.nil_append]
    rw [digits] at read ⊢
    rw [List.cons_append, readValue_digit digit]
    exact read

/-- An array is read if all its elements are. -/
theorem readValue_array {depth : Nat} {items : List Json} (reads : Json → Option Json)
    (starts : ∀ j ∈ items, Starts (chars j))
    (each : ∀ j ∈ items, ∀ rest, EndsNumber rest →
      readValue depth (chars j ++ rest) = (reads j).map (·, rest)) (rest : List Char) :
    readValue (depth + 1) (chars (.array items) ++ rest) =
      (items.mapM reads).map fun js => (.array js, rest) := by
  have whole : chars (.array items) ++ rest =
      '[' :: (joined [','] (items.map chars) ++ ']' :: rest) := by
    rw [chars, itemChars_eq]
    simp
  rw [whole]
  cases items with
  | nil =>
      rw [readValue_eq]
      rfl
  | cons j items =>
      obtain ⟨c, cs, start, solid, apart⟩ := starts j (List.mem_cons_self ..)
      obtain ⟨tail, first⟩ : ∃ tail, joined [','] ((j :: items).map chars) = c :: tail := by
        rw [List.map_cons, start]
        exact joined_cons [','] c cs (items.map chars)
      have filled : ∀ piece ∈ (j :: items).map chars, piece ≠ [] := by
        intro piece member
        obtain ⟨i, inside, rfl⟩ := List.mem_map.mp member
        obtain ⟨c, cs, shape, -⟩ := starts i inside
        rw [shape]
        exact List.cons_ne_nil c cs
      have enough := length_le_joined [','] filled
      have read := readItems_joined (readValue depth) chars reads (List.cons_ne_nil j items) each
        (joined [','] ((j :: items).map chars) ++ ']' :: rest).length
        (by rw [List.length_map] at enough; rw [List.length_append]; omega) rest
      rw [first, List.cons_append] at read ⊢
      rw [readValue_bracket solid apart, read]
      cases (j :: items).mapM reads <;> rfl

/-- An object is read if the values of all its members are. -/
theorem readValue_object {depth : Nat} {members : List (String × Json)}
    (reads : Json → Option Json)
    (each : ∀ m ∈ members, ∀ rest, EndsNumber rest →
      readValue depth (chars m.2 ++ rest) = (reads m.2).map (·, rest)) (rest : List Char) :
    readValue (depth + 1) (chars (.object members) ++ rest) =
      (members.mapM (readMember reads)).map fun ms => (.object ms, rest) := by
  have whole : chars (.object members) ++ rest =
      '\x7b' :: (joined [','] (members.map memberText) ++ '\x7d' :: rest) := by
    rw [chars, memberChars_eq]
    simp
  rw [whole]
  cases members with
  | nil =>
      rw [readValue_eq]
      rfl
  | cons member members =>
      obtain ⟨tail, first⟩ : ∃ tail, joined [','] ((member :: members).map memberText) =
          '"' :: tail := joined_cons [','] '"' _ (members.map memberText)
      have filled : ∀ piece ∈ (member :: members).map memberText, piece ≠ [] := by
        intro piece inside
        obtain ⟨m, -, rfl⟩ := List.mem_map.mp inside
        exact List.cons_ne_nil _ _
      have enough := length_le_joined [','] filled
      have read := readMembers_joined reads (List.cons_ne_nil member members) each
        (joined [','] ((member :: members).map memberText) ++ '\x7d' :: rest).length
        (by rw [List.length_map] at enough; rw [List.length_append]; omega) rest
      rw [first, List.cons_append] at read ⊢
      rw [readValue_brace, read]
      cases (member :: members).mapM (readMember reads) <;> rfl

theorem readValue_text (depth : Nat) (s : String) (rest : List Char) :
    readValue depth (chars (.text s) ++ rest) = some (.text s, rest) := by
  have whole : chars (.text s) ++ rest =
      '"' :: (Text.escape .interchange s.toList ++ '"' :: rest) := by
    rw [chars, textChars]
    simp
  rw [whole, readValue_quote, readText_escape readable_interchange]
  simp only [Option.map_some, Prod.map_apply, String.ofList_toList, id]

/-- **The text of a tree reads back**, whatever follows. -/
theorem readValue_chars {depth : Nat} {j : Json} (legible : Legible depth j) {rest : List Char}
    (ends : EndsNumber rest) : readValue depth (chars j ++ rest) = some (j, rest) := by
  induction legible generalizing rest with
  | null =>
      rw [chars, readValue_eq]
      rfl
  | bool b =>
      cases b <;> rw [chars, readValue_eq] <;> rfl
  | integer low high => exact readValue_integer low high _ ends
  | text s => exact readValue_text _ s rest
  | @array _ items legible ih =>
      have all : items.mapM some = some items := by
        simpa using List.mapM_pure (m := Option) (f := id) (l := items)
      rw [readValue_array some (fun j member => (legible j member).starts)
        (fun j member rest ends => ih j member ends), all]
      rfl
  | @object _ members legible ih =>
      have all : members.mapM (readMember some) = some members := by
        rw [show readMember some = some from rfl]
        simpa using List.mapM_pure (m := Option) (f := id) (l := members)
      rw [readValue_object some (fun m member rest ends => ih m member ends), all]
      rfl

/-- The whole of a text reads back. -/
theorem parse?_compact {j : Json} (legible : Legible maxNesting j) : parse? j.compact = some j := by
  have read : readValue maxNesting (chars j ++ []) = some (j, []) :=
    readValue_chars legible .nil
  rw [List.append_nil] at read
  simp only [parse?, readAll?, compact, String.toList_ofList, read, Option.bind_eq_bind,
    Option.bind_some]
  rfl

end TreeQuery.Json
