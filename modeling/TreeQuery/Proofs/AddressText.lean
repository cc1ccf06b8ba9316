import TreeQuery.Proofs.Interchange.Text
import TreeQuery.Value.Basic

/-!
# The text of an address tells its steps

Addresses with the same text have the same steps, and keys with the same quoted form are the same.
The text can be read from the left: a dot and a quote start a quoted key, which ends at the first
quote without a backslash; a dot and anything else start a plain key, which ends at the first
character that a plain key cannot hold; a bracket starts an index. Whatever follows a step is read
as the next one (`readStep?_text`), because it starts with a dot or a bracket. All that this takes of
the alphanumeric characters is that the dot, the bracket and the quote are none.
-/

set_option autoImplicit false

namespace TreeQuery

/-! ## Reading a step -/

/-- A character that a key without quotes can hold. -/
def isPlainChar (c : Char) : Bool :=
  Text.isAlphanumeric c || c == '_' || c == '-'

/-- Reads the step at the start of a text and gives the rest. -/
def readStep? : Json.Reader Step
  | '.' :: '"' :: cs => (Json.readText cs).map (Prod.map (fun key => .key (String.ofList key)) id)
  | '.' :: cs => some (.key (String.ofList (cs.takeWhile isPlainChar)), cs.dropWhile isPlainChar)
  | '[' :: cs => some (.index (Decimal.digitsValue (cs.takeWhile Char.isDigit)),
      (cs.dropWhile Char.isDigit).tail)
  | _ => none

/-- What can follow a step: another one, or nothing. -/
def EndsStep (rest : List Char) : Prop :=
  ∀ c ∈ rest.head?, c = '.' ∨ c = '['

theorem EndsStep.not_plain {rest : List Char} (ends : EndsStep rest) :
    ∀ c ∈ rest.head?, isPlainChar c = false := by
  intro c first
  rcases ends c first with rfl | rfl <;> decide

theorem isPlainKey_iff {name : String} :
    isPlainKey name = true ↔ name.toList ≠ [] ∧ ∀ c ∈ name.toList, isPlainChar c = true := by
  simp [isPlainKey, isPlainChar]

theorem toList_quotedKey (key : String) :
    (quotedKey key).toList = '"' :: (Text.escape .display key.toList ++ ['"']) := by
  simp [quotedKey, Text.quote]

theorem readStep?_plain {name : String} (plain : isPlainKey name = true) {rest : List Char}
    (ends : EndsStep rest) :
    readStep? ('.' :: (name.toList ++ rest)) = some (.key name, rest) := by
  obtain ⟨inhabited, all⟩ := isPlainKey_iff.mp plain
  obtain ⟨taken, dropped⟩ := Json.span_append all ends.not_plain
  obtain ⟨c, cs, letters⟩ := List.exists_cons_of_ne_nil inhabited
  have unquoted : c ≠ '"' := by
    rintro rfl
    have quote := all '"' (letters ▸ List.mem_cons_self ..)
    revert quote
    decide
  have read : readStep? ('.' :: (name.toList ++ rest)) =
      some (.key (String.ofList ((name.toList ++ rest).takeWhile isPlainChar)),
        (name.toList ++ rest).dropWhile isPlainChar) := by
    rw [letters, List.cons_append, readStep?]
    simp [unquoted]
  rw [read, taken, dropped, String.ofList_toList]

theorem readStep?_quoted (name : String) (rest : List Char) :
    readStep? ('.' :: ((quotedKey name).toList ++ rest)) = some (.key name, rest) := by
  rw [toList_quotedKey]
  simp only [List.cons_append, List.append_assoc, List.nil_append, readStep?]
  rw [Json.readText_escape Json.readable_display]
  simp

theorem readStep?_index (position : Nat) (rest : List Char) :
    readStep? ('[' :: (Decimal.digitText position ++ ']' :: rest)) =
      some (.index position, rest) := by
  have ends : ∀ c ∈ (']' :: rest).head?, c.isDigit = false := by
    intro c first
    cases first
    decide
  obtain ⟨taken, dropped⟩ := Json.span_digits (fun c => Json.isDigit_digitText) ends
  rw [readStep?, taken, dropped, Json.digitsValue_digitText, List.tail_cons]

/-- A step reads back from its text, whatever step follows. -/
theorem readStep?_text (s : Step) {rest : List Char} (ends : EndsStep rest) :
    readStep? (s.text.toList ++ rest) = some (s, rest) := by
  cases s with
  | key name =>
      cases plain : isPlainKey name with
      | true =>
          have shape : (Step.key name).text.toList ++ rest = '.' :: (name.toList ++ rest) := by
            simp [Step.text, plain]
          rw [shape, readStep?_plain plain ends]
      | false =>
          have shape : (Step.key name).text.toList ++ rest =
              '.' :: ((quotedKey name).toList ++ rest) := by
            simp [Step.text, plain]
          rw [shape, readStep?_quoted]
  | index position =>
      have shape : (Step.index position).text.toList ++ rest =
          '[' :: (Decimal.digitText position ++ ']' :: rest) := by
        simp [Step.text, Decimal.digitText]
      rw [shape, readStep?_index]

/-! ## Reading an address -/

theorem toList_addressText (steps : List Step) :
    (addressText steps).toList = '~' :: steps.flatMap fun s => s.text.toList := by
  simp [addressText, String.toList_join, List.flatMap_map]

/-- The text of a step starts with a dot or a bracket. -/
theorem head?_text (s : Step) : s.text.toList.head? = some '.' ∨ s.text.toList.head? = some '[' := by
  cases s with
  | key name => exact .inl (by simp [Step.text])
  | index position => exact .inr (by simp [Step.text])

theorem endsStep_steps (steps : List Step) :
    EndsStep (steps.flatMap fun s => s.text.toList) := by
  intro c first
  cases steps with
  | nil => cases first
  | cons s rest =>
      rw [List.flatMap_cons] at first
      rcases head?_text s with dot | bracket
      · left
        simpa [List.head?_append, dot] using first.symm
      · right
        simpa [List.head?_append, bracket] using first.symm

theorem steps_of_text {steps others : List Step}
    (same : (steps.flatMap fun s => s.text.toList) = others.flatMap fun s => s.text.toList) :
    steps = others := by
  induction steps generalizing others with
  | nil =>
      cases others with
      | nil => rfl
      | cons t more =>
          -- From an empty text no step can be read.
          have read := readStep?_text t (endsStep_steps more)
          rw [List.flatMap_cons] at same
          rw [← same] at read
          cases read
  | cons s rest ih =>
      have read := readStep?_text s (endsStep_steps rest)
      rw [List.flatMap_cons] at same
      rw [same] at read
      cases others with
      | nil => cases read
      | cons t more =>
          rw [List.flatMap_cons, readStep?_text t (endsStep_steps more), Option.some.injEq,
            Prod.mk.injEq] at read
          rw [read.1, ih read.2.symm]

theorem addressText_injective : Function.Injective addressText := by
  intro steps others same
  have chars := congrArg String.toList same
  rw [toList_addressText, toList_addressText, List.cons.injEq] at chars
  exact steps_of_text chars.2

theorem quotedKey_injective : Function.Injective quotedKey := by
  intro key other same
  have chars := congrArg String.toList same
  rw [toList_quotedKey, toList_quotedKey, List.cons.injEq] at chars
  have read := congrArg Json.readText chars.2
  rw [Json.readText_escape Json.readable_display, Json.readText_escape Json.readable_display,
    Option.some.injEq, Prod.mk.injEq] at read
  exact String.toList_injective read.1

/-- **The text of an address identifies it.** Two addresses have the same text exactly if they have
the same steps, whatever is in the keys, and two keys have the same quoted form exactly if they are
the same. -/
theorem text_identifies (a b : Address) (key other : String) :
    (a.text = b.text ↔ a.steps = b.steps) ∧ (quotedKey key = quotedKey other ↔ key = other) :=
  ⟨addressText_injective.eq_iff, quotedKey_injective.eq_iff⟩

/-- A key with the text of two steps, and one with the text of a quoted key. -/
example :
    addressText [.key "a[0]"] = "~.\"a[0]\"" ∧ addressText [.key "a", .index 0] = "~.a[0]" ∧
      addressText [.key "\"a\""] = "~.\"\\\"a\\\"\"" := by
  decide

end TreeQuery
