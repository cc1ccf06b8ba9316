import TreeQuery.Proofs.Interchange.Base64
import TreeQuery.Proofs.Interchange.Doubles
import TreeQuery.Proofs.Interchange.Text
import TreeQuery.Proofs.Tree
import TreeQuery.Store

/-!
# Stored values read back

A value goes into the store as text. Bytes read back whatever they are. So does a value that is made
of null, truth values, texts, whole numbers that a double can hold, arrays and objects, with no more
than 127 containers inside each other (`Store.decode_encode`): its elements and members come back in
their order, and its numbers without decimal places.
-/

set_option autoImplicit false

namespace TreeQuery

/-- A value with no more than the given number of containers inside each other, made of null, truth
values, texts, whole numbers of at most 53 bits or `2 ^ 53` itself, and objects without repeated
keys. -/
inductive Value.Plain : Nat → Value → Prop
  | null {depth : Nat} : Plain depth .null
  | bool {depth : Nat} (b : Bool) : Plain depth (.bool b)
  | text {depth : Nat} (s : String) : Plain depth (.text s)
  | number {depth : Nat} {n : Int} (small : n.natAbs ≤ 2 ^ 53) :
      Plain depth (.number (Numeral.ofInt n))
  | array {depth : Nat} {items : List Value} (each : ∀ v ∈ items, Plain depth v) :
      Plain (depth + 1) (.array items)
  | object {depth : Nat} {fields : List (String × Value)} (distinct : (fields.map Prod.fst).Nodup)
      (each : ∀ field ∈ fields, Plain depth field.2) : Plain (depth + 1) (.object fields)

namespace Value

variable {depth : Nat} {v : Value}

theorem Plain.isEmpty (plain : v.Plain depth) : v.isEmpty = false := by
  cases plain <;> rfl

theorem toJsonItems_eq {items : List Value} (filled : ∀ v ∈ items, v.isEmpty = false) :
    toJsonItems items = items.map toJson := by
  induction items with
  | nil => rw [toJsonItems, List.map_nil]
  | cons v items ih =>
      have here := filled v (List.mem_cons_self ..)
      have later := ih fun v member => filled v (List.mem_cons_of_mem _ member)
      rw [toJsonItems, here, later, List.map_cons]
      rfl

theorem toJsonFields_eq {fields : List (String × Value)}
    (filled : ∀ field ∈ fields, field.2.isEmpty = false) :
    toJsonFields fields = fields.map (Prod.map id toJson) := by
  induction fields with
  | nil => rw [toJsonFields, List.map_nil]
  | cons field fields ih =>
      have here := filled field (List.mem_cons_self ..)
      have later := ih fun field member => filled field (List.mem_cons_of_mem _ member)
      rw [toJsonFields, here, later, List.map_cons]
      rfl

theorem ofJsonItems_eq (whole : Int → Numeral) (items : List Json) :
    ofJsonItems whole items = items.map (ofJsonWith whole) := by
  induction items with
  | nil => rw [ofJsonItems, List.map_nil]
  | cons j items ih => rw [ofJsonItems, List.map_cons, ih]

theorem ofJsonMembers_eq (whole : Int → Numeral) (members : List (String × Json)) :
    ofJsonMembers whole members = members.map (Prod.map id (ofJsonWith whole)) := by
  induction members with
  | nil => rw [ofJsonMembers, List.map_nil]
  | cons member members ih =>
      rw [ofJsonMembers, List.map_cons, ih]
      rfl

/-- The tree of a plain value can be read from its text, and stands for the value. -/
theorem Plain.toJson (plain : v.Plain depth) :
    Json.Legible depth v.toJson ∧ ofJson v.toJson = v := by
  induction plain with
  | null =>
      rw [Value.toJson]
      exact ⟨.null, by rw [ofJson, ofJsonWith]⟩
  | bool b =>
      rw [Value.toJson]
      exact ⟨.bool b, by rw [ofJson, ofJsonWith]⟩
  | text s =>
      rw [Value.toJson]
      exact ⟨.text s, by rw [ofJson, ofJsonWith]⟩
  | number small =>
      rw [Value.toJson, Numeral.toJson_ofInt small]
      exact ⟨.integer (by omega) (by omega), by rw [ofJson, ofJsonWith]⟩
  | @array depth items each ih =>
      have filled : ∀ v ∈ items, v.isEmpty = false := fun v member => (each v member).isEmpty
      rw [Value.toJson, toJsonItems_eq filled]
      refine ⟨.array fun j member => ?_, ?_⟩
      · obtain ⟨v, inside, rfl⟩ := List.mem_map.mp member
        exact (ih v inside).1
      · rw [ofJson, ofJsonWith, ofJsonItems_eq, List.map_map]
        congr 1
        exact (List.map_congr_left fun v member => (ih v member).2).trans (List.map_id items)
  | @object depth fields distinct each ih =>
      have filled : ∀ field ∈ fields, field.2.isEmpty = false := fun field member =>
        (each field member).isEmpty
      rw [Value.toJson, toJsonFields_eq filled]
      refine ⟨.object fun m member => ?_, ?_⟩
      · obtain ⟨field, inside, rfl⟩ := List.mem_map.mp member
        exact (ih field inside).1
      · have back : (fields.map (Prod.map id Value.toJson)).map
            (Prod.map id (ofJsonWith Numeral.ofInt)) = fields := by
          rw [List.map_map]
          refine (List.map_congr_left fun field member => ?_).trans (List.map_id fields)
          exact Prod.ext rfl (ih field member).2
        rw [ofJson, ofJsonWith, ofJsonMembers_eq, back]
        exact congrArg Value.object (Assoc.insertAll_of_nodup distinct)

end Value

namespace Store

/-- A value that the store gives back: bytes, or a plain value whose text can be read. -/
inductive Storable : Value → Prop
  | bytes (b : Bytes) : Storable (.bytes b)
  | plain {v : Value} (plain : v.Plain 127) : Storable v

theorem encode_plain {depth : Nat} {v : Value} (plain : v.Plain depth) :
    encode v = "j" ++ v.compactJson := by
  cases plain <;> rfl

theorem toList_tagged (tag : Char) (s : String) :
    (String.singleton tag ++ s).toList = tag :: s.toList := by
  simp

/-- **A stored value reads back as itself**, under every key. -/
theorem decode_encode (key : String) {v : Value} (storable : Storable v) :
    decode key (encode v) = .ok v := by
  cases storable with
  | bytes b =>
      have tagged : (encode (.bytes b)).toList = 'r' :: (Bytes.toBase64 b).toList :=
        toList_tagged 'r' _
      simp only [decode, tagged, String.ofList_toList, Bytes.parseBase64_toBase64]
  | plain plain =>
      have tagged : (encode v).toList = 'j' :: v.compactJson.toList := by
        rw [encode_plain plain]
        exact toList_tagged 'j' _
      obtain ⟨legible, same⟩ := plain.toJson
      have read : Value.parseJson? v.compactJson = some v := by
        rw [Value.parseJson?, Value.compactJson, Json.parse?_compact legible, Option.map_some, same]
      simp only [decode, tagged, String.ofList_toList, read]

/-- Quotes, controls and other scripts in keys and texts, negative numbers and the largest. -/
theorem decode_encode_nested :
    let v : Value := .object [("\"a\\\n", .array [.number (.ofInt (-9007199254740992)), .null]),
      ("é\x01", .text "日\t/"), ("", .object [])]
    Storable v ∧ decode "key" (encode v) = .ok v ∧
      decode "key" (encode (.bytes [0, 255, 62, 63])) = .ok (.bytes [0, 255, 62, 63]) := by
  intro v
  have storable : Storable v := by
    refine .plain (.object (by decide) fun field member => ?_)
    simp only [List.mem_cons, List.not_mem_nil, or_false] at member
    rcases member with rfl | rfl | rfl
    · refine .array fun item inside => ?_
      simp only [List.mem_cons, List.not_mem_nil, or_false] at inside
      rcases inside with rfl | rfl
      · exact .number (by decide)
      · exact .null
    · exact .text _
    · exact .object List.nodup_nil fun _ none => absurd none List.not_mem_nil
  exact ⟨storable, decode_encode "key" storable, decode_encode "key" (.bytes _)⟩

end Store

end TreeQuery
