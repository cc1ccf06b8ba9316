import TreeQuery.Evaluation.Binding
import TreeQuery.Evaluation.Navigation
import TreeQuery.Library.Apply
import TreeQuery.Proofs.Translation.Values

/-!
# What translations do not touch

No operation on values looks into a function or a stream. So it makes no difference whether values
are translated before an operation or its result afterwards: every operation of the language
commutes with every translation. What is read off a value, such as its type, its truth or its text,
is the same for the translated value.

The results that evaluation uses are those about the operators (`Operation.binary_translate`), the
library (`Function.result?_translate`), the store (`Store.Backend.get_translate`) and the
configurations of bindings (`Evaluation.configOf_translate`).
-/

set_option autoImplicit false

namespace TreeQuery

variable (τ : Translation)

namespace Value

/-! ## What is read off a value -/

@[simp] theorem isEmpty_translate (v : Value) : (v.translate τ).isEmpty = v.isEmpty := by
  cases v <;> rfl

@[simp] theorem isNull_translate (v : Value) : (v.translate τ).isNull = v.isNull := by
  cases v <;> rfl

@[simp] theorem isArray_translate (v : Value) : (v.translate τ).isArray = v.isArray := by
  cases v <;> rfl

@[simp] theorem isObject_translate (v : Value) : (v.translate τ).isObject = v.isObject := by
  cases v <;> rfl

@[simp] theorem isBytes_translate (v : Value) : (v.translate τ).isBytes = v.isBytes := by
  cases v <;> rfl

@[simp] theorem isStructure_translate (v : Value) :
    (v.translate τ).isStructure = v.isStructure := by
  simp [isStructure]

theorem translate_scalar {v : Value} (plain : v.isScalar = true) : v.translate τ = v := by
  cases v <;> first | rfl | cases plain

@[simp] theorem typeName_translate (v : Value) : (v.translate τ).typeName = v.typeName := by
  cases v with
  | bool b => cases b <;> rfl
  | _ => rfl

@[simp] theorem text?_translate (v : Value) : (v.translate τ).text? = v.text? := by
  cases v <;> rfl

@[simp] theorem bool?_translate (v : Value) : (v.translate τ).bool? = v.bool? := by
  cases v <;> rfl

@[simp] theorem truthy_translate (v : Value) : (v.translate τ).truthy = v.truthy := by
  cases v <;> simp [truthy]

theorem member?_translate (v : Value) (key : String) :
    (v.translate τ).member? key = (v.member? key).map (translate τ) := by
  cases v with
  | object fields => simp [member?, Assoc.get?_mapValues]
  | _ => rfl

theorem element?_translate (v : Value) (position : Nat) :
    (v.translate τ).element? position = (v.element? position).map (translate τ) := by
  cases v with
  | array items => simp [element?]
  | _ => rfl

mutual

@[simp] theorem display_translate : ∀ v : Value, (v.translate τ).display = v.display
  | .empty | .null | .bool _ | .number _ | .text _ | .bytes _ | .stream _ | .lambda _ => rfl
  | .array items => by
      rw [translate, display, displayItems_translate items, display]
  | .object fields => by
      rw [translate, display, displayFields_translate fields, display]
  | .fault ⟨_, _, _, _, _, _, _, _⟩ => rfl
  | .address a => by rw [translate, display, Address.text_translate, display]

theorem displayItems_translate : ∀ items : List Value,
    displayItems (translateItems τ items) = displayItems items
  | [] => rfl
  | v :: rest => by
      simp only [translateItems, displayItems, isEmpty_translate, display_translate v,
        displayItems_translate rest]

theorem displayFields_translate : ∀ fields : List (String × Value),
    displayFields (translateFields τ fields) = displayFields fields
  | [] => rfl
  | (_, v) :: rest => by
      simp only [translateFields, displayFields, isEmpty_translate, display_translate v,
        displayFields_translate rest]

end

mutual

theorem toJson_translate : ∀ v : Value, (v.translate τ).toJson = v.toJson
  | .empty | .null | .bool _ | .number _ | .text _ | .bytes _ | .stream _ | .lambda _ => rfl
  | .array items => by rw [translate, toJson, toJsonItems_translate items, toJson]
  | .object fields => by rw [translate, toJson, toJsonFields_translate fields, toJson]
  | .fault ⟨_, _, _, payload, _, _, _, _⟩ => by
      simp only [translate, Fault.translate, toJson, isEmpty_translate, toJson_translate payload]
  | .address a => by rw [translate, toJson, Address.text_translate, toJson]

theorem toJsonItems_translate : ∀ items : List Value,
    toJsonItems (translateItems τ items) = toJsonItems items
  | [] => rfl
  | v :: rest => by
      simp only [translateItems, toJsonItems, isEmpty_translate, toJson_translate v,
        toJsonItems_translate rest]

theorem toJsonFields_translate : ∀ fields : List (String × Value),
    toJsonFields (translateFields τ fields) = toJsonFields fields
  | [] => rfl
  | (_, v) :: rest => by
      simp only [translateFields, toJsonFields, isEmpty_translate, toJson_translate v,
        toJsonFields_translate rest]

end

/-! ## Trees -/

theorem child?_translate (v : Value) (s : Step) :
    (v.translate τ).child? s = (v.child? s).map (translate τ) := by
  cases v with
  | object fields => cases s <;> simp [child?, Assoc.get?_mapValues]
  | array items => cases s <;> simp [child?]
  | _ => cases s <;> rfl

theorem walk?_translate (v : Value) (steps : List Step) :
    (v.translate τ).walk? steps = (v.walk? steps).map (translate τ) := by
  induction steps generalizing v with
  | nil => rfl
  | cons s rest ih =>
      rw [walk?, walk?, child?_translate]
      cases v.child? s with
      | none => rfl
      | some child => exact ih child

theorem resolve_translate (v : Value) (steps : List Step) :
    (v.translate τ).resolve steps = (v.resolve steps).translate τ := by
  rw [resolve, resolve, walk?_translate]
  cases v.walk? steps <;> rfl

theorem children_translate (v : Value) :
    (v.translate τ).children = v.children.map fun c => (c.1, c.2.translate τ) := by
  cases v with
  | object fields => simp [children, Assoc.mapValues]
  | array items =>
      apply List.ext_getElem?
      intro i
      simp only [translate_array, children, List.getElem?_mapIdx, List.getElem?_map,
        Option.map_map, Function.comp_def]
  | _ => rfl

mutual

theorem leafSteps_translate : ∀ v : Value, (v.translate τ).leafSteps = v.leafSteps
  | .empty | .null | .bool _ | .number _ | .text _ | .bytes _ | .stream _ | .lambda _
  | .fault _ | .address _ => rfl
  | .array items => by rw [translate, leafSteps, leafStepsItems_translate 0 items, leafSteps]
  | .object fields => by rw [translate, leafSteps, leafStepsFields_translate fields, leafSteps]

theorem leafStepsItems_translate : ∀ (i : Nat) (items : List Value),
    leafStepsItems i (translateItems τ items) = leafStepsItems i items
  | _, [] => rfl
  | i, v :: rest => by
      simp only [translateItems, leafStepsItems, isEmpty_translate, leafSteps_translate v,
        leafStepsItems_translate (i + 1) rest]

theorem leafStepsFields_translate : ∀ fields : List (String × Value),
    leafStepsFields (translateFields τ fields) = leafStepsFields fields
  | [] => rfl
  | (_, v) :: rest => by
      simp only [translateFields, leafStepsFields, isEmpty_translate, leafSteps_translate v,
        leafStepsFields_translate rest]

end

end Value

namespace Address

theorem linkedTo_translate (steps : List Step) (root : Value) :
    linkedTo steps (root.translate τ) = (linkedTo steps root).translate τ := by
  simp only [linkedTo, Value.isStructure_translate, translate]
  split <;> rfl

theorem child_translate (a : Address) (s : Step) :
    (a.translate τ).child s = (a.child s).translate τ := by
  cases a
  rfl

theorem value_translate (a : Address) : (a.translate τ).value = a.value.translate τ := by
  obtain ⟨steps, link⟩ := a
  cases link with
  | root v => exact Value.resolve_translate τ v steps
  | _ => rfl

theorem ofValue?_translate (v : Value) :
    ofValue? (v.translate τ) = (ofValue? v).map (translate τ) := by
  cases v with
  | array items =>
      have same : stepsOf? (items.map (Value.translate τ)) = stepsOf? items := by
        induction items with
        | nil => rfl
        | cons v rest ih => cases v <;> simp [stepsOf?, ih]
      rw [Value.translate_array, ofValue?, ofValue?, same]
      cases stepsOf? items <;> rfl
  | _ => rfl

end Address

namespace Value

theorem leaves_translate (v : Value) :
    (v.translate τ).leaves = v.leaves.map (Address.translate τ) := by
  simp only [leaves, leafSteps_translate, Address.linkedTo_translate, List.map_map]
  rfl

mutual

theorem memberOf_translate (key : String) : ∀ v : Value,
    (v.translate τ).memberOf key = (v.memberOf key).translate τ
  | .empty | .null | .bool _ | .number _ | .text _ | .bytes _ | .stream _ | .lambda _
  | .fault _ | .address _ => rfl
  | .array items => by
      rw [translate, memberOf, membersOf_translate key items, memberOf, translate]
  | .object fields => by
      rw [translate_object, memberOf, memberOf, Assoc.get?_mapValues]
      cases Assoc.get? fields key <;> rfl

theorem membersOf_translate (key : String) : ∀ items : List Value,
    membersOf key (translateItems τ items) = translateItems τ (membersOf key items)
  | [] => rfl
  | v :: rest => by
      rw [translateItems, membersOf, membersOf, memberOf_translate key v,
        membersOf_translate key rest]
      simp only [translateItems_eq, List.map_append]
      congr 1
      cases memberOf key v <;> simp

end

end Value

/-! ## Parts of a tree -/

namespace Value

theorem populated_translate (fields : List (String × Value)) :
    populated (Assoc.mapValues (translate τ) fields) = (populated fields).map (translate τ) := by
  cases fields <;> simp [populated]

theorem holed_translate (slots : List (Option Value)) :
    holed (slots.map (Option.map (translate τ))) = (holed slots).map (translate τ) := by
  have dropped : (slots.map (Option.map (translate τ))).all Option.isNone =
      slots.all Option.isNone := by
    simp [List.all_map, Function.comp_def]
  have filled : (slots.map (Option.map (translate τ))).map (fun slot => slot.getD .empty) =
      (slots.map fun slot => slot.getD .empty).map (translate τ) := by
    simp only [List.map_map]
    apply List.map_congr_left
    intro slot _
    cases slot <;> rfl
  rw [holed, dropped, filled, holed]
  split <;> simp

theorem emptyLike_translate (v : Value) : (v.translate τ).emptyLike = v.emptyLike.translate τ := by
  cases v <;> rfl

mutual

theorem retainAlong_translate : ∀ (v : Value) (t : Trie),
    retainAlong (v.translate τ) t = (retainAlong v t).map (translate τ)
  | .empty, _ | .null, _ | .bool _, _ | .number _, _ | .text _, _ | .bytes _, _ | .stream _, _
  | .lambda _, _ | .fault _, _ | .address _, _ => by
      simp only [translate, retainAlong]
      split <;> rfl
  | .array items, t => by
      simp only [translate, retainAlong, retainItemsAlong_translate 0 items t, holed_translate]
      split <;> simp [translateItems_eq]
  | .object fields, t => by
      simp only [translate, retainAlong, retainFieldsAlong_translate fields t, populated_translate]
      split <;> simp [translateFields_eq]

theorem retainItemsAlong_translate : ∀ (i : Nat) (items : List Value) (t : Trie),
    retainItemsAlong i (translateItems τ items) t =
      (retainItemsAlong i items t).map (Option.map (translate τ))
  | _, [], _ => rfl
  | i, v :: rest, t => by
      simp only [translateItems, retainItemsAlong, retainAlong_translate v, List.map_cons,
        retainItemsAlong_translate (i + 1) rest]
      cases t.child? (.index i) <;> rfl

theorem retainFieldsAlong_translate : ∀ (fields : List (String × Value)) (t : Trie),
    retainFieldsAlong (translateFields τ fields) t =
      Assoc.mapValues (translate τ) (retainFieldsAlong fields t)
  | [], _ => rfl
  | (key, v) :: rest, t => by
      simp only [translateFields, retainFieldsAlong, retainAlong_translate v,
        retainFieldsAlong_translate rest]
      cases t.child? (.key key) with
      | none => rfl
      | some sub => cases kept : retainAlong v sub <;> simp [kept]

end

mutual

theorem recludeAlong_translate : ∀ (v : Value) (t : Trie),
    recludeAlong (v.translate τ) t = (recludeAlong v t).map (translate τ)
  | .empty, _ | .null, _ | .bool _, _ | .number _, _ | .text _, _ | .bytes _, _ | .stream _, _
  | .lambda _, _ | .fault _, _ | .address _, _ => by
      simp only [translate, recludeAlong]
      split <;> rfl
  | .array items, t => by
      simp only [translate, recludeAlong, recludeItemsAlong_translate 0 items t, holed_translate]
      split
      · rfl
      · split <;> simp [translateItems_eq]
  | .object fields, t => by
      simp only [translate, recludeAlong, recludeFieldsAlong_translate fields t, populated_translate]
      split
      · rfl
      · split <;> simp [translateFields_eq]

theorem recludeItemsAlong_translate : ∀ (i : Nat) (items : List Value) (t : Trie),
    recludeItemsAlong i (translateItems τ items) t =
      (recludeItemsAlong i items t).map (Option.map (translate τ))
  | _, [], _ => rfl
  | i, v :: rest, t => by
      simp only [translateItems, recludeItemsAlong, recludeAlong_translate v, List.map_cons,
        recludeItemsAlong_translate (i + 1) rest]
      cases t.child? (.index i) <;> rfl

theorem recludeFieldsAlong_translate : ∀ (fields : List (String × Value)) (t : Trie),
    recludeFieldsAlong (translateFields τ fields) t =
      Assoc.mapValues (translate τ) (recludeFieldsAlong fields t)
  | [], _ => rfl
  | (key, v) :: rest, t => by
      simp only [translateFields, recludeFieldsAlong, recludeAlong_translate v,
        recludeFieldsAlong_translate rest]
      cases t.child? (.key key) with
      | none => rfl
      | some sub => cases kept : recludeAlong v sub <;> simp [kept]

end

theorem retain_translate (v : Value) (ways : List (List Step)) :
    (v.translate τ).retain ways = (v.retain ways).translate τ := by
  rw [retain, retain, retainAlong_translate, emptyLike_translate]
  cases retainAlong v (.build ways) <;> rfl

theorem reclude_translate (v : Value) (ways : List (List Step)) :
    (v.translate τ).reclude ways = (v.reclude ways).translate τ := by
  rw [reclude, reclude, recludeAlong_translate, emptyLike_translate]
  cases recludeAlong v (.build ways) <;> rfl

mutual

theorem merge_translate : ∀ v w : Value,
    (v.translate τ).merge (w.translate τ) = (v.merge w).translate τ
  | .empty, _ => by simp only [translate, merge]
  | .null, _ | .bool _, _ | .number _, _ | .text _, _ | .bytes _, _ | .stream _, _
  | .lambda _, _ | .fault _, _ | .address _, _ => by simp only [translate, merge]
  | .array items, w => by
      cases w with
      | array others =>
          simp only [translate, merge, mergeItems_translate items others]
      | _ => simp only [translate, merge]
  | .object fields, w => by
      cases w with
      | object others =>
          simp only [translate, merge, mergeFields_translate fields others]
          simp only [translateFields_eq, Assoc.contains_mapValues]
          simp [Assoc.mapValues, List.filter_map, Function.comp_def]
      | _ => simp only [translate, merge]

theorem mergeItems_translate : ∀ items others : List Value,
    mergeItems (translateItems τ items) (translateItems τ others) =
      translateItems τ (mergeItems items others)
  | [], _ => by simp only [translateItems, mergeItems]
  | _ :: _, [] => by simp only [translateItems, mergeItems]
  | v :: rest, w :: others => by
      simp only [translateItems, mergeItems, merge_translate v w, mergeItems_translate rest others]

theorem mergeFields_translate : ∀ fields others : List (String × Value),
    mergeFields (translateFields τ fields) (translateFields τ others) =
      translateFields τ (mergeFields fields others)
  | [], _ => by simp only [translateFields, mergeFields]
  | (key, v) :: rest, others => by
      simp only [translateFields, mergeFields, mergeFields_translate rest others]
      simp only [translateFields_eq, Assoc.get?_mapValues]
      cases Assoc.get? others key with
      | none => rfl
      | some w => simp only [Option.map_some, merge_translate v w]

end

end Value

/-! ## Sameness and equality

Functions and streams are compared by their identities, and a translation gives two of them the same
identity only if they had the same before. -/

section Comparison

theorem beq_lambda (a b : Nat) : (τ.lambda a == τ.lambda b) = (a == b) := by
  rw [Bool.eq_iff_iff, beq_iff_eq, beq_iff_eq]
  exact ⟨τ.lambda_injective a b, congrArg τ.lambda⟩

theorem beq_stream (a b : Nat) : (τ.stream a == τ.stream b) = (a == b) := by
  rw [Bool.eq_iff_iff, beq_iff_eq, beq_iff_eq]
  exact ⟨τ.stream_injective a b, congrArg τ.stream⟩

mutual

theorem Value.same_translate : ∀ v w : Value,
    (v.translate τ).same (w.translate τ) = v.same w
  | .empty, w | .null, w | .bool _, w | .number _, w | .text _, w | .bytes _, w => by
      cases w <;> simp only [Value.translate, Value.same]
  | .stream a, w => by
      cases w <;> simp only [Value.translate, Value.same, beq_stream]
  | .lambda a, w => by
      cases w <;> simp only [Value.translate, Value.same, Lambda.translate_eq, beq_lambda]
  | .address a, w => by
      cases w <;> simp only [Value.translate, Value.same, Address.steps_translate]
  | .array items, w => by
      cases w with
      | array others =>
          simp only [Value.translate, Value.same, Value.sameItems_translate items others]
      | _ => simp only [Value.translate, Value.same]
  | .object fields, w => by
      cases w with
      | object others =>
          simp only [Value.translate, Value.same, Value.sameFields_translate fields others]
          simp only [Value.translateFields_eq, Assoc.length_mapValues]
      | _ => simp only [Value.translate, Value.same]
  | .fault f, w => by
      cases w with
      | fault g => simp only [Value.translate, Value.same, Fault.same_translate f g]
      | _ => simp only [Value.translate, Value.same]

theorem Value.sameItems_translate : ∀ items others : List Value,
    Value.sameItems (Value.translateItems τ items) (Value.translateItems τ others) =
      Value.sameItems items others
  | [], [] | [], _ :: _ | _ :: _, [] => by simp only [Value.translateItems, Value.sameItems]
  | v :: rest, w :: others => by
      simp only [Value.translateItems, Value.sameItems, Value.same_translate v w,
        Value.sameItems_translate rest others]

theorem Value.sameFields_translate : ∀ fields others : List (String × Value),
    Value.sameFields (Value.translateFields τ fields) (Value.translateFields τ others) =
      Value.sameFields fields others
  | [], _ => by simp only [Value.translateFields, Value.sameFields]
  | (key, v) :: rest, others => by
      simp only [Value.translateFields, Value.sameFields, Value.sameFields_translate rest others]
      simp only [Value.translateFields_eq, Assoc.get?_mapValues]
      cases Assoc.get? others key with
      | none => rfl
      | some w => simp only [Option.map_some, Value.same_translate v w]

theorem Fault.same_translate : ∀ f g : Fault, (f.translate τ).same (g.translate τ) = f.same g
  | ⟨_, _, _, payload, _, _, _, cause⟩, ⟨_, _, _, payload', _, _, _, cause'⟩ => by
      simp only [Fault.translate, Fault.same, Value.same_translate payload payload',
        Fault.sameCause_translate cause cause']

theorem Fault.sameCause_translate : ∀ a b : Option Fault,
    Fault.sameCause (Fault.translateCause τ a) (Fault.translateCause τ b) = Fault.sameCause a b
  | none, none | none, some _ | some _, none => by
      simp only [Fault.translateCause, Fault.sameCause]
  | some f, some g => by
      simp only [Fault.translateCause, Fault.sameCause, Fault.same_translate f g]

end

namespace Operation

mutual

theorem comparison?_translate : ∀ v w : Value,
    comparison? (v.translate τ) (w.translate τ) = comparison? v w
  | .empty, w | .null, w => by simp [comparison?]
  | .bool _, w | .number _, w | .text _, w | .bytes _, w => by
      cases w <;> simp only [Value.translate, comparison?]
  | .stream a, w => by
      cases w <;> simp only [Value.translate, comparison?, beq_stream]
  | .lambda a, w => by
      cases w <;> simp only [Value.translate, comparison?, Lambda.translate_eq, beq_lambda]
  | .address a, w => by
      cases w <;> simp only [Value.translate, comparison?, Address.steps_translate]
  | .fault f, w => by
      cases w <;> simp only [Value.translate, comparison?, Fault.same_translate]
  | .array items, w => by
      cases w with
      | array others =>
          simp only [Value.translate, comparison?, itemsEqual_translate items others]
          simp only [Value.translateItems_eq, List.length_map]
      | _ => simp only [Value.translate, comparison?]
  | .object fields, w => by
      cases w with
      | object others =>
          simp only [Value.translate, comparison?, fieldsEqual_translate fields others]
          simp only [Value.translateFields_eq, Assoc.length_mapValues]
      | _ => simp only [Value.translate, comparison?]

theorem itemsEqual_translate : ∀ items others : List Value,
    itemsEqual (Value.translateItems τ items) (Value.translateItems τ others) =
      itemsEqual items others
  | [], [] | [], _ :: _ | _ :: _, [] => by simp only [Value.translateItems, itemsEqual]
  | v :: rest, w :: others => by
      simp only [Value.translateItems, itemsEqual, comparison?_translate v w,
        itemsEqual_translate rest others]

theorem fieldsEqual_translate : ∀ fields others : List (String × Value),
    fieldsEqual (Value.translateFields τ fields) (Value.translateFields τ others) =
      fieldsEqual fields others
  | [], _ => by simp only [Value.translateFields, fieldsEqual]
  | (key, v) :: rest, others => by
      simp only [Value.translateFields, fieldsEqual, fieldsEqual_translate rest others]
      simp only [Value.translateFields_eq, Assoc.get?_mapValues]
      cases Assoc.get? others key with
      | none => rfl
      | some w => simp only [Option.map_some, comparison?_translate v w]

end

end Operation

end Comparison

/-! ## Errors -/

namespace Fault

@[simp] theorem kind_translate (f : Fault) : (f.translate τ).kind = f.kind := by
  cases f
  rfl

@[simp] theorem message_translate (f : Fault) : (f.translate τ).message = f.message := by
  cases f
  rfl

@[simp] theorem payload_translate (f : Fault) :
    (f.translate τ).payload = f.payload.translate τ := by
  cases f
  rfl

@[simp] theorem translate_of (kind : FaultKind) (message : String) :
    (of kind message).translate τ = of kind message := rfl

@[simp] theorem translate_withPayload (f : Fault) (payload : Value) :
    (f.withPayload payload).translate τ = (f.translate τ).withPayload (payload.translate τ) := by
  cases f
  rfl

@[simp] theorem translate_withCode (f : Fault) (code : String) :
    (f.withCode code).translate τ = (f.translate τ).withCode code := by
  cases f
  rfl

@[simp] theorem translate_withLocation (f : Fault) (location : String) :
    (f.withLocation location).translate τ = (f.translate τ).withLocation location := by
  cases f
  rfl

@[simp] theorem translate_inFunction (f : Fault) (library function : String) :
    (f.inFunction library function).translate τ = (f.translate τ).inFunction library function := by
  cases f
  rfl

@[simp] theorem translate_wrapping (f cause : Fault) :
    (f.wrapping cause).translate τ = (f.translate τ).wrapping (cause.translate τ) := by
  cases f
  rfl

@[simp] theorem translate_evaluation (message : String) :
    (evaluation message).translate τ = evaluation message := rfl

@[simp] theorem translate_operator (symbol left right : String) :
    (operator symbol left right).translate τ = operator symbol left right := rfl

@[simp] theorem translate_unaryOperator (symbol operand : String) :
    (unaryOperator symbol operand).translate τ = unaryOperator symbol operand := rfl

@[simp] theorem translate_raised (kind message : String) (payload : Value) :
    (raised kind message payload).translate τ = raised kind message (payload.translate τ) := rfl

end Fault

@[simp] theorem OptionError.translate_toFault (e : OptionError) :
    e.toFault.translate τ = e.toFault := by
  cases e <;> rfl

@[simp] theorem StoreError.translate_toFault (e : StoreError) :
    e.toFault.translate τ = e.toFault := rfl

@[simp] theorem ComponentError.translate_toFault (e : ComponentError) :
    e.toFault.translate τ = e.toFault := rfl

@[simp] theorem Library.CallError.translate_toFault (e : Library.CallError)
    (library name : String) : (e.toFault library name).translate τ = e.toFault library name := by
  cases e <;> simp [Library.CallError.toFault]

/-! ## Operators -/

/-- The translated value, or the translated error. -/
def translateResult : Except Fault Value → Except Fault Value
  | .ok v => .ok (v.translate τ)
  | .error f => .error (f.translate τ)

namespace Operation

@[simp] theorem mismatch_translate (op : BinaryOp) (a b : Value) :
    mismatch op (a.translate τ) (b.translate τ) = mismatch op a b := by
  simp [mismatch]

@[simp] theorem translate_mismatch (op : BinaryOp) (a b : Value) :
    (mismatch op a b).translate τ = mismatch op a b := rfl

@[simp] theorem translate_zeroDivisor (op : BinaryOp) :
    (zeroDivisor op).translate τ = zeroDivisor op := rfl

theorem looseEq_translate (a b : Value) :
    looseEq (a.translate τ) (b.translate τ) = looseEq a b := by
  rw [looseEq, comparison?_translate, looseEq]

theorem compare_translate (op : BinaryOp) (a b : Value) (test : Ordering → Bool) :
    compare op (a.translate τ) (b.translate τ) test = translateResult τ (compare op a b test) := by
  cases a <;> cases b <;> rfl

theorem numeric_translate (op : BinaryOp) (a b : Value) (f : Numeral → Numeral → Numeral) :
    numeric op (a.translate τ) (b.translate τ) f = translateResult τ (numeric op a b f) := by
  cases a <;> cases b <;> rfl

theorem logical_translate (op : BinaryOp) (a b : Value) (f : Bool → Bool → Bool) :
    logical op (a.translate τ) (b.translate τ) f = translateResult τ (logical op a b f) := by
  cases a <;> cases b <;> rfl

theorem add_translate (a b : Value) :
    add (a.translate τ) (b.translate τ) = translateResult τ (add a b) := by
  cases a with
  | object x =>
      cases b with
      | object y => simp [add, translateResult, Assoc.insertAll_mapValues]
      | _ => rfl
  | array x => cases b <;> simp [add, translateResult]
  | _ => cases b <;> rfl

theorem claim?_translate (v : Value) (right : List (Value × Bool)) :
    claim? (v.translate τ) (right.map fun e => (e.1.translate τ, e.2)) =
      (claim? v right).map (List.map fun e => (e.1.translate τ, e.2)) := by
  induction right with
  | nil => rfl
  | cons e rest ih =>
      obtain ⟨w, taken⟩ := e
      simp only [List.map_cons, claim?, looseEq_translate, ih]
      split
      · rfl
      · simp only [Option.map_map]
        rfl

theorem pairUp_translate (left : List Value) (right : List (Value × Bool)) :
    pairUp (left.map (Value.translate τ)) (right.map fun e => (e.1.translate τ, e.2)) =
      ((pairUp left right).1.map (fun e => (e.1.translate τ, e.2)),
        (pairUp left right).2.map fun e => (e.1.translate τ, e.2)) := by
  induction left generalizing right with
  | nil => rfl
  | cons v rest ih =>
      simp only [List.map_cons, pairUp, claim?_translate]
      cases claim? v right with
      | none => simp only [Option.map_none, ih]
      | some claimed => simp only [Option.map_some, ih]

theorem paired_translate (a b : List Value) :
    paired (a.map (Value.translate τ)) (b.map (Value.translate τ)) =
      ((paired a b).1.map (fun e => (e.1.translate τ, e.2)),
        (paired a b).2.map fun e => (e.1.translate τ, e.2)) := by
  have free : (b.map (Value.translate τ)).map (·, false) =
      (b.map (·, false)).map fun e => (e.1.translate τ, e.2) := by
    simp only [List.map_map]
    rfl
  rw [paired, free, pairUp_translate, paired]

theorem marked_translate (mark : Bool) (elements : List (Value × Bool)) :
    marked mark (elements.map fun e => (e.1.translate τ, e.2)) =
      (marked mark elements).map (Value.translate τ) := by
  simp only [marked, List.filter_map, List.map_map]
  rfl

theorem addresses?_translate (items : List Value) :
    addresses? (items.map (Value.translate τ)) =
      (addresses? items).map (List.map (Address.translate τ)) := by
  induction items with
  | nil => rfl
  | cons v rest ih =>
      cases v with
      | address a =>
          simp only [List.map_cons, Value.translate_address, addresses?, ih, Option.map_map]
          rfl
      | _ => simp [addresses?]

theorem addressList?_translate (v : Value) :
    addressList? (v.translate τ) = (addressList? v).map (List.map (Address.translate τ)) := by
  cases v with
  | array items => simp only [Value.translate_array, addressList?, addresses?_translate]
  | _ => rfl

@[simp] theorem ways_translate (list : List Address) :
    ways (list.map (Address.translate τ)) = ways list := by
  simp [ways, Function.comp_def]

theorem filter_looseEq_translate (items : List Value) {scalar : Value}
    (plain : scalar.isScalar = true) (test : Bool → Bool) :
    (items.map (Value.translate τ)).filter (fun v => test (looseEq v scalar)) =
      (items.filter fun v => test (looseEq v scalar)).map (Value.translate τ) := by
  have same : ∀ v, looseEq (v.translate τ) scalar = looseEq v scalar := by
    intro v
    rw [← looseEq_translate τ v scalar, Value.translate_scalar τ plain]
  simp only [List.filter_map, Function.comp_def, same]

theorem isMember_translate {scalar : Value} (plain : scalar.isScalar = true) (items : List Value) :
    isMember scalar (items.map (Value.translate τ)) = isMember scalar items := by
  have same : ∀ v, looseEq scalar (v.translate τ) = looseEq scalar v := by
    intro v
    rw [← looseEq_translate τ scalar v, Value.translate_scalar τ plain]
  simp only [isMember, List.any_map, Function.comp_def, same]

/-- What division and its counterpart have in common: a function of two numbers, one of two arrays,
one of an object and ways into it, and a choice between what is equal to a scalar and what is not. -/
def parted (op : BinaryOp) (numbers : Numeral → Numeral → Option Numeral)
    (arrays : List Value → List Value → List Value) (part : Value → List (List Step) → Value)
    (choice : Bool → Bool) (a b : Value) : Except Fault Value :=
  match a, b with
  | .number x, .number y => match numbers x y with
    | some q => .ok (.number q)
    | none => .error (zeroDivisor op)
  | .array x, .array y => .ok (.array (arrays x y))
  | .object _, _ => match addressList? b with
    | some list => .ok (part a (ways list))
    | none => .error (mismatch op a b)
  | .array items, scalar =>
    if scalar.isScalar then .ok (.array (items.filter fun v => choice (looseEq v scalar)))
    else .error (mismatch op a b)
  | scalar, .array items =>
    if scalar.isScalar then .ok (.bool (choice (isMember scalar items)))
    else .error (mismatch op a b)
  | _, _ => .error (mismatch op a b)

theorem divide_eq_parted (a b : Value) :
    divide a b = parted .divide Numeral.div? intersection Value.retain id a b := by
  cases a <;> cases b <;> rfl

theorem modulo_eq_parted (a b : Value) :
    modulo a b = parted .modulo Numeral.rem? symmetricDifference Value.reclude not a b := by
  cases a <;> cases b <;> rfl

theorem parted_translate (op : BinaryOp) (numbers : Numeral → Numeral → Option Numeral)
    {arrays : List Value → List Value → List Value} {part : Value → List (List Step) → Value}
    (choice : Bool → Bool)
    (arraysCommute : ∀ x y, arrays (x.map (Value.translate τ)) (y.map (Value.translate τ)) =
      (arrays x y).map (Value.translate τ))
    (partCommutes : ∀ v ways, part (v.translate τ) ways = (part v ways).translate τ) (a b : Value) :
    parted op numbers arrays part choice (a.translate τ) (b.translate τ) =
      translateResult τ (parted op numbers arrays part choice a b) := by
  have object : ∀ {v : Value}, v.isObject = true → ∀ b, parted op numbers arrays part choice v b =
      match addressList? b with
      | some list => .ok (part v (ways list))
      | none => .error (mismatch op v b) := by
    intro v object b
    cases v with
    | object x => rfl
    | _ => cases object
  cases a with
  | object x =>
      rw [object (by rw [Value.isObject_translate]; rfl), addressList?_translate, object rfl]
      cases addressList? b with
      | none => simp only [Option.map_none, mismatch_translate, translateResult, translate_mismatch]
      | some list => simp only [Option.map_some, ways_translate, partCommutes, translateResult]
  | array x =>
      cases b with
      | array y => simp only [Value.translate_array, parted, translateResult, arraysCommute]
      | null | bool _ | number _ | text _ =>
          simpa [parted, translateResult, Value.isScalar] using
            filter_looseEq_translate τ x rfl choice
      | _ => rfl
  | number x =>
      cases b with
      | number y =>
          simp only [Value.translate_number, parted]
          cases numbers x y <;> rfl
      | array y =>
          simpa [parted, translateResult, Value.isScalar] using
            congrArg choice (isMember_translate τ rfl y)
      | _ => rfl
  | null | bool _ | text _ =>
      cases b with
      | array y =>
          simpa [parted, translateResult, Value.isScalar] using
            congrArg choice (isMember_translate τ rfl y)
      | _ => rfl
  | _ => cases b <;> rfl

theorem divide_translate (a b : Value) :
    divide (a.translate τ) (b.translate τ) = translateResult τ (divide a b) := by
  rw [divide_eq_parted, divide_eq_parted]
  exact parted_translate τ .divide _ id
    (fun x y => by simp [intersection, paired_translate, marked_translate])
    (fun v ways => Value.retain_translate τ v ways) a b

theorem modulo_translate (a b : Value) :
    modulo (a.translate τ) (b.translate τ) = translateResult τ (modulo a b) := by
  rw [modulo_eq_parted, modulo_eq_parted]
  exact parted_translate τ .modulo _ not
    (fun x y => by simp [symmetricDifference, paired_translate, marked_translate])
    (fun v ways => Value.reclude_translate τ v ways) a b

/-- **Operators commute with translations.** -/
theorem binary_translate (op : BinaryOp) (a b : Value) :
    binary op (a.translate τ) (b.translate τ) = translateResult τ (binary op a b) := by
  cases op with
  | add => exact add_translate τ a b
  | divide => exact divide_translate τ a b
  | modulo => exact modulo_translate τ a b
  | subtract | multiply | power => exact numeric_translate τ _ a b _
  | less | lessEqual | greater | greaterEqual => exact compare_translate τ _ a b _
  | and | or => exact logical_translate τ _ a b _
  | equal =>
      simp only [binary, equals, comparison?_translate, mismatch_translate]
      cases comparison? a b <;> rfl
  | notEqual =>
      simp only [binary, comparison?_translate, mismatch_translate]
      cases comparison? a b <;> rfl

theorem unary_translate (op : UnaryOp) (v : Value) :
    unary op (v.translate τ) = translateResult τ (unary op v) := by
  cases op <;> cases v <;> rfl

end Operation

/-! ## The library -/

namespace Library

theorem isEmpty_translate (v : Value) : isEmpty (v.translate τ) = isEmpty v := by
  cases v <;> simp [isEmpty]

theorem count_translate (v : Value) : count (v.translate τ) = count v := by
  cases v <;> simp [count]

theorem applyPatch_translate (insertNew : Bool) (fields patch : List (String × Value)) :
    applyPatch insertNew (Assoc.mapValues (Value.translate τ) fields)
        (Assoc.mapValues (Value.translate τ) patch) =
      Assoc.mapValues (Value.translate τ) (applyPatch insertNew fields patch) := by
  unfold applyPatch
  induction patch generalizing fields with
  | nil => rfl
  | cons entry rest ih =>
      obtain ⟨key, v⟩ := entry
      have step : applyMember insertNew (Assoc.mapValues (Value.translate τ) fields)
          (key, v.translate τ) =
            Assoc.mapValues (Value.translate τ) (applyMember insertNew fields (key, v)) := by
        simp only [applyMember, Value.isEmpty_translate, Assoc.contains_mapValues,
          Assoc.erase_mapValues, Assoc.insert_mapValues]
        split
        · rfl
        · split <;> rfl
      simp only [Assoc.mapValues_cons, List.foldl_cons, step]
      exact ih (applyMember insertNew fields (key, v))

theorem renameField_translate (fields : List (String × Value)) (source target : String) :
    renameField (Assoc.mapValues (Value.translate τ) fields) source target =
      Assoc.mapValues (Value.translate τ) (renameField fields source target) := by
  simp only [renameField, Assoc.contains_mapValues]
  split
  · simp only [Assoc.mapValues, List.filter_map, List.map_map]
    apply List.map_congr_left
    intro field _
    simp only [Function.comp_apply]
    split <;> rfl
  · rfl

theorem addressesOf_translate (v : Value) :
    addressesOf (v.translate τ) = (addressesOf v).map (List.map (Address.translate τ)) := by
  rw [addressesOf, Operation.addressList?_translate, addressesOf]
  cases Operation.addressList? v <;> rfl

theorem update_translate (v patch : Value) :
    update (v.translate τ) (patch.translate τ) = (update v patch).map (Value.translate τ) := by
  cases v with
  | object fields =>
      cases patch with
      | object entries =>
          simp [update, fieldsOf, patchOf, applyPatch_translate, Except.map, Bind.bind, Except.bind]
      | _ => rfl
  | _ => rfl

theorem upsert_translate (v patch : Value) :
    upsert (v.translate τ) (patch.translate τ) = (upsert v patch).map (Value.translate τ) := by
  cases v with
  | object fields =>
      cases patch with
      | object entries =>
          simp [upsert, fieldsOf, patchOf, applyPatch_translate, Except.map, Bind.bind, Except.bind]
      | _ => rfl
  | _ => rfl

theorem rename_translate (v : Value) (source target : String) :
    rename (v.translate τ) source target = (rename v source target).map (Value.translate τ) := by
  cases v with
  | object fields =>
      simp [rename, fieldsOf, renameField_translate, Except.map, Bind.bind, Except.bind]
  | _ => rfl

theorem remove_translate (v : Value) (key : String) :
    remove (v.translate τ) key = (remove v key).map (Value.translate τ) := by
  cases v with
  | object fields =>
      simp [remove, fieldsOf, Assoc.erase_mapValues, Except.map, Bind.bind, Except.bind]
  | _ => rfl

theorem retain_translate (v list : Value) :
    Library.retain (v.translate τ) (list.translate τ) =
      (Library.retain v list).map (Value.translate τ) := by
  rw [Library.retain, addressesOf_translate, Library.retain]
  cases addressesOf list with
  | error e => rfl
  | ok list =>
      simp [Except.map, Bind.bind, Except.bind, Value.retain_translate]

theorem reclude_translate (v list : Value) :
    Library.reclude (v.translate τ) (list.translate τ) =
      (Library.reclude v list).map (Value.translate τ) := by
  rw [Library.reclude, addressesOf_translate, Library.reclude]
  cases addressesOf list with
  | error e => rfl
  | ok list =>
      simp [Except.map, Bind.bind, Except.bind, Value.reclude_translate]

theorem leaves_translate (v : Value) :
    Library.leaves (v.translate τ) = (Library.leaves v).translate τ := by
  simp only [Library.leaves, Value.leaves_translate, Value.translate_array, List.map_map]
  rfl

theorem createAddress_translate (v : Value) :
    createAddress (v.translate τ) = (createAddress v).map (Value.translate τ) := by
  rw [createAddress, Address.ofValue?_translate, createAddress]
  cases Address.ofValue? v <;> rfl

theorem translate_decodeBase64 (s : String) :
    (decodeBase64 s).map (Value.translate τ) = decodeBase64 s := by
  rw [decodeBase64]
  cases Bytes.parseBase64 s <;> rfl

theorem translate_fromHex (s : String) : (fromHex s).map (Value.translate τ) = fromHex s := by
  rw [fromHex]
  cases Bytes.parseHex s <;> rfl

theorem translate_toText (b : Bytes) : (toText b).map (Value.translate τ) = toText b := by
  rw [toText]
  cases Bytes.readText b <;> rfl

theorem chunksOf_translate (items : List Value) :
    chunksOf (items.map (Value.translate τ)) = chunksOf items := by
  induction items with
  | nil => rfl
  | cons v rest ih => cases v <;> simp [chunksOf, ih]

theorem collected_translate (items : List Value) :
    collected (items.map (Value.translate τ)) = (collected items).translate τ := by
  have chunks : (items.map (Value.translate τ)).all Value.isBytes = items.all Value.isBytes := by
    simp [List.all_map, Function.comp_def]
  simp only [collected, chunks, List.isEmpty_map, chunksOf_translate]
  split <;> simp

theorem accepts_translate (t : ParamType) (v : Value) :
    t.accepts (v.translate τ) = t.accepts v := by
  cases t <;> cases v <;> rfl

theorem checkTypes_translate (s : Signature) (args : List Value) :
    s.checkTypes (args.map (Value.translate τ)) = s.checkTypes args := by
  unfold Signature.checkTypes
  generalize 0 = index
  induction s generalizing index args with
  | nil => cases args <;> rfl
  | cons p params ih =>
      cases args with
      | nil => rfl
      | cons v rest =>
          simp only [List.map_cons, Signature.checkTypesFrom, Value.isEmpty_translate,
            accepts_translate, Value.typeName_translate, ih]

end Library

/-- **Library functions commute with translations.** -/
theorem Function.result?_translate (f : Function) (args : List Value) :
    f.result? (args.map (Value.translate τ)) =
      (f.result? args).map (Except.map (Value.translate τ)) := by
  cases f with
  | coreType | coreCopy | coreIsEmpty | coreCount | pathPaths | pathCreate =>
      match args with
      | [v] =>
          simp [result?, Except.map, Library.isEmpty_translate, Library.count_translate,
            Library.leaves_translate, Library.createAddress_translate, Value.ofNat, Value.ofInt]
      | [] | _ :: _ :: _ => simp [result?]
  | pathValue | rawEncodeBase64 | rawToHex | rawFromString | errorKind | errorMessage
  | errorPayload =>
      match args with
      | [v] => cases v <;> simp [result?, Except.map, Address.value_translate]
      | [] | _ :: _ :: _ => simp [result?]
  | rawDecodeBase64 | rawFromHex | rawToString =>
      match args with
      | [v] =>
          cases v <;> simp [result?, Library.translate_toText, Library.translate_fromHex,
            Library.translate_decodeBase64]
      | [] | _ :: _ :: _ => simp [result?]
  | objectUpdate | objectUpsert | pathRetain | pathReclude | pathMerge =>
      match args with
      | [v, w] =>
          simp [result?, Except.map, Library.update_translate, Library.upsert_translate,
            Library.retain_translate, Library.reclude_translate, Value.merge_translate]
      | [] | [_] | _ :: _ :: _ :: _ => simp [result?]
  | objectRemove | pathGet =>
      match args with
      | [v, w] =>
          cases w <;> simp [result?, Except.map, Library.remove_translate, Value.resolve_translate]
      | [] | [_] | _ :: _ :: _ :: _ => simp [result?]
  | objectRename =>
      match args with
      | [v, k, w] => cases k <;> cases w <;> simp [result?, Library.rename_translate]
      | [] | [_] | [_, _] | _ :: _ :: _ :: _ :: _ => simp [result?]
  | errorCreate =>
      match args with
      | [k, m] => cases k <;> cases m <;> simp [result?, Except.map]
      | [k, m, payload] => cases k <;> cases m <;> simp [result?, Except.map]
      | [] | [_] | _ :: _ :: _ :: _ :: _ => simp [result?]
  | pathCurrent | errorHandled | stateGet | stateSet | streamCollect => simp [result?]

/-! ## Stored values -/

mutual

theorem Value.translate_ofJsonWith (whole : Int → Numeral) : ∀ j : Json,
    (Value.ofJsonWith whole j).translate τ = Value.ofJsonWith whole j
  | .null | .bool _ | .integer _ | .real _ | .text _ => rfl
  | .array items => by
      rw [Value.ofJsonWith, Value.translate_array, Value.translate_ofJsonItems whole items]
  | .object members => by
      rw [Value.ofJsonWith, Value.translate_object, Assoc.ofEntries, ← Assoc.insertAll_mapValues,
        Value.translate_ofJsonMembers whole members]
      rfl

theorem Value.translate_ofJsonItems (whole : Int → Numeral) : ∀ items : List Json,
    (Value.ofJsonItems whole items).map (Value.translate τ) = Value.ofJsonItems whole items
  | [] => rfl
  | j :: rest => by
      rw [Value.ofJsonItems, List.map_cons, Value.translate_ofJsonWith whole j,
        Value.translate_ofJsonItems whole rest]

theorem Value.translate_ofJsonMembers (whole : Int → Numeral) :
    ∀ members : List (String × Json),
      Assoc.mapValues (Value.translate τ) (Value.ofJsonMembers whole members) =
        Value.ofJsonMembers whole members
  | [] => rfl
  | (_, j) :: rest => by
      rw [Value.ofJsonMembers, Assoc.mapValues_cons, Value.translate_ofJsonWith whole j,
        Value.translate_ofJsonMembers whole rest]

end

namespace Store

theorem encode_translate (v : Value) : encode (v.translate τ) = encode v := by
  have json : (v.translate τ).compactJson = v.compactJson := by
    rw [Value.compactJson, Value.toJson_translate, Value.compactJson]
  cases v with
  | bytes b => rfl
  | _ => exact congrArg ("j" ++ ·) json

theorem translate_decode (key text : String) :
    (decode key text).map (Value.translate τ) = decode key text := by
  unfold decode
  split
  · cases Bytes.parseBase64 _ <;> rfl
  · rw [Value.parseJson?]
    cases Json.parse? _ with
    | none => rfl
    | some j => exact congrArg Except.ok (Value.translate_ofJsonWith τ Numeral.ofInt j)
  · rfl
  · rfl

/-- **What a store gives back holds nothing to translate**, unless it is the default. -/
theorem Backend.get_translate (attempts : Nat) (key : String) (default : Option Value)
    (b : Backend) :
    b.get attempts key (default.map (Value.translate τ)) =
      ((b.get attempts key default).1.map (Value.translate τ),
        (b.get attempts key default).2) := by
  unfold get
  rcases withRetry attempts (read key) b with ⟨_ | _ | text, after⟩
  · rfl
  · cases default with
    | none => rfl
    | some v =>
        simp only [Option.map_some, Value.isEmpty_translate, set, encode_translate]
        split
        · rfl
        · rcases withRetry attempts (write key (encode v)) after with ⟨_ | _, _⟩ <;> rfl
  · simp only [translate_decode]

end Store

/-! ## Overrides and configurations -/

namespace Overrides

theorem find?_translate (o : Overrides) (symbol : String) :
    (o.translate τ).find? symbol = (o.find? symbol).map (Override.translate τ) := by
  rw [translate_eq, find?, find?, Assoc.get?_mapValues]
  split <;> rfl

theorem translate_deactivated (o : Overrides) :
    o.deactivated.translate τ = (o.translate τ).deactivated := by
  simp [translate_eq, deactivated]

theorem translate_activated (o : Overrides) :
    o.activated.translate τ = (o.translate τ).activated := by
  simp [translate_eq, activated]

theorem translate_ofEntries (entries : List (String × Override)) :
    (ofEntries entries).translate τ =
      ofEntries (Assoc.mapValues (Override.translate τ) entries) := by
  simp [translate_eq, ofEntries]

end Overrides

def BindingConfig.translate (c : BindingConfig) : BindingConfig :=
  { c with overrides := c.overrides.translate τ }

namespace Evaluation

theorem overrideOf_translate (symbol : String) (entry : Value) :
    overrideOf symbol (entry.translate τ) =
      (overrideOf symbol entry).map (Override.translate τ) := by
  have cascade : ((entry.translate τ).member? "cascade").bind Value.bool? =
      (entry.member? "cascade").bind Value.bool? := by
    rw [Value.member?_translate]
    cases entry.member? "cascade" with
    | none => rfl
    | some v => exact Value.bool?_translate τ v
  simp only [overrideOf, cascade, Value.member?_translate τ entry "function"]
  cases entry.member? "function" with
  | none => rfl
  | some v => cases v <;> rfl

theorem overridesOf_translate (entries : List (String × Value)) :
    overridesOf (Assoc.mapValues (Value.translate τ) entries) =
      (overridesOf entries).map (Assoc.mapValues (Override.translate τ)) := by
  induction entries with
  | nil => rfl
  | cons entry rest ih =>
      obtain ⟨symbol, v⟩ := entry
      simp only [Assoc.mapValues_cons, overridesOf, overrideOf_translate, ih]
      split
      · cases overrideOf symbol v with
        | error e => rfl
        | ok o => cases overridesOf rest <;> rfl
      · rfl

theorem policyOf_translate {α : Type} (o : Options) (option : String) (default : α)
    (ofName? : String → Option α) :
    policyOf ⟨Assoc.mapValues (Value.translate τ) o.fields⟩ option default ofName? =
      policyOf o option default ofName? := by
  simp only [policyOf, Options.get?, Assoc.get?_mapValues]
  cases Assoc.get? o.fields option with
  | none => rfl
  | some v => simp only [Option.map_some, Value.text?_translate, Value.display_translate]

theorem only_translate (o : Options) (known : List String) :
    Options.only ⟨Assoc.mapValues (Value.translate τ) o.fields⟩ known = o.only known := by
  simp only [Options.only, Assoc.mapValues, List.find?_map, Function.comp_def]
  cases List.find? (fun field => !known.contains field.1) o.fields <;> rfl

theorem ofValue_translate (v : Value) : Options.ofValue (v.translate τ) =
    (Options.ofValue v).map fun o => ⟨Assoc.mapValues (Value.translate τ) o.fields⟩ := by
  cases v <;> first | rfl | simp [Options.ofValue, Except.map]

/-- **Configurations commute with translations**: only the functions of overrides change. -/
theorem configOf_translate (settings : Settings) (v : Value) :
    configOf settings (v.translate τ) =
      (configOf settings v).map (BindingConfig.translate τ) := by
  unfold configOf
  rw [ofValue_translate]
  cases Options.ofValue v with
  | error e => rfl
  | ok o =>
      have bind : Options.get? ⟨Assoc.mapValues (Value.translate τ) o.fields⟩ "bind" =
          (o.get? "bind").map (Value.translate τ) := Assoc.get?_mapValues _ o.fields "bind"
      simp only [Except.map, Bind.bind, Except.bind, only_translate, policyOf_translate, bind]
      cases o.only ["reset", "evaluate", "bind"] with
      | error e => rfl
      | ok _ =>
          cases policyOf o "reset" settings.reset ResetPolicy.ofName? with
          | error e => rfl
          | ok reset =>
              cases policyOf o "evaluate" settings.timing Timing.ofName? with
              | error e => rfl
              | ok timing =>
                  cases o.get? "bind" with
                  | none => rfl
                  | some v =>
                      cases v with
                      | object entries =>
                          simp only [Option.map_some, Value.translate_object,
                            overridesOf_translate]
                          cases overridesOf entries with
                          | error e => rfl
                          | ok entries =>
                              simp only [Except.map, BindingConfig.translate,
                                Overrides.translate_ofEntries]
                      | _ => rfl

theorem cursorAfter_translate (keep : Bool) (step : Expr) (cursor : Option Address)
    (before result : Value) :
    cursorAfter (step.trim keep) (cursor.map (Address.translate τ)) (before.translate τ)
        (result.translate τ) =
      (cursorAfter step cursor before result).translate τ := by
  cases cursor with
  | none => cases step <;> simp [cursorAfter, Expr.trim, Address.linkedTo_translate]
  | some a =>
      cases step with
      | member key =>
          simp only [Expr.trim, cursorAfter, Option.map_some, Value.isObject_translate]
          split
          · exact Address.child_translate τ a (.key key)
          · exact Address.linkedTo_translate τ [] result
      | element i =>
          simp only [Expr.trim, cursorAfter, Option.map_some, Value.isArray_translate]
          split
          · exact Address.child_translate τ a (.index i)
          · exact Address.linkedTo_translate τ [] result
      | _ => simp [cursorAfter, Expr.trim, Address.linkedTo_translate]

end Evaluation

end TreeQuery
