import Mathlib
import TreeQuery.Operation
import TreeQuery.Proofs.Tree

/-!
# Equality

Values are compared in two ways: operators use `comparison?`, which gives no verdict on values of
different kinds, and everything else uses `Value.same`. The two agree at every depth
(`looseEq_eq_same`), the verdict does not depend on the order of the operands (`Value.same_comm`),
and a value is equal to itself unless it contains a number that is not one (`Value.same_self`).

Members of objects are compared by key. That the order of the operands does not matter rests on
keys that are not repeated: in two objects of one size, the keys of the one are then all the keys of
the other if they are among them (`Assoc.paired_back`). The payload and the causes of an error are
compared as well, so they count among the parts of a value (`Value.HasPart`).
-/

set_option autoImplicit false

namespace TreeQuery

/-! ## Doubles -/

namespace Decimal

open Float.Model

theorem compare_swap (u v : UnpackedFloat) : v.compare u = (u.compare v).map Ordering.swap := by
  rcases u with s | _ | s | ⟨s, m, e, _⟩ <;> rcases v with t | _ | t | ⟨t, n, d, _⟩
  case finite.finite =>
    cases s <;> cases t <;>
      simp [UnpackedFloat.compare, Ordering.swap_then, Std.OrientedOrd.eq_swap (a := d),
        Std.OrientedOrd.eq_swap (a := n)]
  all_goals first | rfl | (cases s <;> rfl) | (cases t <;> rfl) | (cases s <;> cases t <;> rfl)

theorem beq_comm (x y : Float) : (x == y) = (y == x) := by
  change (x.toModel.unpack.compare y.toModel.unpack == some .eq) =
    (y.toModel.unpack.compare x.toModel.unpack == some .eq)
  rw [compare_swap y.toModel.unpack]
  rcases y.toModel.unpack.compare x.toModel.unpack with _ | _ | _ | _ <;> rfl

theorem beq_self {x : Float} (number : x.isNaN = false) : (x == x) = true := by
  change (x.toModel.unpack.compare x.toModel.unpack == some .eq) = true
  change x.toModel.unpack.isNaN = false at number
  generalize x.toModel.unpack = u at number
  cases u with
  | notANumber => cases number
  | infinity s | zero s => cases s <;> rfl
  | finite s m e positive => cases s <;> simp [UnpackedFloat.compare]

theorem isNaN_of_isFinite {x : Float} (finite : x.isFinite = true) : x.isNaN = false := by
  change x.toModel.unpack.isFinite = true at finite
  change x.toModel.unpack.isNaN = false
  generalize x.toModel.unpack = u at finite
  cases u with
  | notANumber => cases finite
  | _ => rfl

end Decimal

theorem Precision.larger_comm (p q : Precision) : p.larger q = q.larger p := by
  unfold larger
  split <;> split <;> first | rfl | (ext; omega)

namespace Numeral

theorem isNaN_roundTo {x : Float} (number : x.isNaN = false) (places : Precision) :
    (roundTo x places).isNaN = false := by
  unfold roundTo
  split
  · dsimp only
    split
    · exact Decimal.isNaN_of_isFinite ‹_›
    · exact number
  · exact number

theorem eq_comm (a b : Numeral) : a.eq b = b.eq a := by
  simp only [eq, Precision.larger_comm b.precision a.precision, Decimal.beq_comm (roundTo b.value _),
    Bool.and_comm (!b.value.isNaN)]

theorem eq_self {n : Numeral} (number : n.value.isNaN = false) : n.eq n = true := by
  simp only [eq, number, Decimal.beq_self (isNaN_roundTo number _), Bool.not_false, Bool.and_self]

end Numeral

/-! ## Parts of values -/

namespace Value

/-- The value itself, and what its elements, its members, its payload and its cause have in them. -/
inductive HasPart : Value → Value → Prop
  | whole (v : Value) : HasPart v v
  | element {items : List Value} {v w : Value} (among : v ∈ items) (part : HasPart v w) :
      HasPart (.array items) w
  | member {fields : List (String × Value)} {field : String × Value} {w : Value}
      (among : field ∈ fields) (part : HasPart field.2 w) : HasPart (.object fields) w
  | payload {f : Fault} {w : Value} (part : HasPart f.payload w) : HasPart (.fault f) w
  | cause {f g : Fault} {w : Value} (caused : f.cause = some g) (part : HasPart (.fault g) w) :
      HasPart (.fault f) w

def EveryPart (p : Value → Prop) (v : Value) : Prop :=
  ∀ w, v.HasPart w → p w

/-- No object in the value repeats a key. -/
def UniqueKeys (v : Value) : Prop :=
  v.EveryPart fun w => ∀ fields, w = .object fields → (Assoc.keys fields).Nodup

/-- Every number in the value is one. -/
def NaNFree (v : Value) : Prop :=
  v.EveryPart fun w => ∀ n, w = .number n → n.value.isNaN = false

namespace EveryPart

variable {p : Value → Prop}

theorem whole {v : Value} (every : v.EveryPart p) : p v :=
  every v (.whole v)

theorem element {items : List Value} (every : EveryPart p (.array items)) {v : Value}
    (among : v ∈ items) : v.EveryPart p :=
  fun w part => every w (.element among part)

theorem member {fields : List (String × Value)} (every : EveryPart p (.object fields))
    {field : String × Value} (among : field ∈ fields) : field.2.EveryPart p :=
  fun w part => every w (.member among part)

theorem payload {f : Fault} (every : EveryPart p (.fault f)) : f.payload.EveryPart p :=
  fun w part => every w (.payload part)

theorem cause {f g : Fault} (every : EveryPart p (.fault f)) (caused : f.cause = some g) :
    EveryPart p (.fault g) :=
  fun w part => every w (.cause caused part)

end EveryPart

section Parts

variable {p : Value → Prop}

theorem everyPart_leaf {v : Value} (leaf : (v.isStructure || v.isFault) = false) :
    v.EveryPart p ↔ p v := by
  refine ⟨EveryPart.whole, fun here w part => ?_⟩
  cases part with
  | whole => exact here
  | element | member | payload | cause => cases leaf

theorem everyPart_array {items : List Value} :
    EveryPart p (.array items) ↔ p (.array items) ∧ ∀ v ∈ items, v.EveryPart p := by
  refine ⟨fun every => ⟨every.whole, fun _ => every.element⟩, fun ⟨here, each⟩ w part => ?_⟩
  cases part with
  | whole => exact here
  | element among part => exact each _ among w part

theorem everyPart_object {fields : List (String × Value)} :
    EveryPart p (.object fields) ↔ p (.object fields) ∧ ∀ field ∈ fields, field.2.EveryPart p := by
  refine ⟨fun every => ⟨every.whole, fun _ => every.member⟩, fun ⟨here, each⟩ w part => ?_⟩
  cases part with
  | whole => exact here
  | member among part => exact each _ among w part

theorem everyPart_fault {f : Fault} (first : f.cause = none) :
    EveryPart p (.fault f) ↔ p (.fault f) ∧ f.payload.EveryPart p := by
  refine ⟨fun every => ⟨every.whole, every.payload⟩, fun ⟨here, payload⟩ w part => ?_⟩
  cases part with
  | whole => exact here
  | payload part => exact payload w part
  | cause caused part => cases first.symm.trans caused

end Parts

end Value

/-! ## The two recursions agree -/

namespace Operation

theorem itemsEqual_eq_sameItems {items : List Value}
    (each : ∀ v ∈ items, ∀ w, looseEq v w = v.same w) (others : List Value) :
    (items.length == others.length && itemsEqual items others) = Value.sameItems items others := by
  induction items generalizing others with
  | nil => cases others <;> rfl
  | cons v rest ih =>
      cases others with
      | nil => rfl
      | cons w others =>
          have first : (comparison? v w).getD false = v.same w := each v (List.mem_cons_self ..) w
          have later := ih (fun u among => each u (List.mem_cons_of_mem _ among)) others
          have lengths : ((v :: rest).length == (w :: others).length) =
              (rest.length == others.length) := by simp
          rw [itemsEqual, Value.sameItems, first, ← later, lengths, Bool.and_left_comm]

theorem fieldsEqual_eq_sameFields {fields : List (String × Value)}
    (each : ∀ field ∈ fields, ∀ w, looseEq field.2 w = field.2.same w)
    (others : List (String × Value)) :
    fieldsEqual fields others = Value.sameFields fields others := by
  induction fields with
  | nil => rfl
  | cons field rest ih =>
      obtain ⟨key, v⟩ := field
      have first : ∀ w, (comparison? v w).getD false = v.same w :=
        each (key, v) (List.mem_cons_self ..)
      rw [fieldsEqual, Value.sameFields, ih fun u among => each u (List.mem_cons_of_mem _ among)]
      cases Assoc.get? others key with
      | none => rfl
      | some w => simp only [first]

/-- **Equality inside containers is sameness**, whatever the two values are. -/
theorem looseEq_eq_same (a b : Value) : looseEq a b = a.same b := by
  induction a using Value.partInduction generalizing b with
  | leaf v plain noFault =>
      cases v with
      | array _ | object _ => cases plain
      | fault _ => cases noFault
      | _ => cases b <;> rfl
  | array items ih =>
      cases b with
      | array others => exact itemsEqual_eq_sameItems ih others
      | _ => rfl
  | object fields ih =>
      cases b with
      | object others =>
          have members := fieldsEqual_eq_sameFields ih others
          rw [Value.same, ← members]
          rfl
      | _ => rfl
  | fault f _ _ => cases b <;> rfl

/-- The kind of a value: the name of its type, but the truth values are of one kind. -/
def kind : Value → String
  | .bool _ => "Boolean"
  | v => v.typeName

/-- Values of one kind can be compared, and empty and null with everything. -/
def comparable (a b : Value) : Bool :=
  kind a == kind b || a.isEmpty || a.isNull || b.isEmpty || b.isNull

theorem isSome_comparison? (a b : Value) : (comparison? a b).isSome = comparable a b := by
  cases a <;> cases b <;> rfl

theorem equals_eq_same (a b : Value) :
    equals a b = if comparable a b then .ok (a.same b) else .error (mismatch .equal a b) := by
  rw [← looseEq_eq_same, ← isSome_comparison?, equals, looseEq]
  cases comparison? a b <;> rfl

theorem comparable_comm (a b : Value) : comparable a b = comparable b a := by
  unfold comparable
  rw [Bool.beq_comm (a := kind a)]
  ac_rfl

end Operation

/-! ## Order of the operands -/

namespace Assoc

variable {κ α : Type} [DecidableEq κ]

/-- Where every entry of an association has a partner of its key in one that is no larger, every
entry of that has its partner in the first. -/
theorem paired_back {R : α → α → Prop} {m n : Assoc κ α} (unique : (keys m).Nodup)
    (uniqueOther : (keys n).Nodup) (size : n.length ≤ m.length)
    (paired : ∀ entry ∈ m, ∃ w, get? n entry.1 = some w ∧ R entry.2 w) :
    ∀ entry ∈ n, ∃ v, get? m entry.1 = some v ∧ R v entry.2 := by
  have within : keys m ⊆ keys n := by
    intro key among
    obtain ⟨entry, here, rfl⟩ := List.mem_map.mp among
    obtain ⟨w, found, _⟩ := paired entry here
    exact List.mem_map.mpr ⟨_, mem_of_get? found, rfl⟩
  have all : (keys m).Perm (keys n) :=
    (List.subperm_of_subset unique within).perm_of_length_le (by simpa [keys] using size)
  intro entry among
  obtain ⟨other, here, same⟩ := List.mem_map.mp (all.symm.subset (List.mem_map_of_mem among))
  obtain ⟨w, found, related⟩ := paired other here
  have itself : get? n other.1 = some entry.2 := same ▸ get?_of_mem uniqueOther among
  rw [found, Option.some.injEq] at itself
  exact ⟨other.2, same ▸ get?_of_mem unique here, itself ▸ related⟩

end Assoc

namespace Value

theorem sameItems_comm {items : List Value} {others : List Value}
    (each : ∀ v ∈ items, ∀ w ∈ others, v.same w = w.same v) :
    sameItems items others = sameItems others items := by
  induction items generalizing others with
  | nil => cases others <;> rfl
  | cons v rest ih =>
      cases others with
      | nil => rfl
      | cons w others =>
          have later := ih fun u among x amongOthers =>
            each u (List.mem_cons_of_mem _ among) x (List.mem_cons_of_mem _ amongOthers)
          rw [sameItems, sameItems, each v (List.mem_cons_self ..) w (List.mem_cons_self ..), later]

theorem sameFields_iff (fields others : List (String × Value)) :
    sameFields fields others = true ↔
      ∀ field ∈ fields, ∃ w, Assoc.get? others field.1 = some w ∧ field.2.same w = true := by
  induction fields with
  | nil => simp [sameFields]
  | cons field rest ih =>
      obtain ⟨key, v⟩ := field
      rw [sameFields, Bool.and_eq_true, ih, List.forall_mem_cons]
      cases Assoc.get? others key <;> simp

/-- The members of one object have partners in the other, if those of the other have. -/
theorem sameFields_back {fields others : List (String × Value)} (unique : (Assoc.keys fields).Nodup)
    (uniqueOther : (Assoc.keys others).Nodup) (size : fields.length = others.length)
    (each : ∀ field ∈ fields, ∀ other ∈ others, field.2.same other.2 = other.2.same field.2)
    (same : sameFields fields others = true) : sameFields others fields = true := by
  rw [sameFields_iff] at same ⊢
  have back := Assoc.paired_back (R := fun v w => w.same v = true) unique uniqueOther size.ge
    fun field among => by
      obtain ⟨w, found, equal⟩ := same field among
      exact ⟨w, found, each field among _ (Assoc.mem_of_get? found) ▸ equal⟩
  exact back

theorem sameCause_comm {f g : Option Fault}
    (each : ∀ a, f = some a → ∀ b, g = some b → Fault.same a b = Fault.same b a) :
    Fault.sameCause f g = Fault.sameCause g f := by
  cases f with
  | none => cases g <;> rfl
  | some a =>
      cases g with
      | none => rfl
      | some b => exact each a rfl b rfl

/-- **Sameness does not depend on which value comes first**, as long as no object repeats a key. -/
theorem same_comm {a b : Value} (unique : a.UniqueKeys) (uniqueOther : b.UniqueKeys) :
    a.same b = b.same a := by
  induction a using partInduction generalizing b with
  | leaf v plain noFault =>
      cases v with
      | array _ | object _ => cases plain
      | fault _ => cases noFault
      | number n =>
          cases b with
          | number k => exact Numeral.eq_comm n k
          | _ => rfl
      | _ => cases b <;> first | rfl | exact BEq.comm
  | array items ih =>
      cases b with
      | array others =>
          exact sameItems_comm fun v among w amongOthers =>
            ih v among (unique.element among) (uniqueOther.element amongOthers)
      | _ => rfl
  | object fields ih =>
      cases b with
      | object others =>
          have each : ∀ field ∈ fields, ∀ other ∈ others,
              field.2.same other.2 = other.2.same field.2 := fun field among other amongOthers =>
            ih field among (unique.member among) (uniqueOther.member amongOthers)
          have keys := unique.whole fields rfl
          have otherKeys := uniqueOther.whole others rfl
          by_cases size : fields.length = others.length
          · have verdicts : sameFields fields others = sameFields others fields :=
              Bool.eq_iff_iff.mpr ⟨sameFields_back keys otherKeys size each,
                sameFields_back otherKeys keys size.symm fun other amongOthers field among =>
                  (each field among other amongOthers).symm⟩
            rw [same, same, verdicts, size]
          · rw [same, same, beq_false_of_ne size, beq_false_of_ne (Ne.symm size)]
            rfl
      | _ => rfl
  | fault f payload cause =>
      cases b with
      | fault g =>
          have payloads := payload unique.payload uniqueOther.payload
          have causes := sameCause_comm fun a here b there =>
            cause a here (unique.cause here) (uniqueOther.cause there)
          obtain ⟨_, _, _, _, _, _, _, _⟩ := f
          obtain ⟨_, _, _, _, _, _, _, _⟩ := g
          simp only at payloads causes
          simp only [same, Fault.same, payloads, causes, BEq.comm]
      | _ => rfl

/-- With a repeated key, an object can have a same one that it is not the same as. -/
example :
    let twice : Value := .object [("k", .null), ("k", .null)]
    let once : Value := .object [("k", .null), ("l", .null)]
    twice.same once = true ∧ once.same twice = false := by
  decide

/-! ## Equality of a value and itself -/

theorem sameItems_self {items : List Value} (each : ∀ v ∈ items, v.same v = true) :
    sameItems items items = true := by
  induction items with
  | nil => rfl
  | cons v rest ih =>
      rw [sameItems, each v (List.mem_cons_self ..),
        ih fun u among => each u (List.mem_cons_of_mem _ among), Bool.and_self]

theorem sameCause_self {f : Option Fault} (each : ∀ a, f = some a → Fault.same a a = true) :
    Fault.sameCause f f = true := by
  cases f with
  | none => rfl
  | some a => exact each a rfl

/-- **A value is the same as itself** if it contains no number that is not one. -/
theorem same_self {v : Value} (unique : v.UniqueKeys) (numbers : v.NaNFree) : v.same v = true := by
  induction v using partInduction with
  | leaf v plain noFault =>
      cases v with
      | array _ | object _ => cases plain
      | fault _ => cases noFault
      | number n => exact Numeral.eq_self (numbers.whole n rfl)
      | _ => simp [same]
  | array items ih =>
      exact sameItems_self fun v among => ih v among (unique.element among) (numbers.element among)
  | object fields ih =>
      have members : sameFields fields fields = true :=
        (sameFields_iff fields fields).mpr fun field among =>
          ⟨field.2, Assoc.get?_of_mem (unique.whole fields rfl) among,
            ih field among (unique.member among) (numbers.member among)⟩
      rw [same, members, beq_self_eq_true, Bool.and_self]
  | fault f payload cause =>
      have payloads := payload unique.payload numbers.payload
      have causes := sameCause_self fun a here => cause a here (unique.cause here) (numbers.cause here)
      obtain ⟨_, _, _, _, _, _, _, _⟩ := f
      simp only at payloads causes
      simp only [same, Fault.same, payloads, causes, beq_self_eq_true, Bool.and_self]

end Value

namespace Operation

/-- **The two equalities agree and are symmetric.** Without regard to kinds they give one verdict;
the operator fails exactly on values that cannot be compared and gives this verdict otherwise; the
other order of the operands fails as well, or gives the same; and a value is equal to itself unless
a number in it is not one. -/
theorem equalities_agree {a b : Value} (unique : a.UniqueKeys) (uniqueOther : b.UniqueKeys) :
    looseEq a b = a.same b ∧ a.same b = b.same a ∧
      equals a b = (if comparable a b then .ok (a.same b) else .error (mismatch .equal a b)) ∧
      (equals a b).toOption = (equals b a).toOption ∧
      (a.NaNFree → equals a a = .ok true) := by
  have symmetric : a.same b = b.same a := Value.same_comm unique uniqueOther
  have turned : (equals a b).toOption = (equals b a).toOption := by
    rw [equals_eq_same, equals_eq_same, comparable_comm, symmetric]
    cases comparable b a <;> rfl
  refine ⟨looseEq_eq_same a b, symmetric, equals_eq_same a b, turned, fun numbers => ?_⟩
  have itself : comparable a a = true := by simp [comparable]
  rw [equals_eq_same, itself, if_pos rfl, Value.same_self unique numbers]

/-- Members in another order, in an object and in the payload of an error in it. -/
theorem equalities_agree_reordered :
    let failure : List (String × Value) → Value := fun payload =>
      .fault ((Fault.evaluation "m").withPayload (.object payload))
    let a : Value := .object
      [("e", failure [("x", .null), ("y", .bool true)]), ("n", .array [.ofInt 2, .text "t"])]
    let b : Value := .object
      [("n", .array [.ofInt 2, .text "t"]), ("e", failure [("y", .bool true), ("x", .null)])]
    a.UniqueKeys ∧ b.UniqueKeys ∧ a.NaNFree ∧ looseEq a b = true ∧ equals b a = .ok true ∧
      equals a a = .ok true ∧ comparable a .null = true ∧ comparable a (.text "t") = false := by
  intro failure a b
  have unique : a.UniqueKeys ∧ b.UniqueKeys := by
    simp (disch := decide) [a, b, failure, Value.UniqueKeys, Value.everyPart_array,
      Value.everyPart_object, Value.everyPart_fault, Value.everyPart_leaf, Fault.evaluation, Fault.of,
      Fault.withPayload, Assoc.keys, Value.ofInt]
  have numbers : a.NaNFree := by
    have two : (Numeral.ofInt 2).value.isNaN = false := by decide +kernel
    simpa (disch := decide) [a, failure, Value.NaNFree, Value.everyPart_array, Value.everyPart_object,
      Value.everyPart_fault, Value.everyPart_leaf, Fault.evaluation, Fault.of, Fault.withPayload,
      Value.ofInt] using two
  have same : a.same b = true := by decide +kernel
  have forth := equalities_agree unique.1 unique.2
  have back := equalities_agree unique.2 unique.1
  have turned : equals b a = .ok true := by
    rw [back.2.2.1, back.2.1, same]
    rfl
  exact ⟨unique.1, unique.2, numbers, forth.1.trans same, turned, forth.2.2.2.2 numbers, rfl, rfl⟩

end Operation

end TreeQuery
