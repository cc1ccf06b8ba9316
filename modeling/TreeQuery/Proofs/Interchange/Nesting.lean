import TreeQuery.Proofs.Interchange.Digits
import TreeQuery.Proofs.Interchange.Stored
import TreeQuery.Proofs.Retrying

/-!
# Which stored values can be read

Writing has no limit and reading has: no more than 127 containers may stand inside each other. That
is the only difference. The tree of a value, whatever the value is, has whole numbers of 64 bits and
doubles, and the text of such a tree can be read exactly if it is not nested any deeper
(`Json.Bounded.reads`). So a value that was stored is given back, or cannot be decoded, according to
the nesting of its tree alone (`Store.get_stored`).
-/

set_option autoImplicit false

namespace TreeQuery.Json

/-! ## Nesting -/

mutual

/-- How many containers of a tree stand inside each other. -/
def nesting : Json → Nat
  | .array items => nestingItems items + 1
  | .object members => nestingMembers members + 1
  | _ => 0

def nestingItems : List Json → Nat
  | [] => 0
  | j :: rest => max (nesting j) (nestingItems rest)

def nestingMembers : List (String × Json) → Nat
  | [] => 0
  | (_, j) :: rest => max (nesting j) (nestingMembers rest)

end

theorem nestingItems_le {items : List Json} {n : Nat} :
    nestingItems items ≤ n ↔ ∀ j ∈ items, j.nesting ≤ n := by
  induction items with
  | nil => simp [nestingItems]
  | cons j items ih => simp [nestingItems, ih]

theorem nestingMembers_le {members : List (String × Json)} {n : Nat} :
    nestingMembers members ≤ n ↔ ∀ m ∈ members, m.2.nesting ≤ n := by
  induction members with
  | nil => simp [nestingMembers]
  | cons m members ih =>
      obtain ⟨key, j⟩ := m
      simp [nestingMembers, ih]

/-! ## Trees that can be read if they are not too deep -/

/-- A tree whose whole numbers have 64 bits. -/
inductive Bounded : Json → Prop
  | null : Bounded .null
  | bool (b : Bool) : Bounded (.bool b)
  | integer {n : Int} (low : -2 ^ 63 ≤ n) (high : n < 2 ^ 64) : Bounded (.integer n)
  | real (x : Float) : Bounded (.real x)
  | text (s : String) : Bounded (.text s)
  | array {items : List Json} (each : ∀ j ∈ items, Bounded j) : Bounded (.array items)
  | object {members : List (String × Json)} (each : ∀ m ∈ members, Bounded m.2) :
      Bounded (.object members)

theorem isSome_mapM {α β : Type} (f : α → Option β) (items : List α) :
    (items.mapM f).isSome ↔ ∀ a ∈ items, (f a).isSome := by
  induction items with
  | nil => simp
  | cons a items ih =>
      rw [List.mapM_cons]
      cases here : f a with
      | none => simp [here]
      | some b =>
          cases later : items.mapM f with
          | none =>
              rw [later] at ih
              simpa [here] using ih
          | some bs =>
              rw [later] at ih
              simpa [here] using ih

theorem Bounded.starts {j : Json} (bounded : Bounded j) : Starts (chars j) := by
  have legibly : ∀ {j : Json}, Legible 0 j → Starts (chars j) := fun legible => legible.starts
  cases bounded with
  | null => exact legibly .null
  | bool b => exact legibly (.bool b)
  | integer low high => exact legibly (.integer low high)
  | real x => exact (readValue_real x).1
  | text s => exact legibly (.text s)
  | array each => exact ⟨_, _, by rw [chars]; rfl, by decide⟩
  | object each => exact ⟨_, _, by rw [chars]; rfl, by decide⟩

/-- **The text of a tree can be read exactly if the tree is not nested too deep**, and what it is
read as does not depend on what follows. -/
theorem Bounded.reads {j : Json} (bounded : Bounded j) (depth : Nat) :
    ∃ read : Option Json, (read.isSome ↔ j.nesting ≤ depth) ∧
      ∀ rest, EndsNumber rest → readValue depth (chars j ++ rest) = read.map (·, rest) := by
  have atom : ∀ {j : Json} (depth : Nat), Legible depth j → j.nesting = 0 →
      ∃ read : Option Json, (read.isSome ↔ j.nesting ≤ depth) ∧
        ∀ rest, EndsNumber rest → readValue depth (chars j ++ rest) = read.map (·, rest) :=
    fun depth legible flat =>
      ⟨some _, by simp [flat], fun rest ends => readValue_chars legible ends⟩
  induction bounded generalizing depth with
  | null => exact atom depth .null rfl
  | bool b => exact atom depth (.bool b) rfl
  | integer low high => exact atom depth (.integer low high) rfl
  | text s => exact atom depth (.text s) rfl
  | real x =>
      obtain ⟨-, j, reads⟩ := readValue_real x
      exact ⟨some j, by simp [nesting], reads depth⟩
  | @array items each ih =>
      cases depth with
      | zero =>
          refine ⟨none, by simp [nesting], fun rest ends => ?_⟩
          rw [chars, readValue_eq]
          rfl
      | succ depth =>
          choose! reads readable read using fun j member => ih j member depth
          refine ⟨(items.mapM reads).map .array, ?_, fun rest ends => ?_⟩
          · rw [Option.isSome_map, isSome_mapM, nesting, Nat.add_le_add_iff_right, nestingItems_le]
            exact forall₂_congr readable
          · rw [readValue_array reads (fun j member => (each j member).starts) read, Option.map_map]
            rfl
  | @object members each ih =>
      cases depth with
      | zero =>
          refine ⟨none, by simp [nesting], fun rest ends => ?_⟩
          rw [chars, readValue_eq]
          rfl
      | succ depth =>
          have values : ∀ j, (∃ key, (key, j) ∈ members) → ∃ read : Option Json,
              (read.isSome ↔ j.nesting ≤ depth) ∧ ∀ rest, EndsNumber rest →
                readValue depth (chars j ++ rest) = read.map (·, rest) := by
            rintro j ⟨key, member⟩
            exact ih (key, j) member depth
          choose! reads readable read using values
          refine ⟨(members.mapM (readMember reads)).map .object, ?_, fun rest ends => ?_⟩
          · rw [Option.isSome_map, isSome_mapM, nesting, Nat.add_le_add_iff_right,
              nestingMembers_le]
            refine forall₂_congr fun m member => ?_
            rw [readMember, Option.isSome_map]
            exact readable m.2 ⟨m.1, member⟩
          · rw [readValue_object reads fun m member => read m.2 ⟨m.1, member⟩, Option.map_map]
            rfl

/-- A text is accepted exactly if its tree is not nested deeper than the reader goes. -/
theorem Bounded.isSome_parse? {j : Json} (bounded : Bounded j) :
    (parse? j.compact).isSome ↔ j.nesting ≤ maxNesting := by
  obtain ⟨read, readable, reads⟩ := bounded.reads maxNesting
  have whole := reads [] .nil
  rw [List.append_nil] at whole
  rw [← readable]
  simp only [parse?, readAll?, compact, String.toList_ofList, whole, Option.bind_eq_bind]
  cases read with
  | none => rfl
  | some k => exact ⟨fun _ => rfl, fun _ => rfl⟩

end TreeQuery.Json

namespace TreeQuery

/-! ## The tree of a value -/

theorem Numeral.bounded_toJson (n : Numeral) : n.toJson.Bounded := by
  unfold Numeral.toJson
  split
  · split
    · rename_i i whole
      unfold Numeral.toInt? at whole
      split at whole
      · cases whole
      · split at whole
        · rename_i b exact range
          cases whole
          obtain ⟨-, low, high⟩ := range
          have power : (twoTo 63 : Int) = 2 ^ 63 := rfl
          rw [power] at low high
          exact .integer (by omega) (by omega)
        · cases whole
    · exact .real n.rounded
  · exact .null

namespace Value

theorem optionalText_bounded {key : String} {s : Option String} {m : String × Json}
    (member : m ∈ optionalText key s) : m.2.Bounded := by
  cases s with
  | none => cases member
  | some s =>
      cases List.mem_singleton.mp member
      exact .text s

mutual

/-- The tree of every value has whole numbers of 64 bits. -/
theorem bounded_toJson : ∀ v : Value, v.toJson.Bounded
  | .empty => .null
  | .null => .null
  | .bool b => .bool b
  | .number n => n.bounded_toJson
  | .text s => .text s
  | .bytes b => .text _
  | .array items => .array (bounded_toJsonItems items)
  | .object fields => .object (bounded_toJsonFields fields)
  | .fault ⟨kind, code, message, payload, library, function, location, _⟩ => by
      have inside := bounded_toJson payload
      rw [toJson]
      refine .object fun m member => ?_
      simp only [List.mem_append, List.mem_singleton] at member
      rcases member with (((((rfl | optional) | rfl) | value) | optional) | optional) | optional
      · exact .text _
      · exact optionalText_bounded optional
      · exact .text _
      · split at value
        · cases value
        · cases List.mem_singleton.mp value
          exact inside
      · exact optionalText_bounded optional
      · exact optionalText_bounded optional
      · exact optionalText_bounded optional
  | .address a => .text _
  | .stream _ => .text _
  | .lambda _ => .text _

theorem bounded_toJsonItems : ∀ items : List Value, ∀ j ∈ toJsonItems items, j.Bounded
  | [], j, member => by cases member
  | v :: rest, j, member => by
      rw [toJsonItems] at member
      split at member
      · exact bounded_toJsonItems rest j member
      · rcases List.mem_cons.mp member with rfl | later
        · exact bounded_toJson v
        · exact bounded_toJsonItems rest j later

theorem bounded_toJsonFields : ∀ fields : List (String × Value), ∀ m ∈ toJsonFields fields,
    m.2.Bounded
  | [], m, member => by cases member
  | (key, v) :: rest, m, member => by
      rw [toJsonFields] at member
      split at member
      · exact bounded_toJsonFields rest m member
      · rcases List.mem_cons.mp member with rfl | later
        · exact bounded_toJson v
        · exact bounded_toJsonFields rest m later

end

end Value

namespace Store

/-! ## The stored text -/

/-- A stored text is decoded, or is malformed JSON, by the nesting of the tree alone. -/
theorem decode_encode_cases (key : String) (v : Value) :
    v.toJson.nesting ≤ Json.maxNesting ∧ (∃ w, decode key (encode v) = .ok w) ∨
      Json.maxNesting < v.toJson.nesting ∧
        decode key (encode v) = .error (.codec key "malformed JSON") := by
  by_cases raw : ∃ b, v = .bytes b
  · obtain ⟨b, rfl⟩ := raw
    exact .inl ⟨Nat.zero_le _, .bytes b, decode_encode key (.bytes b)⟩
  · have tagged : (encode v).toList = 'j' :: v.compactJson.toList := by
      have text : encode v = "j" ++ v.compactJson := by
        cases v with
        | bytes b => exact absurd ⟨b, rfl⟩ raw
        | _ => rfl
      rw [text]
      exact toList_tagged 'j' _
    have readable := v.bounded_toJson.isSome_parse?
    simp only [decode, tagged, String.ofList_toList, Value.parseJson?, Value.compactJson]
    cases parsed : Json.parse? v.toJson.compact with
    | some j =>
        rw [parsed] at readable
        exact .inl ⟨readable.mp rfl, _, rfl⟩
    | none =>
        rw [parsed] at readable
        refine .inr ⟨Nat.lt_of_not_le fun shallow => ?_, rfl⟩
        cases readable.mpr shallow

theorem entry?_set {b : Backend} {attempts : Nat} {key : String} {v : Value}
    (accepted : (b.set attempts key v).1 = .ok ()) :
    Backend.entry? (b.set attempts key v).2 key = some (encode v) := by
  rw [Backend.set_eq] at accepted ⊢
  split at accepted
  · cases accepted
  · rename_i through
    rw [if_neg through]
    exact (Assoc.get?_insert b.entries key key (encode v)).trans (if_pos rfl)

theorem get_found {b : Backend} {key text : String} (found : b.entry? key = some text)
    (attempts : Nat) (default : Option Value) :
    (b.get attempts key default).1 =
      if max attempts 1 ≤ b.failures then .error (.exhausted (max attempts 1) Backend.refusal)
      else decode key text := by
  rw [Backend.get, Backend.withRetry_eq]
  by_cases refused : max attempts 1 ≤ b.failures
  · rw [if_pos refused, if_pos refused]
  · simp only [if_neg refused, Backend.read, Backend.entry?_reachable, found]

/-- **What is stored can be read exactly up to a nesting of 127 containers.** After a set that was
accepted, and any requests that write nothing under its key, a get that does not run out of attempts
gives the decoding of the text that was set. There is one, whatever the value, as long as no more
containers of its tree stand inside each other than the reader takes. A deeper value is accepted all
the same, and then no get that reaches the backend can decode it. -/
theorem get_stored (b : Backend) (writer : Nat) (key : String) (v : Value)
    (accepted : (b.set writer key v).1 = .ok ()) (requests : List Request)
    (untouched : ∀ w ∈ writes (b.set writer key v).2 requests, w.1 ≠ key) (reader : Nat)
    (default : Option Value) :
    let after := run (b.set writer key v).2 requests
    let got := (after.get reader key default).1
    ((∃ w, decode key (encode v) = .ok w) ↔ v.toJson.nesting ≤ Json.maxNesting) ∧
    (after.failures < max reader 1 → got = decode key (encode v)) ∧
    ((∃ reason, got = .error (.codec key reason)) ↔
      after.failures < max reader 1 ∧ Json.maxNesting < v.toJson.nesting) := by
  intro after got
  have written : after.entry? key = some (encode v) := by
    have none : Assoc.get? (writes (b.set writer key v).2 requests).reverse key = none := by
      rw [Assoc.get?_eq_none_iff]
      intro member
      obtain ⟨w, inside, same⟩ := List.mem_map.mp member
      exact untouched w (List.mem_reverse.mp inside) same
    rw [entry?_run, none, entry?_set accepted]
    rfl
  have answer : got = _ := get_found written reader default
  have cases := decode_encode_cases key v
  have readable : (∃ w, decode key (encode v) = .ok w) ↔ v.toJson.nesting ≤ Json.maxNesting := by
    rcases cases with ⟨shallow, decoded⟩ | ⟨deep, malformed⟩
    · exact ⟨fun _ => shallow, fun _ => decoded⟩
    · rw [malformed]
      exact ⟨nofun, fun shallow => absurd deep (Nat.not_lt.mpr shallow)⟩
  by_cases refused : max reader 1 ≤ after.failures
  · rw [if_pos refused] at answer
    refine ⟨readable, fun through => by omega, ?_⟩
    rw [answer]
    exact ⟨nofun, fun through => by omega⟩
  · rw [if_neg refused] at answer
    refine ⟨readable, fun _ => answer, ?_⟩
    rw [answer]
    rcases cases with ⟨shallow, w, decoded⟩ | ⟨deep, malformed⟩
    · rw [decoded]
      exact ⟨nofun, fun ⟨_, deep⟩ => absurd deep (Nat.not_lt.mpr shallow)⟩
    · exact ⟨fun _ => ⟨Nat.lt_of_not_le refused, deep⟩, fun _ => ⟨_, malformed⟩⟩

/-- Arrays around arrays, as many as given. -/
def nestedArrays (n : Nat) : Value :=
  Nat.repeat (fun v => .array [v]) n .null

theorem nesting_nestedArrays (n : Nat) : (nestedArrays n).toJson.nesting = n := by
  induction n with
  | zero => rfl
  | succ n ih =>
      have filled : (nestedArrays n).isEmpty = false := by cases n <;> rfl
      change (Value.array [nestedArrays n]).toJson.nesting = n + 1
      rw [Value.toJson, Value.toJsonItems, filled]
      simp [Value.toJsonItems, Json.nesting, Json.nestingItems, ih]

/-- The deepest value that can be read, another store that failed in between, and a default that is
not used. -/
theorem get_stored_deepest :
    let b : Backend := ({} : Backend).failNext 1
    let v := nestedArrays 127
    let requests := [.failNext 1, .call 2 (.set "other" .null)]
    (b.set 2 "key" v).1 = .ok () ∧
    (∀ w ∈ writes (b.set 2 "key" v).2 requests, w.1 ≠ "key") ∧
    ∃ w, ((run (b.set 2 "key" v).2 requests).get 1 "key" (some .null)).1 = .ok w := by
  intro b v requests
  have accepted : (b.set 2 "key" v).1 = .ok () := rfl
  have untouched : ∀ w ∈ writes (b.set 2 "key" v).2 requests, w.1 ≠ "key" := by
    intro w member
    have only : writes (b.set 2 "key" v).2 requests = [("other", .null)] := rfl
    rw [only] at member
    cases List.mem_singleton.mp member
    decide
  obtain ⟨readable, given, -⟩ :=
    get_stored b 2 "key" v accepted requests untouched 1 (some .null)
  obtain ⟨w, decoded⟩ := readable.mpr (nesting_nestedArrays 127).le
  exact ⟨accepted, untouched, w, (given (by decide)).trans decoded⟩

/-- One more array, and what was accepted cannot be read any more. -/
theorem stored_beyond_reading :
    let v := nestedArrays 128
    let accepted := ({} : Backend).set 1 "key" v
    accepted.1 = .ok () ∧ decode "key" (encode v) = .error (.codec "key" "malformed JSON") ∧
      (accepted.2.get 1 "key" none).1 = .error (.codec "key" "malformed JSON") := by
  intro v accepted
  have malformed : decode "key" (encode v) = .error (.codec "key" "malformed JSON") := by
    rcases decode_encode_cases "key" v with ⟨shallow, -⟩ | ⟨-, malformed⟩
    · have nested : v.toJson.nesting = 128 := nesting_nestedArrays 128
      rw [nested] at shallow
      exact absurd shallow (by decide)
    · exact malformed
  have set : accepted.1 = .ok () := rfl
  have reached : ¬ max 1 1 ≤ accepted.2.failures := by decide
  refine ⟨set, malformed, ?_⟩
  rw [get_found (entry?_set set), if_neg reached, malformed]

end Store

end TreeQuery
