import Mathlib.Data.List.Nodup
import TreeQuery.Library.Functions
import TreeQuery.Proofs.Tree

/-!
# Edits of objects

What a patch does to an object is said by `Patched`: which value each key has afterwards, and in
which order the keys stand. One member of the patch changes nothing but its own key
(`get?_applyMember`, `keys_applyMember`), so for a whole patch with distinct keys it does not matter
in which order its members come (`patched_applyPatch`). What a new name does to a member is said by
`Renamed`.

Two associations with distinct keys are the same if they have the same keys in the same order and
the same value under each (`Assoc.ext_keys`). The laws of addition and renaming are read off this.
-/

set_option autoImplicit false

namespace TreeQuery

namespace Assoc

variable {κ α : Type} [DecidableEq κ]

theorem contains_iff {m : Assoc κ α} {key : κ} : contains m key = true ↔ key ∈ keys m := by
  rw [contains, Option.isSome_iff_ne_none, ne_eq, get?_eq_none_iff, not_not]

theorem erase_cons (k : κ) (v : α) (rest : Assoc κ α) (key : κ) :
    erase ((k, v) :: rest) key = if k = key then erase rest key else (k, v) :: erase rest key := by
  by_cases here : k = key <;> simp [erase, here]

theorem get?_erase (m : Assoc κ α) (key other : κ) :
    get? (erase m key) other = if key = other then none else get? m other := by
  induction m with
  | nil => simp [erase, get?]
  | cons entry rest ih =>
      obtain ⟨k, v⟩ := entry
      rw [erase_cons]
      by_cases gone : k = key
      · subst gone
        rw [if_pos rfl, ih, get?]
        by_cases same : k = other <;> simp [same]
      · by_cases same : k = other
        · subst same
          simp [get?, gone, Ne.symm gone]
        · simp [get?, gone, same, ih]

theorem keys_erase (m : Assoc κ α) (key : κ) :
    keys (erase m key) = (keys m).filter fun k => k ≠ key := by
  rw [keys, keys, List.filter_map]
  rfl

theorem nodup_insert {m : Assoc κ α} (distinct : (keys m).Nodup) (key : κ) (v : α) :
    (keys (insert m key v)).Nodup := by
  rw [keys_insert]
  split
  · exact distinct
  · rename_i fresh
    exact List.nodup_append.mpr ⟨distinct, List.nodup_singleton key, by
      rintro k member _ last rfl
      exact fresh (List.mem_singleton.mp last ▸ member)⟩

/-- The keys with their order and the value under each tell the entries. -/
theorem ext_keys {m n : Assoc κ α} (distinct : (keys m).Nodup) (order : keys n = keys m)
    (found : ∀ key ∈ keys m, get? n key = get? m key) : n = m := by
  induction m generalizing n with
  | nil => exact List.map_eq_nil_iff.mp order
  | cons entry rest ih =>
      obtain ⟨k, v⟩ := entry
      obtain ⟨⟨k', w⟩, others, rfl, head, later⟩ := List.map_eq_cons_iff.mp order
      obtain rfl : k' = k := head
      simp only [keys, List.map_cons, List.nodup_cons] at distinct
      have here : some w = some v := by
        simpa [get?] using found k' (List.mem_cons_self ..)
      have there : others = rest := ih distinct.2 later fun key member => by
        have apart : k' ≠ key := by
          rintro rfl
          exact distinct.1 member
        simpa [get?, apart] using found key (List.mem_cons_of_mem _ member)
      rw [Option.some.inj here, there]

/-! ## Overlays -/

theorem get?_insertAll (m : Assoc κ α) {entries : Assoc κ α} (distinct : (keys entries).Nodup)
    (key : κ) : get? (insertAll m entries) key = (get? entries key).or (get? m key) := by
  induction entries generalizing m with
  | nil => rfl
  | cons entry rest ih =>
      obtain ⟨k, v⟩ := entry
      simp only [keys, List.map_cons, List.nodup_cons] at distinct
      have step : insertAll m ((k, v) :: rest) = insertAll (insert m k v) rest := rfl
      rw [step, ih _ distinct.2, get?_insert]
      by_cases here : k = key
      · subst here
        simp [get?, (get?_eq_none_iff rest k).mpr distinct.1]
      · simp [get?, here]

theorem keys_insertAll (m : Assoc κ α) {entries : Assoc κ α} (distinct : (keys entries).Nodup) :
    keys (insertAll m entries) = keys m ++ (keys entries).filter fun key => key ∉ keys m := by
  induction entries generalizing m with
  | nil => simp [insertAll, keys]
  | cons entry rest ih =>
      obtain ⟨k, v⟩ := entry
      simp only [keys, List.map_cons, List.nodup_cons] at distinct
      have step : insertAll m ((k, v) :: rest) = insertAll (insert m k v) rest := rfl
      have whole : keys ((k, v) :: rest) = k :: keys rest := rfl
      rw [step, ih _ distinct.2, whole, keys_insert]
      by_cases there : k ∈ keys m
      · rw [if_pos there, List.filter_cons_of_neg (by simpa using there)]
      · rw [if_neg there, List.filter_cons_of_pos (by simpa using there), List.append_assoc]
        refine congrArg (keys m ++ k :: ·) (List.filter_congr fun key member => ?_)
        have apart : key ≠ k := by
          rintro rfl
          exact distinct.1 member
        simp [apart]

theorem nodup_insertAll {m : Assoc κ α} (distinct : (keys m).Nodup) (entries : Assoc κ α) :
    (keys (insertAll m entries)).Nodup := by
  induction entries generalizing m with
  | nil => exact distinct
  | cons entry rest ih => exact ih (nodup_insert distinct entry.1 entry.2)

theorem nil_insertAll {m : Assoc κ α} (distinct : (keys m).Nodup) : insertAll [] m = m :=
  insertAll_of_nodup distinct

theorem insertAll_insertAll {a b c : Assoc κ α} (first : (keys a).Nodup) (second : (keys b).Nodup)
    (third : (keys c).Nodup) : insertAll a (insertAll b c) = insertAll (insertAll a b) c := by
  have inner := nodup_insertAll second c
  refine ext_keys (nodup_insertAll (nodup_insertAll first b) c) ?_ fun key _ => ?_
  · rw [keys_insertAll a inner, keys_insertAll b third, keys_insertAll _ third,
      keys_insertAll a second, List.filter_append, List.append_assoc, List.filter_filter]
    refine congrArg (fun new => keys a ++ (_ ++ new)) (List.filter_congr fun key _ => ?_)
    by_cases old : key ∈ keys a <;> by_cases new : key ∈ keys b <;> simp [old, new]
  · rw [get?_insertAll a inner, get?_insertAll b third, get?_insertAll _ third,
      get?_insertAll a second, Option.or_assoc]

end Assoc

namespace Library

open Assoc

variable {insertNew : Bool} {fields patch result : List (String × Value)} {source target : String}

/-! ## Patches -/

/-- Whether a patch holds the empty value under a key. -/
def deletes (patch : List (String × Value)) (key : String) : Bool :=
  (get? patch key).any Value.isEmpty

/-- Whether a patch brings a member that an object does not have. -/
def adds (fields patch : List (String × Value)) (key : String) : Bool :=
  !contains fields key && !deletes patch key

/-- What an object has under a key after a patch: nothing where the patch is empty, its value where
it has one and may put it there, and otherwise what was there before. -/
def memberAfter (insertNew : Bool) (fields patch : List (String × Value)) (key : String) :
    Option Value :=
  match get? patch key with
  | some v =>
    if v.isEmpty then none
    else if insertNew || contains fields key then some v else get? fields key
  | none => get? fields key

/-- The result of a patch. Members that are not deleted stay where they are, and new ones, where
they are let in, follow in the order of the patch. -/
structure Patched (insertNew : Bool) (fields patch result : List (String × Value)) : Prop where
  distinct : (keys result).Nodup
  member : ∀ key, get? result key = memberAfter insertNew fields patch key
  order : keys result = ((keys fields).filter fun key => !deletes patch key) ++
    if insertNew then (keys patch).filter (adds fields patch) else []

theorem get?_applyMember (insertNew : Bool) (fields : List (String × Value)) (k : String)
    (v : Value) (key : String) : get? (applyMember insertNew fields (k, v)) key =
      if k = key then
        if v.isEmpty then none
        else if insertNew || contains fields key then some v else get? fields key
      else get? fields key := by
  rw [applyMember]
  by_cases here : k = key
  · subst here
    split
    · simp [get?_erase]
    · split <;> simp [get?_insert]
  · split
    · simp [get?_erase, here]
    · split <;> simp [get?_insert, here]

theorem contains_applyMember {k key : String} (apart : k ≠ key) (v : Value) :
    contains (applyMember insertNew fields (k, v)) key = contains fields key := by
  rw [contains, get?_applyMember, if_neg apart, contains]

theorem nodup_applyMember (distinct : (keys fields).Nodup) (entry : String × Value) :
    (keys (applyMember insertNew fields entry)).Nodup := by
  rw [applyMember]
  split
  · rw [keys_erase]
    exact distinct.filter _
  · split
    · exact nodup_insert distinct _ _
    · exact distinct

theorem nodup_applyPatch (distinct : (keys fields).Nodup) (patch : List (String × Value)) :
    (keys (applyPatch insertNew fields patch)).Nodup := by
  induction patch generalizing fields with
  | nil => exact distinct
  | cons entry rest ih => exact ih (nodup_applyMember distinct entry)

theorem memberAfter_cons {k key : String} (apart : k ≠ key) (v : Value)
    (rest : List (String × Value)) : memberAfter insertNew fields ((k, v) :: rest) key =
      memberAfter insertNew (applyMember insertNew fields (k, v)) rest key := by
  rw [memberAfter, memberAfter, contains_applyMember apart, get?_applyMember, if_neg apart, get?,
    if_neg apart]

theorem get?_applyPatch (fields : List (String × Value)) (distinct : (keys patch).Nodup)
    (key : String) :
    get? (applyPatch insertNew fields patch) key = memberAfter insertNew fields patch key := by
  induction patch generalizing fields with
  | nil => rfl
  | cons entry rest ih =>
      obtain ⟨k, v⟩ := entry
      simp only [keys, List.map_cons, List.nodup_cons] at distinct
      have later := ih (applyMember insertNew fields (k, v)) distinct.2
      refine later.trans ?_
      by_cases here : k = key
      · subst here
        rw [memberAfter, (get?_eq_none_iff rest k).mpr distinct.1, memberAfter, get?, if_pos rfl,
          get?_applyMember, if_pos rfl]
      · exact (memberAfter_cons here v rest).symm

theorem deletes_cons (k : String) (v : Value) (rest : List (String × Value)) (key : String) :
    deletes ((k, v) :: rest) key = if k = key then v.isEmpty else deletes rest key := by
  by_cases here : k = key <;> simp [deletes, get?, here]

theorem keys_applyMember (insertNew : Bool) (fields : List (String × Value)) (k : String)
    (v : Value) : keys (applyMember insertNew fields (k, v)) =
      ((keys fields).filter fun key => !(v.isEmpty && k == key)) ++
        if insertNew && !contains fields k && !v.isEmpty then [k] else [] := by
  rw [applyMember]
  cases empty : v.isEmpty with
  | true =>
      have apart : ∀ key, (!(true && k == key)) = decide (key ≠ k) := fun key => by
        rw [Bool.true_and, Bool.beq_comm, decide_not, beq_eq_decide]
      simp only [if_true, keys_erase, apart, Bool.not_true, Bool.and_false, Bool.false_eq_true,
        if_false, List.append_nil]
  | false =>
      cases there : contains fields k with
      | true => simp [keys_insert, contains_iff.mp there]
      | false =>
          have fresh : k ∉ keys fields := fun member => by
            rw [contains_iff.mpr member] at there
            cases there
          cases insertNew <;> simp [keys_insert, fresh]

/-- Where one member of a patch comes first, the others decide over what it leaves. -/
theorem filter_applyMember {k : String} {rest : List (String × Value)} (fresh : k ∉ keys rest)
    (v : Value) :
    ((keys (applyMember insertNew fields (k, v))).filter fun key => !deletes rest key) =
      ((keys fields).filter fun key => !deletes ((k, v) :: rest) key) ++
        if insertNew && adds fields ((k, v) :: rest) k then [k] else [] := by
  have spared : deletes rest k = false := by
    rw [deletes, (get?_eq_none_iff rest k).mpr fresh]
    rfl
  have decided : ∀ key, (!deletes rest key && !(v.isEmpty && k == key)) =
      !deletes ((k, v) :: rest) key := fun key => by
    rw [deletes_cons]
    by_cases here : k = key
    · subst here
      simp [spared]
    · simp [here]
  have own : adds fields ((k, v) :: rest) k = (!contains fields k && !v.isEmpty) := by
    rw [adds, deletes_cons, if_pos rfl]
  rw [keys_applyMember, List.filter_append, List.filter_filter, own, ← Bool.and_assoc]
  simp only [decided]
  split
  · simp [spared]
  · rfl

theorem keys_applyPatch (fields : List (String × Value)) (distinct : (keys patch).Nodup) :
    keys (applyPatch insertNew fields patch) =
      ((keys fields).filter fun key => !deletes patch key) ++
        if insertNew then (keys patch).filter (adds fields patch) else [] := by
  induction patch generalizing fields with
  | nil => cases insertNew <;> simp [applyPatch, deletes, get?, keys]
  | cons entry rest ih =>
      obtain ⟨k, v⟩ := entry
      simp only [keys, List.map_cons, List.nodup_cons] at distinct
      have whole : keys ((k, v) :: rest) = k :: keys rest := rfl
      have others : (keys rest).filter (adds (applyMember insertNew fields (k, v)) rest) =
          (keys rest).filter (adds fields ((k, v) :: rest)) := by
        refine List.filter_congr fun key member => ?_
        have apart : k ≠ key := by
          rintro rfl
          exact distinct.1 member
        rw [adds, adds, contains_applyMember apart, deletes_cons, if_neg apart]
      refine (ih (applyMember insertNew fields (k, v)) distinct.2).trans ?_
      rw [filter_applyMember distinct.1, others, whole, List.append_assoc]
      refine List.append_right_inj _ |>.mpr ?_
      cases insertNew with
      | false => rfl
      | true =>
          rw [Bool.true_and, if_pos rfl, if_pos rfl, List.filter_cons]
          split <;> rfl

theorem patched_applyPatch (distinct : (keys fields).Nodup) (patches : (keys patch).Nodup) :
    Patched insertNew fields patch (applyPatch insertNew fields patch) :=
  ⟨nodup_applyPatch distinct patch, get?_applyPatch fields patches, keys_applyPatch fields patches⟩

/-- A patch that deletes nothing and may bring new members is an overlay. -/
theorem applyPatch_eq_insertAll (full : ∀ entry ∈ patch, entry.2.isEmpty = false) :
    applyPatch true fields patch = insertAll fields patch := by
  induction patch generalizing fields with
  | nil => rfl
  | cons entry rest ih =>
      have here : applyMember true fields entry = insert fields entry.1 entry.2 := by
        simp [applyMember, full entry (List.mem_cons_self ..)]
      have step : applyPatch true fields (entry :: rest) =
          applyPatch true (applyMember true fields entry) rest := rfl
      rw [step, here, ih fun other member => full other (List.mem_cons_of_mem _ member)]
      rfl

/-! ## New names -/

/-- The result of giving the member under `source` the name `target`: it stands where it stood, and
a member that had the name before is gone. -/
structure Renamed (source target : String) (fields result : List (String × Value)) : Prop where
  distinct : (keys result).Nodup
  moved : get? result target = get? fields source
  gone : get? result source = none
  kept : ∀ key, key ≠ source → key ≠ target → get? result key = get? fields key
  order : keys result =
    ((keys fields).filter (· ≠ target)).map fun key => if key = source then target else key

theorem renameField_of_mem (member : source ∈ keys fields) (apart : source ≠ target) :
    renameField fields source target = (fields.filter fun field => field.1 ≠ target).map fun field =>
      if field.1 = source then (target, field.2) else field := by
  rw [renameField, if_pos ⟨contains_iff.mpr member, apart⟩]

theorem keys_renameField (member : source ∈ keys fields) (apart : source ≠ target) :
    keys (renameField fields source target) =
      ((keys fields).filter (· ≠ target)).map fun key => if key = source then target else key := by
  have name : ∀ field : String × Value, (if field.1 = source then (target, field.2) else field).1 =
      if field.1 = source then target else field.1 := fun field => by
    split <;> rfl
  rw [renameField_of_mem member apart, keys, keys, List.filter_map, List.map_map, List.map_map]
  exact List.map_congr_left fun field _ => name field

theorem get?_renamed (apart : source ≠ target) (fields : List (String × Value)) (key : String) :
    get? ((fields.filter fun field => field.1 ≠ target).map fun field =>
      if field.1 = source then (target, field.2) else field) key =
      if key = target then get? fields source
      else if key = source then none else get? fields key := by
  induction fields with
  | nil => simp [get?]
  | cons field rest ih =>
      obtain ⟨k, v⟩ := field
      by_cases taken : k = target
      · subst taken
        rw [List.filter_cons_of_neg (by simp), ih, get?, get?, if_neg (Ne.symm apart)]
        by_cases here : key = k
        · simp [here]
        · simp [here, Ne.symm here]
      · rw [List.filter_cons_of_pos (by simpa using taken), List.map_cons]
        by_cases moved : k = source
        · subst moved
          rw [if_pos rfl, get?, ih, get?, get?, if_pos rfl]
          by_cases here : target = key
          · simp [here]
          · by_cases old : key = k
            · simp [old, apart, Ne.symm apart]
            · simp [here, old, Ne.symm here, Ne.symm old]
        · rw [if_neg moved, get?, ih, get?, get?, if_neg moved]
          by_cases here : k = key
          · subst here
            simp [taken, moved]
          · simp [here]

theorem renamed_renameField (distinct : (keys fields).Nodup) (member : source ∈ keys fields)
    (apart : source ≠ target) :
    Renamed source target fields (renameField fields source target) := by
  have order := keys_renameField member apart
  have found := get?_renamed apart fields
  rw [← renameField_of_mem member apart] at found
  refine ⟨?_, ?_, ?_, fun key other another => ?_, order⟩
  · rw [order]
    refine (distinct.filter _).map_on fun x xs y ys same => ?_
    have away : ∀ z ∈ (keys fields).filter (· ≠ target), z ≠ target := fun z zs => by
      simpa using (List.mem_filter.mp zs).2
    have xt := away x xs
    have yt := away y ys
    by_cases xSource : x = source <;> by_cases ySource : y = source <;> simp_all
  · rw [found, if_pos rfl]
  · rw [found, if_neg apart, if_pos rfl]
  · rw [found, if_neg another, if_neg other]

/-- A name that was free is given back. -/
theorem renameField_back (member : source ∈ keys fields) (free : target ∉ keys fields) :
    renameField (renameField fields source target) target source = fields := by
  have apart : source ≠ target := by
    rintro rfl
    exact free member
  have unnamed : ∀ field ∈ fields, field.1 ≠ target := by
    rintro field inside rfl
    exact free (List.mem_map.mpr ⟨field, inside, rfl⟩)
  have there : target ∈ keys (renameField fields source target) := by
    rw [keys_renameField member apart]
    refine List.mem_map.mpr ⟨source, List.mem_filter.mpr ⟨member, by simpa using apart⟩, ?_⟩
    rw [if_pos rfl]
  have whole : (fields.filter fun field => field.1 ≠ target) = fields :=
    List.filter_eq_self.mpr fun field inside => by simpa using unnamed field inside
  rw [renameField_of_mem there (Ne.symm apart), renameField_of_mem member apart, whole,
    List.filter_eq_self.mpr ?_, List.map_map]
  · refine (List.map_congr_left fun field inside => ?_).trans (List.map_id fields)
    obtain ⟨k, v⟩ := field
    have away : k ≠ target := unnamed _ inside
    by_cases here : k = source <;> simp [here, away]
  · intro field inside
    obtain ⟨⟨k, v⟩, old, rfl⟩ := List.mem_map.mp inside
    by_cases here : k = source <;> simp [here, Ne.symm apart]

/-! ## The laws of edits -/

/-- **An edit touches what it names and keeps the order.** Of objects with distinct keys: `update`
and `upsert` are described by `Patched`, and without an empty member an `upsert` is an addition.
Addition is associative, and the empty object is neutral on both sides. `rename` is described by
`Renamed`, and a name that was free is given back by the reverse renaming. -/
theorem object_edits {a b c : List (String × Value)} (first : (keys a).Nodup)
    (second : (keys b).Nodup) (third : (keys c).Nodup) (source target : String) :
    (∃ updated, update (.object a) (.object b) = .ok (.object updated) ∧
      Patched false a b updated) ∧
    (∃ upserted, upsert (.object a) (.object b) = .ok (.object upserted) ∧
      Patched true a b upserted ∧
      ((∀ entry ∈ b, entry.2.isEmpty = false) →
        Operation.add (.object a) (.object b) = .ok (.object upserted))) ∧
    (∃ left right whole, Operation.add (.object a) (.object b) = .ok left ∧
      Operation.add (.object b) (.object c) = .ok right ∧
      Operation.add left (.object c) = .ok whole ∧
      Operation.add (.object a) right = .ok whole) ∧
    Operation.add (.object []) (.object a) = .ok (.object a) ∧
    Operation.add (.object a) (.object []) = .ok (.object a) ∧
    (source ∈ keys a → source ≠ target →
      ∃ renamed, rename (.object a) source target = .ok (.object renamed) ∧
        Renamed source target a renamed ∧
        (target ∉ keys a → rename (.object renamed) target source = .ok (.object a))) := by
  have overlaid : ∀ m n : List (String × Value), Operation.add (.object m) (.object n) =
      .ok (.object (insertAll m n)) := fun _ _ => rfl
  have called : ∀ (m : List (String × Value)) (old new : String),
      rename (.object m) old new = .ok (.object (renameField m old new)) := fun _ _ _ => rfl
  refine ⟨⟨_, rfl, patched_applyPatch first second⟩,
    ⟨_, rfl, patched_applyPatch first second, fun full => ?_⟩,
    ⟨_, _, .object (insertAll (insertAll a b) c), overlaid a b, overlaid b c, overlaid _ c, ?_⟩,
    ?_, overlaid a [], fun member apart => ⟨_, called a source target,
      renamed_renameField first member apart, fun free => ?_⟩⟩
  · rw [overlaid, applyPatch_eq_insertAll full]
  · rw [overlaid, insertAll_insertAll first second third]
  · rw [overlaid, nil_insertAll first]
  · rw [called, renameField_back member free]

/-- An update of a shelf, the same change as an addition, and a label that takes the place of
another. -/
theorem object_edits_shelf :
    let shelf : List (String × Value) := [("a", .text "x"), ("b", .text "y")]
    let patch : List (String × Value) := [("c", .text "z"), ("b", .text "w")]
    (keys shelf).Nodup ∧ (keys patch).Nodup ∧
      Patched false shelf patch [("a", .text "x"), ("b", .text "w")] ∧
      Patched true shelf patch [("a", .text "x"), ("b", .text "w"), ("c", .text "z")] ∧
      Operation.add (.object shelf) (.object patch) =
        .ok (.object [("a", .text "x"), ("b", .text "w"), ("c", .text "z")]) ∧
      Renamed "a" "d" shelf [("d", .text "x"), ("b", .text "y")] ∧
      rename (.object [("d", .text "x"), ("b", .text "y")]) "d" "a" = .ok (.object shelf) := by
  intro shelf patch
  have first : (keys shelf).Nodup := by decide
  have second : (keys patch).Nodup := by decide
  have full : ∀ entry ∈ patch, entry.2.isEmpty = false := by simp [patch, Value.isEmpty]
  obtain ⟨⟨updated, ⟨⟩, narrow⟩, ⟨upserted, ⟨⟩, wide, sum⟩, -, -, -, named⟩ :=
    object_edits first second first "a" "d"
  obtain ⟨renamed, ⟨⟩, described, back⟩ := named (by decide) (by decide)
  exact ⟨first, second, narrow, wide, sum full, described, back (by decide)⟩

end Library

end TreeQuery
