import TreeQuery.Proofs.Steps

/-!
# Translations of frames

A translation of values goes through the frames of a chain, to their values, memos and cursors, with
a change of the let-bindings that they declare. What a computation reads off the frames and what it
does to them commutes with this, as frames know each other by position and values are only passed
on.
-/

set_option autoImplicit false

namespace TreeQuery

variable (β : Binding → Binding) (τ : Translation)

def LetSlot.under (s : LetSlot) : LetSlot :=
  ⟨β s.binding, s.memo.map (Evaluated.translate τ)⟩

def Frame.under (f : Frame) : Frame :=
  { f with
    values := Assoc.mapValues (Evaluated.translate τ) f.values
    lets := Assoc.mapValues (LetSlot.under β τ) f.lets
    cursor := f.cursor.map (Address.translate τ) }

def Chain.under (c : Chain) : Chain :=
  ⟨c.frames.map (Frame.under β τ)⟩

def Resolved.under : Resolved → Resolved
  | .value v => .value (v.translate τ)
  | .binding owner b => .binding owner (β b)

namespace Chain

/-! ## Looking around -/

@[simp] theorem size_under (c : Chain) : (c.under β τ).size = c.size := by
  simp [size, under]

@[simp] theorem frame?_under (c : Chain) (j : Nat) :
    (c.under β τ).frame? j = (c.frame? j).map (Frame.under β τ) := by
  simp [frame?, under]

@[simp] theorem parent?_under (c : Chain) (j : Nat) : (c.under β τ).parent? j = c.parent? j := by
  rw [parent?, frame?_under, parent?]
  cases c.frame? j <;> rfl

theorem outward_under (c : Chain) (fuel i : Nat) :
    (c.under β τ).outward fuel i = c.outward fuel i := by
  induction fuel generalizing i with
  | zero => rfl
  | succ fuel ih => simp only [outward, parent?_under, ih]

@[simp] theorem ancestors_under (c : Chain) (i : Nat) :
    (c.under β τ).ancestors i = c.ancestors i := by
  simp only [ancestors, frame?_under, size_under, outward_under]
  cases c.frame? i <;> rfl

/-- What commutes with translation in each frame commutes with it on the whole walk. -/
theorem search_under {α γ : Type} {find : Nat → Frame → Option α} {find' : Nat → Frame → Option γ}
    {g : α → γ} (commutes : ∀ j f, find' j (f.under β τ) = (find j f).map g) (c : Chain) (i : Nat) :
    (c.under β τ).search i find' = (c.search i find).map g := by
  refine search_map (ρ := id) (by rw [ancestors_under, List.map_id]) fun j _ => ?_
  rw [id, frame?_under]
  cases c.frame? j with
  | none => rfl
  | some f => exact commutes j f

theorem lookup?_under (c : Chain) (i : Nat) (name : String) :
    (c.under β τ).lookup? i name = (c.lookup? i name).map (Evaluated.translate τ) :=
  search_under β τ (fun _ f => Assoc.get?_mapValues _ f.values name) c i

theorem current_under (c : Chain) (i : Nat) :
    (c.under β τ).current i = (c.current i).translate τ := by
  rw [current, lookup?_under, current]
  cases c.lookup? i currentName <;> rfl

theorem cursor?_under (c : Chain) (i : Nat) :
    (c.under β τ).cursor? i = (c.cursor? i).map (Address.translate τ) :=
  search_under β τ (fun _ _ => rfl) c i

theorem resolve?_under (c : Chain) (i : Nat) (name : String) :
    (c.under β τ).resolve? i name = (c.resolve? i name).map (Resolved.under β τ) := by
  refine search_under β τ (fun j f => ?_) c i
  simp only [Frame.under, Assoc.get?_mapValues]
  cases Assoc.get? f.values name with
  | some v => rfl
  | none => cases Assoc.get? f.lets name <;> rfl

theorem nearest?_under (c : Chain) (i : Nat) (kind : FrameKind) :
    (c.under β τ).nearest? i kind = c.nearest? i kind := by
  have found : (c.under β τ).nearest? i kind = (c.nearest? i kind).map id :=
    search_under β τ (fun j f => by rw [Option.map_id]; rfl) c i
  rw [Option.map_id] at found
  exact found

theorem isHandled_under (c : Chain) (i : Nat) : (c.under β τ).isHandled i = c.isHandled i := by
  rw [isHandled, frame?_under, isHandled]
  cases c.frame? i <;> rfl

theorem memo?_under (c : Chain) (i : Nat) (name : String) :
    (c.under β τ).memo? i name = (c.memo? i name).map (Evaluated.translate τ) := by
  rw [memo?, frame?_under, memo?]
  cases c.frame? i with
  | none => rfl
  | some f =>
      simp only [Option.map_some, Option.bind_some, Frame.under, Assoc.get?_mapValues]
      cases Assoc.get? f.lets name <;> rfl

theorem addHidden_mapValues (f : Evaluated → Evaluated) (seen more : Assoc String Evaluated) :
    addHidden (Assoc.mapValues f seen) (Assoc.mapValues f more) =
      Assoc.mapValues f (addHidden seen more) := by
  induction more generalizing seen with
  | nil => rfl
  | cons entry rest ih =>
      obtain ⟨name, v⟩ := entry
      have entered : (if Assoc.contains (Assoc.mapValues f seen) name then Assoc.mapValues f seen
            else Assoc.mapValues f seen ++ [(name, f v)]) =
          Assoc.mapValues f (if Assoc.contains seen name then seen else seen ++ [(name, v)]) := by
        rw [Assoc.contains_mapValues]
        split
        · rfl
        · simp [Assoc.mapValues]
      simp only [addHidden, Assoc.mapValues_cons, List.foldl_cons] at ih ⊢
      rw [entered]
      exact ih _

theorem foldl_addHidden_under (c : Chain) (positions : List Nat) (seen : Assoc String Evaluated) :
    positions.foldl (fun acc j => match (c.frame? j).map (Frame.under β τ) with
        | some f => addHidden acc f.values
        | none => acc) (Assoc.mapValues (Evaluated.translate τ) seen) =
      Assoc.mapValues (Evaluated.translate τ) (positions.foldl (fun acc j =>
        match c.frame? j with
        | some f => addHidden acc f.values
        | none => acc) seen) := by
  induction positions generalizing seen with
  | nil => rfl
  | cons j rest ih =>
      simp only [List.foldl_cons]
      cases c.frame? j with
      | none => exact ih seen
      | some f =>
          simp only [Option.map_some, Frame.under, addHidden_mapValues]
          exact ih _

theorem visible_under (c : Chain) (i : Nat) :
    (c.under β τ).visible i = Assoc.mapValues (Evaluated.translate τ) (c.visible i) := by
  simp only [visible, ancestors_under, frame?_under]
  exact foldl_addHidden_under β τ c _ []

/-! ## Changes -/

theorem under_push (c : Chain) (kind : FrameKind) (parent : Option Nat) :
    (c.push kind parent).under β τ = (c.under β τ).push kind parent := by
  simp [under, push, Frame.under]

theorem under_truncate (c : Chain) (n : Nat) :
    (c.truncate n).under β τ = (c.under β τ).truncate n := by
  simp [under, truncate]

/-- A change that commutes with translation in the frame commutes with it in the chain. -/
theorem under_update {change change' : Frame → Frame}
    (commutes : ∀ f : Frame, (change f).under β τ = change' (f.under β τ)) (c : Chain) (i : Nat) :
    (c.update i change).under β τ = (c.under β τ).update i change' := by
  refine Chain.ext_frame? fun j => ?_
  simp only [frame?_under, frame?_update]
  split
  · cases c.frame? j with
    | none => rfl
    | some f => exact congrArg some (commutes f)
  · rfl

theorem under_setValue (c : Chain) (i : Nat) (name : String) (v : Evaluated) :
    (c.setValue i name v).under β τ = (c.under β τ).setValue i name (v.translate τ) :=
  under_update β τ (fun f => by simp [Frame.under, Assoc.insert_mapValues]) c i

theorem under_setCursor (c : Chain) (i : Nat) (a : Address) :
    (c.setCursor i a).under β τ = (c.under β τ).setCursor i (a.translate τ) :=
  under_update β τ (fun _ => by rfl) c i

theorem under_setHandled (c : Chain) (i : Nat) (flag : Bool) :
    (c.setHandled i flag).under β τ = (c.under β τ).setHandled i flag :=
  under_update β τ (fun _ => by rfl) c i

theorem under_storeMemo (c : Chain) (i : Nat) (name : String) (v : Evaluated) :
    (c.storeMemo i name v).under β τ = (c.under β τ).storeMemo i name (v.translate τ) := by
  refine under_update β τ (fun f => ?_) c i
  have slots := Assoc.modify_mapValues (f := LetSlot.under β τ)
    (g := fun slot : LetSlot => { slot with memo := some v })
    (h := fun slot : LetSlot => { slot with memo := some (v.translate τ) })
    (fun _ => rfl) f.lets name
  simp only [Frame.under, slots]

end Chain

theorem declareIn_under {β : Binding → Binding} (named : ∀ b, (β b).name = b.name)
    (τ : Translation) (lets : Assoc String LetSlot) (bindings : List Binding) :
    declareIn (Assoc.mapValues (LetSlot.under β τ) lets) (bindings.map β) =
      Assoc.mapValues (LetSlot.under β τ) (declareIn lets bindings) := by
  induction bindings generalizing lets with
  | nil => rfl
  | cons b rest ih =>
      have entered : Assoc.insert (Assoc.mapValues (LetSlot.under β τ) lets) (β b).name
          { binding := β b } =
          Assoc.mapValues (LetSlot.under β τ) (Assoc.insert lets b.name { binding := b }) := by
        rw [named, ← Assoc.insert_mapValues]
        rfl
      simp only [declareIn, List.map_cons, List.foldl_cons] at ih ⊢
      rw [entered]
      exact ih _

/-- The frames with a new one on top that declares let-bindings. -/
theorem Chain.letFrame_under {β : Binding → Binding} (named : ∀ b, (β b).name = b.name)
    (τ : Translation) (c : Chain) (kind : FrameKind) (i : Nat) (bindings : List Binding) :
    ((c.push kind (some i)).update c.size fun f =>
        { f with lets := declareIn f.lets bindings }).under β τ =
      ((c.under β τ).push kind (some i)).update (c.under β τ).size fun f =>
        { f with lets := declareIn f.lets (bindings.map β) } := by
  rw [Chain.size_under, ← Chain.under_push]
  exact Chain.under_update β τ (fun f => by simp [Frame.under, declareIn_under named]) _ c.size

/-- The overrides of a configuration are translated with it. -/
theorem Evaluation.dressed_translate (config : BindingConfig) (v : Evaluated) :
    dressed (config.translate τ) (v.translate τ) = (dressed config v).translate τ := by
  cases v
  simp only [dressed, BindingConfig.translate, Overrides.isEmpty_translate]
  split <;> rfl

/-! ## Frames that stay as they are -/

theorem LetSlot.under_identity (s : LetSlot) : s.under id .identity = s := by
  obtain ⟨b, memo⟩ := s
  cases memo with
  | none => rfl
  | some v => simp only [LetSlot.under, Option.map_some, Evaluated.translate_identity, id_eq]

theorem Frame.under_identity (f : Frame) : f.under id .identity = f := by
  obtain ⟨kind, parent, values, lets, handled, cursor⟩ := f
  have values : Assoc.mapValues (Evaluated.translate .identity) values = values :=
    Assoc.mapValues_eq_self fun entry _ => entry.2.translate_identity
  have lets : Assoc.mapValues (LetSlot.under id .identity) lets = lets :=
    Assoc.mapValues_eq_self fun entry _ => entry.2.under_identity
  simp only [Frame.under, values, lets, Address.map_translate_identity]

theorem Chain.under_identity (c : Chain) : c.under id .identity = c := by
  have each : Frame.under id .identity = id := funext Frame.under_identity
  rw [Chain.under, each, Array.map_id]

theorem Chain.under_empty : Chain.under β τ {} = {} := by
  simp [Chain.under]

theorem Chain.eq_empty {c : Chain} (size : c.size = 0) : c = {} := by
  obtain ⟨frames⟩ := c
  exact congrArg Chain.mk (Array.eq_empty_of_size_eq_zero size)

end TreeQuery
