import TreeQuery.Evaluate
import TreeQuery.Proofs.Translation.Naturality

/-!
# Evaluations in lockstep

Much of what holds of evaluation compares two evaluations: one of a program with its handlers and
one without, or two with different policies for let-bindings. `Alike` relates two computations that
do the same things in the same order, with the evaluation of expressions left open. It has one rule
for each thing a computation can do to the machine, so that a property of pairs of evaluations has
to be shown for these rules only and then holds of every expression.

What values the second computation has in place of those of the first, and which expressions occur,
is said by a `Setting`. A computation belongs to a frame, which the two need not have at the same
position; its `Mode` says what it may do to that frame.
-/

set_option autoImplicit false

namespace TreeQuery

/-! ## Settings -/

/-- What an expression without effects consists of: it makes and calls no function, hands nothing to
a component, and leaves the store, streams and handled flags alone. Its bindings have no
configuration and different names. -/
def Expr.EffectFree : Expr → Prop
  | .function _ | .invoke _ _ | .sink _ _ => False
  | .call library name _ =>
    library ≠ "state" ∧ (library, name) ≠ ("stream", "collect") ∧
      (library, name) ≠ ("error", "handled")
  | .letIn bindings _ _ | .select bindings _ _ =>
    (∀ b ∈ bindings, b.config = none) ∧ (bindings.map Binding.name).Nodup
  | _ => True

/-- An expression with no handler on anything that it consists of. -/
def Expr.HandlerFree : Expr → Prop
  | .scope _ handler => handler = none
  | .letIn bindings _ handler | .select bindings _ handler =>
    handler = none ∧ ∀ b ∈ bindings, b.handler = none
  | .function d => d.handler = none
  | _ => True

/-- The let-bindings that an expression declares. -/
def Expr.bindings : Expr → List Binding
  | .letIn bindings _ _ | .select bindings _ _ => bindings
  | _ => []

theorem Expr.parts_of_bindings {e part : Expr} {b : Binding} (declared : b ∈ e.bindings)
    (member : part ∈ b.parts) : part ∈ e.parts := by
  cases e with
  | letIn bindings body handler | select bindings body handler =>
      refine List.mem_cons_of_mem _ (List.mem_append_left _ ?_)
      exact List.mem_flatMap.mpr ⟨b, declared, member⟩
  | _ => cases declared

/-- The translation that takes the handlers out of functions, unless they are kept. -/
def Translation.trimming (keep : Bool) : Translation :=
  ⟨Definition.trim keep, id, id, fun _ _ same => same, fun _ _ same => same⟩

/-- What occurs in an evaluation: some expressions, and the values that a translation leaves as they
are. The functions among them are those whose definitions may occur. -/
structure Realm where
  occurs : Expr → Prop
  test : Translation
  functions : ∀ id d, test.lambda id = id → test.definition d = d → Expr.All occurs (.function d)
  made : ∀ d, Expr.All occurs (.function d) → test.definition d = d

/-- Expressions without effects and values without functions and streams. -/
def Realm.effectFree : Realm where
  occurs := Expr.EffectFree
  test := .shift
  functions id _ fixed := absurd fixed (Nat.succ_ne_self id)
  made _ all := all.root.elim

/-- A definition other than the one given. -/
def Definition.altered (d : Definition) : Definition :=
  { d with params := ⟨"", none⟩ :: d.params }

theorem Definition.altered_ne (d : Definition) : d.altered ≠ d := by
  intro same
  exact List.cons_ne_self _ _ (congrArg Definition.params same)

open Classical in
/-- The expressions that meet a condition with all that is below them, and the functions made of
them. The streams that may occur are those that `stream` leaves alone. -/
noncomputable def Realm.guarding (occurs : Expr → Prop) (stream : Nat → Nat)
    (injective : ∀ a b, stream a = stream b → a = b) : Realm where
  occurs
  test := ⟨fun d => if Expr.All occurs (.function d) then d else d.altered, id, stream,
    fun _ _ same => same, injective⟩
  functions _ d _ fixed :=
    byContradiction fun outside => d.altered_ne ((if_neg outside).symm.trans fixed)
  made _ all := if_pos all

/-- Which of two evaluations are compared. -/
structure Setting extends Realm where
  /-- Whether the second one has the handlers of the first. -/
  keep : Bool
  /-- Whether only what is in the realm occurs. -/
  plain : Bool
  /-- Whether running out of depth may leave a mark on the machine, by raising the limit. -/
  marks : Bool
  /-- Whether there are no handlers at all. -/
  unhandled : Bool
  /-- The identities that the functions of the first have in the second. -/
  renumber : Nat → Nat
  injective : ∀ a b, renumber a = renumber b → a = b
  bare : unhandled = true → plain = true ∧ ∀ e, occurs e → e.HandlerFree

namespace Setting

/-- The settings in which functions keep their identities, and what occurs is without effects or
anything at all. -/
abbrev basic (keep plain marks : Bool) : Setting :=
  { Realm.effectFree with
    keep, plain, marks
    unhandled := false
    renumber := id
    injective := fun _ _ same => same
    bare := nofun }

/-- A program as it is, with all that it may hold. -/
abbrev whole : Setting := .basic true false false

variable (S : Setting)

/-- What becomes of values in the second evaluation. -/
def image : Translation :=
  { Translation.trimming S.keep with lambda := S.renumber, lambda_injective := S.injective }

theorem image_kept {S : Setting} (kept : S.keep = true) :
    S.image = .renaming S.renumber S.injective := by
  have definition : Definition.trim true = id := funext Definition.trim_true
  simp only [image, Translation.trimming, Translation.renaming, kept, definition]

theorem image_identity {S : Setting} (kept : S.keep = true) (same : S.renumber = id) :
    S.image = .identity := by
  rw [image_kept kept]
  simp only [Translation.renaming, Translation.identity, same]

def Allows (e : Expr) : Prop :=
  S.plain = true → Expr.All S.occurs e

def AllowsBinding (b : Binding) : Prop :=
  S.plain = true → ∃ e, Expr.All S.occurs e ∧ b ∈ e.bindings

def AllowsLet (bindings : List Binding) : Prop :=
  S.plain = true → ∃ e, Expr.All S.occurs e ∧ e.bindings = bindings

/-- If only some things occur, they are without effects. -/
structure Strict : Prop where
  occurs : S.plain = true → ∀ e, S.occurs e → e.EffectFree
  lambda : S.plain = true → ∀ id, S.test.lambda id ≠ id
  stream : S.plain = true → ∀ id, S.test.stream id ≠ id

theorem Strict.basic (keep plain marks : Bool) : (Setting.basic keep plain marks).Strict :=
  ⟨fun _ _ free => free, fun _ id => Nat.succ_ne_self id, fun _ id => Nat.succ_ne_self id⟩

/-- The second is what becomes of the first, and the first is one that may occur. -/
structure Related {α : Type} (act : Translation → α → α) (a a' : α) : Prop where
  image : a' = act S.image a
  inert : S.plain = true → act S.test a = a

abbrev value : Value → Value → Prop := S.Related Value.translate

abbrev values : List Value → List Value → Prop :=
  S.Related fun τ => List.map (Value.translate τ)

abbrev fields : List (String × Value) → List (String × Value) → Prop :=
  S.Related fun τ => Assoc.mapValues (Value.translate τ)

abbrev result : Evaluated → Evaluated → Prop := S.Related Evaluated.translate

abbrev results : List Evaluated → List Evaluated → Prop :=
  S.Related fun τ => List.map (Evaluated.translate τ)

abbrev fault : Fault → Fault → Prop := S.Related Fault.translate

abbrev signal : Signal → Signal → Prop := S.Related Signal.translate

abbrev address : Address → Address → Prop := S.Related Address.translate

abbrev cursor : Option Address → Option Address → Prop :=
  S.Related fun τ => Option.map (Address.translate τ)

variable {S}

theorem Allows.part {e part : Expr} (allowed : S.Allows e) (member : part ∈ e.parts) :
    S.Allows part :=
  fun plain => (allowed plain).part member

theorem Allows.root {e : Expr} (allowed : S.Allows e) : S.plain = true → S.occurs e :=
  fun plain => (allowed plain).root

/-- Where everything may occur, every expression may. -/
theorem Allows.of_effects (effects : S.plain = false) (e : Expr) : S.Allows e := by
  intro plain
  rw [effects] at plain
  cases plain

/-- Where an expression with effects occurs, everything may occur. -/
theorem Strict.effects_of (strict : S.Strict) {e : Expr} (allowed : S.Allows e)
    (effectful : ¬ e.EffectFree) : S.plain = false := by
  cases plain : S.plain with
  | false => rfl
  | true => exact absurd (strict.occurs plain e (allowed.root plain)) effectful

theorem AllowsLet.each {bindings : List Binding} (allowed : S.AllowsLet bindings) {b : Binding}
    (member : b ∈ bindings) : S.AllowsBinding b := by
  intro plain
  obtain ⟨e, all, rfl⟩ := allowed plain
  exact ⟨e, all, member⟩

theorem AllowsLet.distinct (strict : S.Strict) {bindings : List Binding}
    (allowed : S.AllowsLet bindings) (plain : S.plain = true) :
    (bindings.map Binding.name).Nodup := by
  obtain ⟨e, all, rfl⟩ := allowed plain
  have free := strict.occurs plain e all.root
  cases e with
  | letIn bindings body handler | select bindings body handler => exact free.2
  | _ => exact List.nodup_nil

theorem AllowsBinding.part {b : Binding} (allowed : S.AllowsBinding b) {e : Expr}
    (member : e ∈ b.parts) : S.Allows e := by
  intro plain
  obtain ⟨scope, all, declared⟩ := allowed plain
  exact all.part (Expr.parts_of_bindings declared member)

theorem AllowsBinding.handling {b : Binding} (allowed : S.AllowsBinding b) {e : Expr}
    (member : e ∈ Handler.parts b.handler) : S.Allows e := by
  refine allowed.part ?_
  simp only [Binding.parts, List.mem_cons, List.mem_append]
  exact .inr (.inr member)

theorem AllowsBinding.config (strict : S.Strict) {b : Binding} (allowed : S.AllowsBinding b)
    (plain : S.plain = true) : b.config = none := by
  obtain ⟨e, all, declared⟩ := allowed plain
  have free := strict.occurs plain e all.root
  cases e with
  | letIn bindings body handler | select bindings body handler => exact free.1 b declared
  | _ => cases declared

theorem AllowsBinding.handler {b : Binding} (allowed : S.AllowsBinding b)
    (unhandled : S.unhandled = true) : b.handler = none := by
  obtain ⟨plain, free⟩ := S.bare unhandled
  obtain ⟨e, all, declared⟩ := allowed plain
  have bare := free e all.root
  cases e with
  | letIn bindings body handler | select bindings body handler => exact bare.2 b declared
  | _ => cases declared

namespace Related

variable {α β γ : Type} {act : Translation → α → α} {bct : Translation → β → β}
  {cct : Translation → γ → γ}

/-- What commutes with translations keeps values related. -/
theorem map {a a' : α} (related : S.Related act a a') (f : α → β)
    (natural : ∀ τ a, f (act τ a) = bct τ (f a)) : S.Related bct (f a) (f a') := by
  refine ⟨?_, fun plain => ?_⟩
  · rw [related.image, natural]
  · rw [← natural, related.inert plain]

theorem map₂ {a a' : α} {b b' : β} (first : S.Related act a a') (second : S.Related bct b b')
    (f : α → β → γ) (natural : ∀ τ a b, f (act τ a) (bct τ b) = cct τ (f a b)) :
    S.Related cct (f a b) (f a' b') := by
  refine ⟨?_, fun plain => ?_⟩
  · rw [first.image, second.image, natural]
  · rw [← natural, first.inert plain, second.inert plain]

/-- What is read off related values and knows no translations is the same. -/
theorem same {a a' : α} (related : S.Related act a a') (f : α → β)
    (untouched : ∀ τ a, f (act τ a) = f a) : f a' = f a := by
  rw [related.image, untouched]

/-- What no translation changes is related to itself. -/
theorem const {a : α} (untouched : ∀ τ, act τ a = a) : S.Related act a a :=
  ⟨(untouched _).symm, fun _ => untouched _⟩

/-- Where everything may occur, any value may. -/
theorem of_effects (effects : S.plain = false) (a : α) : S.Related act a (act S.image a) := by
  refine ⟨rfl, fun plain => ?_⟩
  rw [effects] at plain
  cases plain

theorem uncons {a : α} {rest list' : List α}
    (related : S.Related (fun τ => List.map (act τ)) (a :: rest) list') :
    ∃ a' rest', list' = a' :: rest' ∧ S.Related act a a' ∧
      S.Related (fun τ => List.map (act τ)) rest rest' := by
  obtain ⟨rfl, inert⟩ := related
  refine ⟨_, _, rfl, ⟨rfl, fun plain => ?_⟩, ⟨rfl, fun plain => ?_⟩⟩
  · exact (List.cons.inj (inert plain)).1
  · exact (List.cons.inj (inert plain)).2

theorem nil : S.Related (fun τ => List.map (act τ)) [] [] :=
  .const fun _ => rfl

theorem cons {a a' : α} {rest rest' : List α} (first : S.Related act a a')
    (others : S.Related (fun τ => List.map (act τ)) rest rest') :
    S.Related (fun τ => List.map (act τ)) (a :: rest) (a' :: rest') :=
  first.map₂ others List.cons fun _ _ _ => rfl

end Related

theorem Related.contents {list list' : List Evaluated} (related : S.results list list') :
    S.values (list.map Evaluated.value) (list'.map Evaluated.value) :=
  related.map (List.map Evaluated.value) fun τ list => by simp [Function.comp_def]

theorem Related.content {v v' : Evaluated} (related : S.result v v') : S.value v.value v'.value :=
  related.map Evaluated.value Evaluated.value_translate

theorem Related.plainly {v v' : Value} (related : S.value v v') :
    S.result (.plain v) (.plain v') :=
  related.map Evaluated.plain fun _ _ => rfl

/-- The parts of a function that may occur may occur. -/
theorem Related.definition {l : Lambda} {v' : Value} (related : S.value (.lambda l) v') :
    S.Allows (.function l.definition) := by
  intro plain
  have fixed := Value.lambda.inj (related.inert plain)
  rw [Lambda.translate_eq] at fixed
  exact S.functions l.id l.definition (congrArg Lambda.id fixed) (congrArg Lambda.definition fixed)

theorem Related.function {o o' : Override} (related : S.Related Override.translate o o') :
    S.value (.lambda o.function) (.lambda o'.function) :=
  related.map (fun o => Value.lambda o.function) fun τ o => by cases o; rfl

/-- What a function has captured may occur where it does. -/
theorem Related.captured {l : Lambda} {v' : Value} (related : S.value (.lambda l) v') :
    S.Related (fun τ => Assoc.mapValues (Evaluated.translate τ)) l.captured
      (Assoc.mapValues (Evaluated.translate S.image) l.captured) := by
  refine ⟨rfl, fun plain => ?_⟩
  have fixed := Value.lambda.inj (related.inert plain)
  rw [Lambda.translate_eq] at fixed
  exact congrArg Lambda.captured fixed

/-- A function is no value without functions. -/
theorem Strict.effects_of_lambda (strict : S.Strict) {l : Lambda} {v' : Value}
    (related : S.value (.lambda l) v') : S.plain = false := by
  cases plain : S.plain with
  | false => rfl
  | true =>
      have fixed := Value.lambda.inj (related.inert plain)
      rw [Lambda.translate_eq] at fixed
      exact absurd (congrArg Lambda.id fixed) (strict.lambda plain l.id)

theorem Strict.effects_of_stream (strict : S.Strict) {id : Nat} {v' : Value}
    (related : S.value (.stream id) v') : S.plain = false := by
  cases plain : S.plain with
  | false => rfl
  | true => exact absurd (Value.stream.inj (related.inert plain)) (strict.stream plain id)

/-- Both outcomes are values, or both are signals, and they are related. -/
inductive Matches (S : Setting) {α : Type} (R : α → α → Prop) :
    Except Signal α → Except Signal α → Prop
  | ok {a a' : α} (related : R a a') : Matches S R (.ok a) (.ok a')
  | error {s s' : Signal} (related : S.signal s s') : Matches S R (.error s) (.error s')

/-- Where nothing is renamed, matching outcomes are the same. -/
theorem Matches.eq_of_verbatim {α : Type} {act : Translation → α → α} {o o' : Except Signal α}
    (matched : S.Matches (S.Related act) o o') (verbatim : S.image = .identity)
    (identity : ∀ a, act .identity a = a) : o' = o := by
  cases matched with
  | ok related => rw [related.image, verbatim, identity]
  | error related => rw [related.image, verbatim, Signal.translate_identity]

end Setting

/-! ## The rules -/

/-- What a computation may do to the frame it belongs to. -/
inductive Mode where
  /-- Look at it. -/
  | shared
  /-- Set its values, its cursor and its handled flag; it declares no let-bindings. -/
  | own
  /-- Compute the let-bindings that it declares. -/
  | letting (bindings : List Binding)

/-- Two computations that do the same things in the same order, each in its own frame, with related
results. -/
inductive Alike (S : Setting) : Mode → Nat → Nat → {α : Type} → (α → α → Prop) →
    (Runner → Eval α) → (Runner → Eval α) → Prop
  | pure {μ : Mode} {i i' : Nat} {α : Type} {R : α → α → Prop} {a a' : α} (related : R a a') :
      Alike S μ i i' R (fun _ => pure a) (fun _ => pure a')
  | throw {μ : Mode} {i i' : Nat} {α : Type} {R : α → α → Prop} {s s' : Signal}
      (related : S.signal s s') :
      Alike S μ i i' R (fun _ => throw s) (fun _ => throw s')
  | bind {μ : Mode} {i i' : Nat} {α β : Type} {R : α → α → Prop} {Q : β → β → Prop}
      {x x' : Runner → Eval α} {f f' : α → Runner → Eval β} (first : Alike S μ i i' R x x')
      (next : ∀ a a', R a a' → Alike S μ i i' Q (f a) (f' a')) :
      Alike S μ i i' Q (fun r => x r >>= fun a => f a r) (fun r => x' r >>= fun a => f' a r)
  /-- Where there are no handlers, an error is never held up. -/
  | catching {μ : Mode} {i i' : Nat} {α β : Type} {R : α → α → Prop} {Q : β → β → Prop}
      {x x' : Runner → Eval α} {f f' : Except Signal α → Runner → Eval β}
      (first : Alike S μ i i' R x x')
      (returned : ∀ a a', R a a' → Alike S μ i i' Q (f (.ok a)) (f' (.ok a')))
      (signalled : ∀ s s', S.signal s s' → Alike S μ i i' Q (f (.error s)) (f' (.error s')))
      (passed : S.unhandled = true → ∀ c, f (.error (.fault c)) = fun _ => throw (.fault c))
      (passedToo : S.keep = false → ∀ c, f' (.error (.fault c)) = fun _ => throw (.fault c)) :
      Alike S μ i i' Q (fun r => Eval.attempt (x r) >>= fun o => f o r)
        (fun r => Eval.attempt (x' r) >>= fun o => f' o r)
  | run {μ : Mode} {i i' : Nat} {e : Expr} (allowed : S.Allows e) :
      Alike S μ i i' S.result (fun r => r e i) (fun r => r (e.trim S.keep) i')
  | current {μ : Mode} {i i' : Nat} :
      Alike S μ i i' S.result (fun _ => Eval.ofChain fun c => c.current i)
        (fun _ => Eval.ofChain fun c => c.current i')
  | cursor {μ : Mode} {i i' : Nat} :
      Alike S μ i i' S.cursor (fun _ => Eval.ofChain fun c => c.cursor? i)
        (fun _ => Eval.ofChain fun c => c.cursor? i')
  | isHandled {i i' : Nat} :
      Alike S .own i i' Eq (fun _ => Eval.ofChain fun c => c.isHandled i)
        (fun _ => Eval.ofChain fun c => c.isHandled i')
  | setCursor {i i' : Nat} {a a' : Address} (related : S.address a a') :
      Alike S .own i i' Eq (fun _ => Eval.onChain fun c => c.setCursor i a)
        (fun _ => Eval.onChain fun c => c.setCursor i' a')
  | setValue {i i' : Nat} (name : String) {v v' : Evaluated} (related : S.result v v') :
      Alike S .own i i' Eq (fun _ => Eval.onChain fun c => c.setValue i name v)
        (fun _ => Eval.onChain fun c => c.setValue i' name v')
  | setHandled {i i' : Nat} (flag : Bool) :
      Alike S .own i i' Eq (fun _ => Eval.onChain fun c => c.setHandled i flag)
        (fun _ => Eval.onChain fun c => c.setHandled i' flag)
  | within {μ : Mode} {i i' : Nat} {α : Type} {R : α → α → Prop}
      {x x' : Nat → Runner → Eval α} (kind : FrameKind) (handlers : kind = .handler → S.keep = true)
      (body : ∀ j j', Alike S .own j j' R (x j) (x' j')) :
      Alike S μ i i' R (fun r => r.within kind i fun j => x j r)
        (fun r => r.within kind i' fun j => x' j r)
  | letting {μ : Mode} {i i' : Nat} {α : Type} {R : α → α → Prop}
      {x x' : Nat → Runner → Eval α} (kind : FrameKind) (handlers : kind ≠ .handler)
      {bindings : List Binding} (allowed : S.AllowsLet bindings)
      (body : ∀ j j', Alike S (.letting bindings) j j' R (x j) (x' j')) :
      Alike S μ i i' R
        (fun r => r.within kind i fun j => do
          Evaluation.declareAll j bindings
          x j r)
        (fun r => r.within kind i' fun j => do
          Evaluation.declareAll j (bindings.map (Binding.trim S.keep))
          x' j r)
  | unguarded {μ : Mode} {i i' : Nat} {x x' : Runner → Eval Evaluated} (h : Handler)
      (dropped : S.keep = false) (body : Alike S μ i i' S.result x x') :
      Alike S μ i i' S.result (fun r => Evaluation.guarded r i (some h) (x r)) x'
  | prefetch {i i' : Nat} {bindings : List Binding} {b : Binding} (member : b ∈ bindings)
      (allowed : S.AllowsBinding b)
      (compute : ∀ o o', Alike S .shared o o' S.result (fun r => Evaluation.compute r o b)
        (fun r => Evaluation.compute r o' (b.trim S.keep))) :
      Alike S (.letting bindings) i i' Eq (fun r => Evaluation.prefetch r i b)
        (fun r => Evaluation.prefetch r i' (b.trim S.keep))
  | named {μ : Mode} {i i' : Nat} {name : String} (allowed : S.Allows (.named name))
      (compute : ∀ o o' b, S.AllowsBinding b →
        Alike S .shared o o' S.result (fun r => Evaluation.compute r o b)
          (fun r => Evaluation.compute r o' (b.trim S.keep))) :
      Alike S μ i i' S.result (fun r => Evaluation.nameRef r name i)
        (fun r => Evaluation.nameRef r name i')
  | once {μ : Mode} {i i' : Nat} {x x' : Runner → Eval Evaluated} {l l' : Lambda}
      (function : S.value (.lambda l) (.lambda l')) (body : Alike S μ i i' S.result x x') :
      Alike S μ i i' S.result (fun r => Eval.once l.id (x r)) (fun r => Eval.once l'.id (x' r))
  | makeLambda {μ : Mode} {i i' : Nat} (d : Definition) (allowed : S.Allows (.function d)) :
      Alike S μ i i' S.result (fun _ => Evaluation.makeLambda d i)
        (fun _ => Evaluation.makeLambda (d.trim S.keep) i')
  | drain {μ : Mode} {i i' : Nat} {id : Nat} (source : S.value (.stream id) (.stream id)) :
      Alike S μ i i' S.values (fun _ => Eval.drain id) (fun _ => Eval.drain id)
  | deliver {μ : Mode} {i i' : Nat} {input : Expr} {component : String}
      (allowed : S.Allows (.sink input component)) {v v' : Value} (related : S.value v v') :
      Alike S μ i i' S.value (fun _ => Eval.deliver component v)
        (fun _ => Eval.deliver component v')
  | withStore {μ : Mode} {i i' : Nat} {α : Type} {act : Translation → α → α}
      {operation operation' : Nat → Store.Backend → Except StoreError α × Store.Backend}
      {name : String} {args : List Expr} (allowed : S.Allows (.call "state" name args))
      (related : ∀ n b, S.Related (fun τ o => (o.1.map (act τ), o.2)) (operation n b)
        (operation' n b)) :
      Alike S μ i i' (S.Related act) (fun _ => Evaluation.withStore operation "state" name)
        (fun _ => Evaluation.withStore operation' "state" name)
  | markHandled {μ : Mode} {i i' : Nat} {args : List Expr}
      (allowed : S.Allows (.call "error" "handled" args)) (flag : Bool) :
      Alike S μ i i' S.value (fun _ => Evaluation.markHandled i flag)
        (fun _ => Evaluation.markHandled i' flag)

end TreeQuery
