import TreeQuery.Proofs.Lockstep.Runs
import TreeQuery.Proofs.Translation.Contents

/-!
# Programs without functions

Where no function is made or called, nothing that was made elsewhere runs: what an expression looks up
is said by its own text and by the let-bindings it can see. `Setting.functionless` is for programs
without functions. It may also exclude references to one name, which is then hidden from what runs;
the values that occur are the same with a name hidden and without.
-/

set_option autoImplicit false

namespace TreeQuery

/-- An expression that neither makes nor calls a function. -/
def Expr.FunctionFree : Expr → Prop
  | .function _ | .invoke _ _ => False
  | _ => True

/-- No functions in all that a program consists of. -/
structure Program.FunctionFree (p : Program) : Prop where
  root : Expr.All Expr.FunctionFree p.root
  handler : ∀ e ∈ Handler.parts p.handler, Expr.All Expr.FunctionFree e

/-- An expression without functions that does not refer to the hidden name, if there is one. -/
def Expr.Functionless (hidden : Option String) (e : Expr) : Prop :=
  e.FunctionFree ∧ ∀ name ∈ hidden, e ≠ .named name

theorem Expr.FunctionFree.functionless {e : Expr} (free : e.FunctionFree) :
    e.Functionless none :=
  ⟨free, fun _ absent => by cases absent⟩

/-- Expressions and values without functions. -/
def Realm.functionless (hidden : Option String) : Realm where
  occurs := Expr.Functionless hidden
  test := ⟨Definition.altered, id, id, fun _ _ same => same, fun _ _ same => same⟩
  functions _ d _ fixed := absurd fixed d.altered_ne
  made _ all := all.root.1.elim

/-- Runs of a program without functions. -/
abbrev Setting.functionless (hidden : Option String) : Setting :=
  { Realm.functionless hidden with
    keep := true
    plain := true
    marks := false
    unhandled := false
    renumber := id
    injective := fun _ _ same => same
    bare := nofun }

variable {hidden : Option String}

namespace Setting

theorem functionless_free : (functionless hidden).FunctionFree :=
  fun _ _ related => (related.definition rfl).root.1

theorem functionless_fixes : (functionless hidden).test.Fixes fun _ _ => False :=
  ⟨nofun, nofun, fun _ => rfl⟩

/-! ## Names that are hidden or not -/

theorem Related.revealed {α : Type} {act : Translation → α → α} {a a' : α} {other : Option String}
    (related : (functionless hidden).Related act a a') : (functionless other).Related act a a' :=
  ⟨related.image, related.inert⟩

theorem Allows.all {e : Expr} (allowed : (functionless hidden).Allows e) :
    Expr.All (Expr.Functionless hidden) e :=
  allowed rfl

theorem Allows.revealed {e : Expr} (allowed : (functionless hidden).Allows e) :
    (functionless none).Allows e :=
  fun _ => (allowed rfl).imp fun _ free => free.1.functionless

theorem AllowsBinding.revealed {b : Binding} (allowed : (functionless hidden).AllowsBinding b) :
    (functionless none).AllowsBinding b := by
  intro plain
  obtain ⟨e, all, declared⟩ := allowed plain
  exact ⟨e, all.imp fun _ free => free.1.functionless, declared⟩

theorem AllowsLet.revealed {bindings : List Binding}
    (allowed : (functionless hidden).AllowsLet bindings) :
    (functionless none).AllowsLet bindings := by
  intro plain
  obtain ⟨e, all, declared⟩ := allowed plain
  exact ⟨e, all.imp fun _ free => free.1.functionless, declared⟩

/-- A computation ends where one does that a name may be hidden from. -/
theorem Ends.revealed {α : Type} {R Q : α → α → Prop} {other : Option String}
    {o : Except Signal α} (ends : (functionless hidden).Ends R o)
    (wider : ∀ a a', R a a' → ∃ a', Q a a') : (functionless other).Ends Q o := by
  cases o with
  | ok a =>
      obtain ⟨a', related⟩ := ends
      exact wider a a' related
  | error s =>
      obtain ⟨s', related⟩ := ends
      exact ⟨s', related.revealed⟩

end Setting

/-! ## Runs -/

/-- A run of a program without functions and itself. -/
def Comparison.functionless (settings : Settings) : Comparison (.functionless none) where
  base := {}
  settings
  limit := settings.maxDepth
  lasting := true
  offset := 0
  fits _ := True
  fatal _ := False
  bare _ := False
  kept := rfl
  identities _ _ := rfl
  fits_of_le _ _ _ _ := trivial
  numbered _ _ := rfl
  unhandled _ := nofun
  config _ _ := nofun
  apart := nofun

/-- The evaluation of parts keeps a machine without functions. -/
theorem TiedRunner.functionless (settings : Settings) (left : Nat) :
    TiedRunner (.functionless settings) (.ofDepth left) (.ofDepth left) :=
  .ofDepth (.inl ⟨rfl, rfl⟩)

/-! ## Machines that hold no functions -/

/-- A machine on which only programs without functions were evaluated, on inputs without functions,
since it was new. In between, streams may be filled. -/
inductive Machine.FunctionFree : Machine → Prop
  | start {m : Machine} (pristine : m.Pristine)
      (streams : ∀ entry ∈ m.streams, ∀ v ∈ entry.2, v.FunctionFree) : FunctionFree m
  | filled {m : Machine} (before : FunctionFree m) {streams : Assoc Nat (List Value)}
      (free : ∀ entry ∈ streams, ∀ v ∈ entry.2, v.FunctionFree) : FunctionFree { m with streams }
  | evaluated {m : Machine} (before : FunctionFree m) {p : Program} {input : Value}
      (program : p.FunctionFree) (plain : input.FunctionFree) :
      FunctionFree (m.evaluate p input).2

variable {m : Machine} {p : Program} {input : Value}

theorem Expr.All.functionless {e : Expr} (free : Expr.All Expr.FunctionFree e) :
    (Setting.functionless none).Allows e :=
  fun _ => free.imp fun _ free => free.functionless

theorem Program.FunctionFree.allowed (program : p.FunctionFree) :
    (Setting.functionless none).AllowsProgram p :=
  ⟨program.root.functionless, fun e member => (program.handler e member).functionless, nofun⟩

theorem Value.FunctionFree.unchanged (plain : input.FunctionFree) :
    (Setting.functionless none).value input (input.translate (Setting.functionless none).image) :=
  ⟨rfl, fun _ => input.translate_holds Setting.functionless_fixes plain⟩

theorem Machine.FunctionFree.confined (free : m.FunctionFree) :
    Confined (.functionless m.settings) m ∧ m.Idle := by
  induction free with
  | start pristine streams =>
      exact ⟨pristine.confined rfl rfl fun _ _ =>
        Value.streams_translate_holds Setting.functionless_fixes streams, pristine.toIdle⟩
  | filled _ free ih =>
      obtain ⟨confined, idle⟩ := ih
      exact ⟨confined.refilled fun _ _ =>
        Value.streams_translate_holds Setting.functionless_fixes free, idle.size, idle.depth⟩
  | @evaluated m _ _ _ program plain ih =>
      obtain ⟨confined, idle⟩ := ih
      exact idle.confined_evaluate (.functionless m.settings m.depthLeft) program.allowed
        plain.unchanged confined

end TreeQuery
