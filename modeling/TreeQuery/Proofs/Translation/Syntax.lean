import Mathlib.Logic.Basic
import TreeQuery.Program

/-!
# Expressions and their parts

The parts of an expression are the expressions that stand directly in it, those of its bindings,
handlers, parameters and patterns included. `Expr.All p` says that `p` holds of an expression and of
everything below it.

`Expr.trim` takes the handlers out of an expression, at any depth, and leaves all else as it is, the
identities of bindings included. It takes a flag, so that what holds of expressions with and without
their handlers can be said once; with the flag set it changes nothing (`Expr.trim_true`).
-/

set_option autoImplicit false

namespace TreeQuery

/-! ## Parts -/

def Handler.parts : Option Handler → List Expr
  | none => []
  | some h => [h.body]

def Binding.parts (b : Binding) : List Expr :=
  b.expr :: (b.config.toList ++ Handler.parts b.handler)

def Definition.parts (d : Definition) : List Expr :=
  d.body :: (d.params.filterMap Param.fallback ++ Handler.parts d.handler)

def PatternPart.parts : PatternPart → List Expr
  | .computed e => [e]
  | .filter es => es
  | _ => []

/-- The expressions that stand directly in an expression. -/
def Expr.parts : Expr → List Expr
  | .array es | .chain es | .call _ _ es => es
  | .object members => members.map Prod.snd
  | .binary _ left right => [left, right]
  | .unary _ e | .stop _ e | .sink e _ => [e]
  | .function d => d.parts
  | .invoke target args => target :: args
  | .scope body handler => body :: Handler.parts handler
  | .letIn bindings body handler | .select bindings body handler =>
    body :: (bindings.flatMap Binding.parts ++ Handler.parts handler)
  | .conditional condition yes no => condition :: yes :: no.toList
  | .map source body => [source, body]
  | .aggregate source initial body => [source, initial, body]
  | .raise _ _ message payload => message :: payload.toList
  | .pattern parts => parts.flatMap PatternPart.parts
  | _ => []

/-- What holds of an expression and of everything below it. -/
inductive Expr.All (p : Expr → Prop) : Expr → Prop
  | intro {e : Expr} (here : p e) (below : ∀ part ∈ e.parts, Expr.All p part) : Expr.All p e

theorem Expr.All.root {p : Expr → Prop} {e : Expr} (all : Expr.All p e) : p e := by
  cases all with | intro here _ => exact here

theorem Expr.All.part {p : Expr → Prop} {e part : Expr} (all : Expr.All p e)
    (member : part ∈ e.parts) : Expr.All p part := by
  cases all with | intro _ below => exact below part member

theorem Expr.All.leaf {p : Expr → Prop} {e : Expr} (here : p e) (bare : e.parts = []) :
    Expr.All p e :=
  .intro here (by simp [bare])

theorem Expr.All.and {p q : Expr → Prop} {e : Expr} (first : Expr.All p e)
    (second : Expr.All q e) : Expr.All (fun e => p e ∧ q e) e := by
  induction first with
  | intro here _ ih =>
      exact .intro ⟨here, second.root⟩ fun part member => ih part member (second.part member)

theorem Expr.All.imp {p q : Expr → Prop} {e : Expr} (all : Expr.All p e)
    (wider : ∀ e, p e → q e) : Expr.All q e := by
  induction all with
  | intro here _ ih => exact .intro (wider _ here) ih

/-! ## Taking handlers out -/

mutual

/-- The expression with its handlers if `keep` is set, and without any otherwise. -/
def Expr.trim (keep : Bool) : Expr → Expr
  | .empty => .empty
  | .null => .null
  | .bool b => .bool b
  | .number n => .number n
  | .text s => .text s
  | .bytes b => .bytes b
  | .array items => .array (Expr.trimList keep items)
  | .object members => .object (Expr.trimMembers keep members)
  | .current => .current
  | .named name => .named name
  | .member key => .member key
  | .element position => .element position
  | .chain steps => .chain (Expr.trimList keep steps)
  | .binary op left right => .binary op (left.trim keep) (right.trim keep)
  | .unary op operand => .unary op (operand.trim keep)
  | .call library name args => .call library name (Expr.trimList keep args)
  | .function d => .function (d.trim keep)
  | .invoke target args => .invoke (target.trim keep) (Expr.trimList keep args)
  | .scope body handler => .scope (body.trim keep) (Handler.trimOption keep handler)
  | .letIn bindings body handler =>
    .letIn (Binding.trimList keep bindings) (body.trim keep) (Handler.trimOption keep handler)
  | .select bindings body handler =>
    .select (Binding.trimList keep bindings) (body.trim keep) (Handler.trimOption keep handler)
  | .conditional condition yes no =>
    .conditional (condition.trim keep) (yes.trim keep) (Expr.trimOption keep no)
  | .map source body => .map (source.trim keep) (body.trim keep)
  | .aggregate source initial body =>
    .aggregate (source.trim keep) (initial.trim keep) (body.trim keep)
  | .breakLoop => .breakLoop
  | .continueLoop => .continueLoop
  | .stop reason value => .stop reason (value.trim keep)
  | .raise kind code message payload =>
    .raise kind code (message.trim keep) (Expr.trimOption keep payload)
  | .address steps => .address steps
  | .pattern parts => .pattern (PatternPart.trimList keep parts)
  | .sink input component => .sink (input.trim keep) component

def Expr.trimList (keep : Bool) : List Expr → List Expr
  | [] => []
  | e :: rest => e.trim keep :: Expr.trimList keep rest

def Expr.trimMembers (keep : Bool) : List (String × Expr) → List (String × Expr)
  | [] => []
  | (key, e) :: rest => (key, e.trim keep) :: Expr.trimMembers keep rest

def Expr.trimOption (keep : Bool) : Option Expr → Option Expr
  | none => none
  | some e => some (e.trim keep)

def Param.trimList (keep : Bool) : List Param → List Param
  | [] => []
  | ⟨name, fallback⟩ :: rest => ⟨name, Expr.trimOption keep fallback⟩ :: Param.trimList keep rest

def Definition.trim (keep : Bool) : Definition → Definition
  | ⟨params, body, onAccess, handler⟩ =>
    ⟨Param.trimList keep params, body.trim keep, onAccess, Handler.trimOption keep handler⟩

def Handler.trim (keep : Bool) : Handler → Handler
  | ⟨body, handled⟩ => ⟨body.trim keep, handled⟩

def Handler.trimOption (keep : Bool) : Option Handler → Option Handler
  | none => none
  | some h => if keep then some (h.trim keep) else none

def Binding.trim (keep : Bool) : Binding → Binding
  | ⟨id, name, expr, config, handler⟩ =>
    ⟨id, name, expr.trim keep, Expr.trimOption keep config, Handler.trimOption keep handler⟩

def Binding.trimList (keep : Bool) : List Binding → List Binding
  | [] => []
  | b :: rest => b.trim keep :: Binding.trimList keep rest

def PatternPart.trim (keep : Bool) : PatternPart → PatternPart
  | .key name => .key name
  | .computed expr => .computed (expr.trim keep)
  | .any => .any
  | .anyBelow => .anyBelow
  | .anyDepth => .anyDepth
  | .filter predicates => .filter (Expr.trimList keep predicates)

def PatternPart.trimList (keep : Bool) : List PatternPart → List PatternPart
  | [] => []
  | p :: rest => p.trim keep :: PatternPart.trimList keep rest

end

def Program.trim (keep : Bool) (p : Program) : Program :=
  ⟨p.root.trim keep, Handler.trimOption keep p.handler⟩

/-- The program without any handler. -/
abbrev Program.erase (p : Program) : Program := p.trim false

section Lists

variable (keep : Bool)

theorem Expr.trimList_eq (es : List Expr) : Expr.trimList keep es = es.map (Expr.trim keep) := by
  induction es with
  | nil => rfl
  | cons e rest ih => simp [Expr.trimList, ih]

theorem Expr.trimOption_eq (e : Option Expr) : Expr.trimOption keep e = e.map (Expr.trim keep) := by
  cases e <;> rfl

theorem Expr.trimMembers_eq (members : List (String × Expr)) :
    Expr.trimMembers keep members = members.map fun m => (m.1, m.2.trim keep) := by
  induction members with
  | nil => rfl
  | cons m rest ih =>
      obtain ⟨key, e⟩ := m
      simp [Expr.trimMembers, ih]

theorem Param.trimList_eq (params : List Param) :
    Param.trimList keep params =
      params.map fun p => ⟨p.name, p.fallback.map (Expr.trim keep)⟩ := by
  induction params with
  | nil => rfl
  | cons p rest ih =>
      obtain ⟨name, fallback⟩ := p
      simp [Param.trimList, Expr.trimOption_eq, ih]

theorem PatternPart.trimList_eq (parts : List PatternPart) :
    PatternPart.trimList keep parts = parts.map (PatternPart.trim keep) := by
  induction parts with
  | nil => rfl
  | cons p rest ih => simp [PatternPart.trimList, ih]

theorem Binding.trimList_eq (bs : List Binding) :
    Binding.trimList keep bs = bs.map (Binding.trim keep) := by
  induction bs with
  | nil => rfl
  | cons b rest ih => simp [Binding.trimList, ih]

end Lists

section Fields

variable (keep : Bool)

theorem Handler.body_trim (h : Handler) : (h.trim keep).body = h.body.trim keep := by
  cases h
  rfl

theorem Handler.handled_trim (h : Handler) : (h.trim keep).handled = h.handled := by
  cases h
  rfl

theorem Binding.id_trim (b : Binding) : (b.trim keep).id = b.id := by
  cases b
  rfl

theorem Binding.name_trim (b : Binding) : (b.trim keep).name = b.name := by
  cases b
  rfl

theorem Binding.expr_trim (b : Binding) : (b.trim keep).expr = b.expr.trim keep := by
  cases b
  rfl

theorem Binding.config_trim (b : Binding) :
    (b.trim keep).config = b.config.map (Expr.trim keep) := by
  cases b
  exact Expr.trimOption_eq keep _

theorem Binding.handler_trim (b : Binding) :
    (b.trim keep).handler = Handler.trimOption keep b.handler := by
  cases b
  rfl

theorem Definition.body_trim (d : Definition) : (d.trim keep).body = d.body.trim keep := by
  cases d
  rfl

theorem Definition.handler_trim (d : Definition) :
    (d.trim keep).handler = Handler.trimOption keep d.handler := by
  cases d
  rfl

theorem Definition.params_trim (d : Definition) : (d.trim keep).params =
    d.params.map fun p => ⟨p.name, p.fallback.map (Expr.trim keep)⟩ := by
  cases d
  exact Param.trimList_eq keep _

theorem Definition.onAccess_trim (d : Definition) : (d.trim keep).onAccess = d.onAccess := by
  cases d
  rfl

/-- When a function is invoked does not depend on its handlers. -/
theorem Definition.invokesOnAccess_trim (d : Definition) :
    (d.trim keep).invokesOnAccess = d.invokesOnAccess := by
  simp [Definition.invokesOnAccess, Definition.params_trim, Definition.onAccess_trim,
    List.all_map, Function.comp_def]

end Fields

mutual

theorem Expr.trim_true : ∀ e : Expr, e.trim true = e
  | .empty | .null | .bool _ | .number _ | .text _ | .bytes _ | .current | .named _ | .member _
  | .element _ | .breakLoop | .continueLoop | .address _ => by simp only [Expr.trim]
  | .array items => by rw [Expr.trim, Expr.trimList_true items]
  | .object members => by rw [Expr.trim, Expr.trimMembers_true members]
  | .chain steps => by rw [Expr.trim, Expr.trimList_true steps]
  | .binary op left right => by rw [Expr.trim, Expr.trim_true left, Expr.trim_true right]
  | .unary op operand => by rw [Expr.trim, Expr.trim_true operand]
  | .call library name args => by rw [Expr.trim, Expr.trimList_true args]
  | .function d => by rw [Expr.trim, Definition.trim_true d]
  | .invoke target args => by rw [Expr.trim, Expr.trim_true target, Expr.trimList_true args]
  | .scope body handler => by rw [Expr.trim, Expr.trim_true body, Handler.trimOption_true handler]
  | .letIn bindings body handler => by
      rw [Expr.trim, Binding.trimList_true bindings, Expr.trim_true body,
        Handler.trimOption_true handler]
  | .select bindings body handler => by
      rw [Expr.trim, Binding.trimList_true bindings, Expr.trim_true body,
        Handler.trimOption_true handler]
  | .conditional condition yes no => by
      rw [Expr.trim, Expr.trim_true condition, Expr.trim_true yes, Expr.trimOption_true no]
  | .map source body => by rw [Expr.trim, Expr.trim_true source, Expr.trim_true body]
  | .aggregate source initial body => by
      rw [Expr.trim, Expr.trim_true source, Expr.trim_true initial, Expr.trim_true body]
  | .stop reason value => by rw [Expr.trim, Expr.trim_true value]
  | .raise kind code message payload => by
      rw [Expr.trim, Expr.trim_true message, Expr.trimOption_true payload]
  | .pattern parts => by rw [Expr.trim, PatternPart.trimList_true parts]
  | .sink input component => by rw [Expr.trim, Expr.trim_true input]

theorem Expr.trimList_true : ∀ es : List Expr, Expr.trimList true es = es
  | [] => rfl
  | e :: rest => by rw [Expr.trimList, Expr.trim_true e, Expr.trimList_true rest]

theorem Expr.trimMembers_true : ∀ es : List (String × Expr), Expr.trimMembers true es = es
  | [] => rfl
  | (_, e) :: rest => by rw [Expr.trimMembers, Expr.trim_true e, Expr.trimMembers_true rest]

theorem Expr.trimOption_true : ∀ e : Option Expr, Expr.trimOption true e = e
  | none => rfl
  | some e => by rw [Expr.trimOption, Expr.trim_true e]

theorem Param.trimList_true : ∀ ps : List Param, Param.trimList true ps = ps
  | [] => rfl
  | ⟨_, fallback⟩ :: rest => by
      rw [Param.trimList, Expr.trimOption_true fallback, Param.trimList_true rest]

theorem Definition.trim_true : ∀ d : Definition, d.trim true = d
  | ⟨params, body, _, handler⟩ => by
      rw [Definition.trim, Param.trimList_true params, Expr.trim_true body,
        Handler.trimOption_true handler]

theorem Handler.trim_true : ∀ h : Handler, h.trim true = h
  | ⟨body, _⟩ => by rw [Handler.trim, Expr.trim_true body]

theorem Handler.trimOption_true : ∀ h : Option Handler, Handler.trimOption true h = h
  | none => rfl
  | some h => by rw [Handler.trimOption, if_pos rfl, Handler.trim_true h]

theorem Binding.trim_true : ∀ b : Binding, b.trim true = b
  | ⟨_, _, expr, config, handler⟩ => by
      rw [Binding.trim, Expr.trim_true expr, Expr.trimOption_true config,
        Handler.trimOption_true handler]

theorem Binding.trimList_true : ∀ bs : List Binding, Binding.trimList true bs = bs
  | [] => rfl
  | b :: rest => by rw [Binding.trimList, Binding.trim_true b, Binding.trimList_true rest]

theorem PatternPart.trim_true : ∀ p : PatternPart, p.trim true = p
  | .key _ | .any | .anyBelow | .anyDepth => by simp only [PatternPart.trim]
  | .computed expr => by rw [PatternPart.trim, Expr.trim_true expr]
  | .filter predicates => by rw [PatternPart.trim, Expr.trimList_true predicates]

theorem PatternPart.trimList_true : ∀ ps : List PatternPart, PatternPart.trimList true ps = ps
  | [] => rfl
  | p :: rest => by
      rw [PatternPart.trimList, PatternPart.trim_true p, PatternPart.trimList_true rest]

end

end TreeQuery
