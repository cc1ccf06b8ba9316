import TreeQuery.Proofs.Cursor.Level
import TreeQuery.Proofs.Lockstep.Runs

/-!
# Evaluation at level chains

Without functions, handlers and patterns that compute, every evaluation that is started finds a
level chain. `Poised` says what it finds, and `InStep` that a computation, run under a watch on what
its parts find, comes to the same as without the watch and leaves the machine poised. One lemma a
construct shows this: those that only pass a current value on push a frame that shows what is around
it, a round over an array sets its own cursor, and the steps of a chain set the cursor of their frame
along with its current value (`Poised.step`).
-/

set_option autoImplicit false

namespace TreeQuery

/-! ## Straight programs -/

/-- A part of a pattern that is not decided by expressions. -/
def PatternPart.Fixed : PatternPart → Prop
  | .computed _ | .filter _ => False
  | _ => True

/-- An expression that neither makes nor calls a function, has no handler on anything that it
consists of, and no pattern that is decided by expressions. -/
def Expr.Straight : Expr → Prop
  | .function _ | .invoke _ _ => False
  | .scope _ handler => handler = none
  | .letIn bindings _ handler | .select bindings _ handler =>
    handler = none ∧ ∀ b ∈ bindings, b.handler = none
  | .pattern parts => ∀ part ∈ parts, part.Fixed
  | _ => True

theorem Expr.Straight.handlerFree {e : Expr} (straight : e.Straight) : e.HandlerFree := by
  cases e with
  | function _ => exact straight.elim
  | scope _ _ | letIn _ _ _ | select _ _ _ => exact straight
  | _ => trivial

/-- Straight expressions, and values without functions. -/
noncomputable abbrev Setting.straight : Setting :=
  { Realm.guarding Expr.Straight id fun _ _ same => same with
    keep := true
    plain := true
    marks := false
    unhandled := true
    renumber := id
    injective := fun _ _ same => same
    bare := fun _ => ⟨rfl, fun _ straight => straight.handlerFree⟩ }

theorem Setting.straight_free : Setting.straight.FunctionFree :=
  fun _ _ related => (related.definition rfl).root

/-- A run of a straight program and itself. -/
def Comparison.straight (settings : Settings) : Comparison .straight where
  base := {}
  settings
  limit := settings.maxDepth
  lasting := true
  offset := 0
  fits _ := True
  fatal _ := False
  bare _ := False
  kept := rfl
  identities _ _ := rfl
  fits_of_le _ _ _ _ := trivial
  numbered _ _ := rfl
  unhandled _ := nofun
  config _ _ := nofun
  apart := nofun

/-- The evaluation of parts keeps a machine confined. -/
theorem TiedRunner.straight (settings : Settings) (left : Nat) :
    TiedRunner (.straight settings) (.ofDepth left) (.ofDepth left) :=
  .ofDepth (.inl ⟨rfl, rfl⟩)

theorem Confined.setValue {s : Settings} {m : Machine} (confined : Confined (.straight s) m)
    (i : Nat) (name : String) {u u' : Evaluated} (related : Setting.straight.result u u') :
    Confined (.straight s) (m.onChain fun c => c.setValue i name u) := by
  have tied : Tied (.straight s) (.ofDepth 0) (.ofDepth 0) Eq
      (fun _ => Eval.onChain fun c => c.setValue i name u)
      (fun _ => Eval.onChain fun c => c.setValue i name u') := .setValue name related
  exact (tied m confined).confined

theorem Confined.setCursor {s : Settings} {m : Machine} (confined : Confined (.straight s) m)
    (i : Nat) {a a' : Address} (related : Setting.straight.address a a') :
    Confined (.straight s) (m.onChain fun c => c.setCursor i a) := by
  have tied : Tied (.straight s) (.ofDepth 0) (.ofDepth 0) Eq
      (fun _ => Eval.onChain fun c => c.setCursor i a)
      (fun _ => Eval.onChain fun c => c.setCursor i a') := .setCursor related
  exact (tied m confined).confined

/-! ## Machines at which an evaluation may start -/

/-- A machine at which a straight expression may be evaluated in the frame at `i`, where the current
value is `v`. -/
structure Poised (s : Settings) (i : Nat) (v : Evaluated) (m : Machine) : Prop where
  confined : Confined (.straight s) m
  nested : m.chain.Nested
  live : i < m.chain.size
  level : m.chain.Level
  current : m.chain.current i = v

variable {s : Settings} {w : Runner} {left : Nat} {i : Nat} {v : Evaluated} {m n : Machine}

namespace Poised

theorem elsewhere (poised : Poised s i v m) {j : Nat} (live : j < m.chain.size) :
    Poised s j (m.chain.current j) m :=
  ⟨poised.confined, poised.nested, live, poised.level, rfl⟩

theorem after (poised : Poised s i v m) (balanced : Balanced i m n)
    (confined : Confined (.straight s) n) : Poised s i v n := by
  refine ⟨confined, balanced.nested, ?_, balanced.level poised.nested poised.level, ?_⟩
  · rw [balanced.size]
    exact poised.live
  · rw [balanced.current]
    exact poised.current

theorem atDepth (poised : Poised s i v m) (depth : Nat) : Poised s i v { m with depth } :=
  ⟨poised.confined.atDepth depth, poised.nested, poised.live, poised.level, poised.current⟩

/-- The current value holds no functions. -/
theorem result (poised : Poised s i v m) : ∃ v', Setting.straight.result v v' := by
  have alike : Alike .straight .shared i i Setting.straight.result
      (fun _ => Eval.ofChain fun c => c.current i) (fun _ => Eval.ofChain fun c => c.current i) :=
    .current
  rw [← poised.current]
  exact (alike.tied (.straight s 0) rfl m poised.confined).ends

/-- Nor does the tree of the cursor. -/
theorem cursor (poised : Poised s i v m) :
    ∃ a', Setting.straight.cursor (m.chain.cursor? i) a' := by
  have alike : Alike .straight .shared i i Setting.straight.cursor
      (fun _ => Eval.ofChain fun c => c.cursor? i) (fun _ => Eval.ofChain fun c => c.cursor? i) :=
    .cursor
  exact (alike.tied (.straight s 0) rfl m poised.confined).ends

end Poised

/-- A frame that shows a value `u`, where `v` is seen around it: it has a cursor that leads there, or
none and shows the same, unless it belongs to a round. -/
structure Frame.Shows (v u : Evaluated) (f : Frame) : Prop where
  value : Assoc.get? f.values Chain.currentName = some u
  addressed : ∀ a, f.cursor = some a → a.LeadsTo u.value
  around : f.cursor = none → f.kind ≠ .loop → u = v

/-- A machine with one more frame, which is known, on top. -/
structure Topped (s : Settings) (i : Nat) (m : Machine) (f : Frame) (n : Machine) : Prop
    extends Grown i m n where
  found : n.chain.frame? m.chain.size = some f
  confined : Confined (.straight s) n

namespace Topped

variable {f : Frame}

theorem push (confined : Confined (.straight s) m) (kind : FrameKind) (i : Nat) :
    Topped s i m { kind, parent := some i } (m.onChain fun c => c.push kind (some i)) := by
  refine ⟨.push m kind i, m.frame?_push kind i, confined.onChain (fun plain => ?_) ?_⟩
  · rw [Chain.under_push, confined.chain plain]
  · exact confined.declares.push kind (some i)

theorem letFrame (confined : Confined (.straight s) m) (kind : FrameKind) (i : Nat)
    {bindings : List Binding} (allowed : Setting.straight.AllowsLet bindings) :
    Topped s i m { kind, parent := some i, lets := declareIn [] bindings }
      (m.letFrame kind i bindings) := by
  refine ⟨.letFrame m kind i bindings, m.frame?_letFrame_top kind i bindings,
    confined.onChain (f := fun c => (c.push kind (some i)).update m.chain.size fun f =>
      { f with lets := declareIn f.lets bindings }) (fun plain => ?_)
      (confined.declares.letFrame allowed kind i)⟩
  have grown := m.chain.letFrame_under (β := id) (fun _ => rfl) Setting.straight.test kind i bindings
  rw [List.map_id, confined.chain plain] at grown
  exact grown

theorem setValue (topped : Topped s i m f n) (name : String) {u u' : Evaluated}
    (related : Setting.straight.result u u') :
    Topped s i m { f with values := Assoc.insert f.values name u }
      (n.onChain fun c => c.setValue m.chain.size name u) := by
  refine ⟨topped.toGrown.update fun _ => rfl, ?_, topped.confined.setValue _ name related⟩
  simp [Machine.onChain, Chain.setValue, Chain.frame?_update, topped.found]

theorem setCursor (topped : Topped s i m f n) {a a' : Address}
    (related : Setting.straight.address a a') :
    Topped s i m { f with cursor := some a } (n.onChain fun c => c.setCursor m.chain.size a) := by
  refine ⟨topped.toGrown.update fun _ => rfl, ?_, topped.confined.setCursor _ related⟩
  simp [Machine.onChain, Chain.setCursor, Chain.frame?_update, topped.found]

variable (topped : Topped s i m f n) (poised : Poised s i v m)

include topped poised

theorem showing {u : Evaluated} (shown : f.Shows v u) : Poised s m.chain.size u n := by
  have nested := topped.nested poised.nested poised.live
  have size := topped.size
  have own := Chain.current_own nested topped.found shown.value
  refine ⟨topped.confined, nested, by omega, ?_, own⟩
  cases cursor : f.cursor with
  | some a =>
      exact topped.level poised.nested poised.live poised.level fun _ =>
        .of_own nested topped.found cursor shown.value (shown.addressed a cursor)
  | none =>
      refine topped.level_inherited poised.nested poised.live poised.level topped.found cursor
        fun kind => ?_
      rw [own, shown.around cursor kind, poised.current]

/-- A frame that shows nothing itself. -/
theorem silent (blank : f.values = []) (absent : f.cursor = none) :
    Poised s m.chain.size v n := by
  have nested := topped.nested poised.nested poised.live
  have size := topped.size
  have parent : f.parent = some i := by
    rw [← Chain.parent?_of_frame? topped.found]
    exact topped.parent
  have inherited : n.chain.current m.chain.size = v := by
    have none : Assoc.get? f.values Chain.currentName = none := by rw [blank]; rfl
    rw [Chain.current_parent nested topped.found none parent,
      (topped.sameBelow poised.nested poised.live).current poised.live, poised.current]
  refine ⟨topped.confined, nested, by omega, ?_, inherited⟩
  refine topped.level_inherited poised.nested poised.live poised.level topped.found absent fun _ => ?_
  rw [inherited, poised.current]

end Topped

/-! ## Computations in step -/

variable {α β : Type} {R : α → α → Prop} {x : Runner → Eval α}

/-- The computation comes to the same with the evaluation `w` of its parts as with the plain one. -/
def Coincide (s : Settings) (w : Runner) (left i : Nat) (v : Evaluated) {α : Type}
    (x : Runner → Eval α) : Prop :=
  ∀ m, Poised s i v m → x w m = x (.ofDepth left) m

/-- It also leaves the machine poised, and ends in a value or a signal without functions. -/
structure InStep (s : Settings) (w : Runner) (left i : Nat) (v : Evaluated) {α : Type}
    (R : α → α → Prop) (x : Runner → Eval α) : Prop where
  coincide : Coincide s w left i v x
  poised : ∀ m, Poised s i v m → Poised s i v (x (.ofDepth left) m).2
  ends : ∀ m, Poised s i v m → Setting.straight.Ends R (x (.ofDepth left) m).1

/-- The evaluation of expressions comes to the same wherever it may start, and frames are opened as
usual. -/
structure RunnerInStep (s : Settings) (w : Runner) (left : Nat) : Prop where
  eval : ∀ e, Setting.straight.Allows e → ∀ i v, Coincide s w left i v fun r => r e i
  within : ∀ {α : Type} (kind : FrameKind) (i : Nat) (body : Nat → Eval α) (m : Machine),
    w.within kind i body m = Eval.within kind i body m

theorem RunnerInStep.plain (s : Settings) (left : Nat) : RunnerInStep s (.ofDepth left) left :=
  ⟨fun _ _ _ _ _ _ => rfl, fun _ _ _ _ => rfl⟩

theorem SoundRunner.whole (left : Nat) : SoundRunner .whole (.ofDepth left) (.ofDepth left) :=
  .ofDepth rfl (.basic ..) left

/-- What keeps the frames and brings no functions leaves the machine poised. -/
theorem Coincide.inStep {x' : Runner → Eval α} {Q : α → α → Prop}
    (coincide : Coincide s w left i v x)
    (tied : Tied (.straight s) (.ofDepth left) (.ofDepth left) R x x')
    (sound : Sound .whole (.ofDepth left) (.ofDepth left) .shared i Q x) :
    InStep s w left i v R x := by
  refine ⟨coincide, fun m poised => ?_, fun m poised => (tied m poised.confined).ends⟩
  have ready : Ready .whole .shared i m := ⟨poised.nested, poised.live, nofun⟩
  exact poised.after ((sound m ready).keeps.balanced poised.nested)
    (tied m poised.confined).confined

/-- In particular, what the rules allow. -/
theorem Coincide.allowed {x' y' : Runner → Eval α} {Q : α → α → Prop}
    (coincide : Coincide s w left i v x) (alike : Alike .straight .shared i i R x x')
    (whole : Alike .whole .shared i i Q x y') : InStep s w left i v R x :=
  coincide.inStep (alike.tied (.straight s left) rfl) (whole.sound rfl (.whole left))

namespace Coincide

theorem tail (first : Coincide s w left i v x) (f : α → Eval β) :
    Coincide s w left i v fun r => x r >>= f := by
  intro m poised
  have same := first m poised
  rcases run : x (.ofDepth left) m with ⟨_ | a, after⟩
  · rw [run] at same
    exact (Eval.bind_error same).trans (Eval.bind_error run).symm
  · rw [run] at same
    exact (Eval.bind_ok same).trans (Eval.bind_ok run).symm

theorem attempt (first : Coincide s w left i v x) :
    Coincide s w left i v fun r => Eval.attempt (x r) := by
  intro m poised
  simp only [Eval.attempt, first m poised]

theorem ofExcept {o : Except Fault α} {f : α → Runner → Eval β}
    (next : ∀ a, o = .ok a → Coincide s w left i v (f a)) :
    Coincide s w left i v fun r => Eval.ofExcept o >>= fun a => f a r := by
  cases o with
  | ok a => exact next a rfl
  | error fault => exact fun _ _ => rfl

/-- The current value is the one the machine is poised at, and holds no functions. -/
theorem current {f : Evaluated → Runner → Eval β}
    (next : ∀ v', Setting.straight.result v v' → Coincide s w left i v (f v)) :
    Coincide s w left i v fun r => Eval.ofChain (fun c => c.current i) >>= fun u => f u r := by
  intro m poised
  obtain ⟨v', related⟩ := poised.result
  change f (m.chain.current i) w m = f (m.chain.current i) (.ofDepth left) m
  rw [poised.current]
  exact next v' related m poised

theorem unboxed {u u' : Evaluated} (related : Setting.straight.result u u')
    {f : Evaluated → Runner → Eval β} (next : Coincide s w left i v (f u)) :
    Coincide s w left i v fun r => Evaluation.unbox r u i >>= fun a => f a r := by
  simp only [Setting.straight_free.unbox related]
  exact next

theorem currentUnboxed {f : Evaluated → Runner → Eval β}
    (next : ∀ v', Setting.straight.result v v' → Coincide s w left i v (f v)) :
    Coincide s w left i v fun r => Evaluation.currentUnboxed r i >>= fun u => f u r := by
  simp only [Evaluation.currentUnboxed, bind_assoc]
  exact .current fun v' related => .unboxed related (next v' related)

/-- A new frame. -/
theorem framed (runner : RunnerInStep s w left) {kind : FrameKind} {x : Nat → Runner → Eval α}
    (inside : ∀ m, Poised s i v m →
      x m.chain.size w (m.onChain fun c => c.push kind (some i)) =
        x m.chain.size (.ofDepth left) (m.onChain fun c => c.push kind (some i))) :
    Coincide s w left i v fun r => r.within kind i fun j => x j r := by
  intro m poised
  change w.within kind i (fun j => x j w) m =
    Eval.within kind i (fun j => x j (.ofDepth left)) m
  rw [runner.within, Eval.within_apply, Eval.within_apply, inside m poised]

/-- A new frame that shows nothing itself. -/
theorem within (runner : RunnerInStep s w left) {kind : FrameKind} {x : Nat → Runner → Eval α}
    (body : ∀ j, Coincide s w left j v (x j)) :
    Coincide s w left i v fun r => r.within kind i fun j => x j r :=
  framed runner fun m poised => body m.chain.size _
    ((Topped.push poised.confined kind i).silent poised rfl rfl)

end Coincide

namespace InStep

theorem catching {f : Except Signal α → Runner → Eval β} (first : InStep s w left i v R x)
    (next : ∀ o, Setting.straight.Ends R o → Coincide s w left i v (f o)) :
    Coincide s w left i v fun r => Eval.attempt (x r) >>= fun o => f o r := by
  intro m poised
  simp only [Eval.attempt_bind, first.coincide m poised]
  exact next _ (first.ends m poised) _ (first.poised m poised)

theorem bind {f : α → Runner → Eval β} (first : InStep s w left i v R x)
    (next : ∀ a a', R a a' → Coincide s w left i v (f a)) :
    Coincide s w left i v fun r => x r >>= fun a => f a r := by
  rw [Eval.bind_eq_attempt_open x f]
  exact first.catching fun o ends => ends.elim next fun _ _ _ _ _ => rfl

theorem run (runner : RunnerInStep s w left) {e : Expr} (allowed : Setting.straight.Allows e) :
    InStep s w left i v Setting.straight.result fun r => r e i :=
  (runner.eval e allowed i v).allowed (.run allowed) (.run (.of_effects rfl e))

theorem forked (runner : RunnerInStep s w left) {e : Expr} (allowed : Setting.straight.Allows e)
    {v' : Evaluated} (related : Setting.straight.result v v') :
    InStep s w left i v Setting.straight.result fun r => Evaluation.forked r e i v := by
  refine Coincide.allowed (.framed runner fun m poised => ?_) (.forked allowed related)
    (.forked (.of_effects rfl e) (.of_effects rfl v))
  have topped := (Topped.push poised.confined .scope i).setValue Chain.currentName related
  exact runner.eval e allowed _ v _ (topped.showing poised ⟨rfl, nofun, fun _ _ => rfl⟩)

end InStep

namespace Coincide

variable (runner : RunnerInStep s w left)

include runner

/-! ## Expressions side by side -/

theorem items (es : List Expr) (allowed : ∀ e ∈ es, Setting.straight.Allows e) :
    Coincide s w left i v fun r => Evaluation.items r i es := by
  induction es with
  | nil => exact fun _ _ => rfl
  | cons e rest ih =>
      refine (InStep.run runner (allowed e (List.mem_cons_self ..))).bind fun u _ _ => ?_
      exact (ih fun e member => allowed e (List.mem_cons_of_mem _ member)).tail _

theorem members (es : List (String × Expr)) (allowed : ∀ e ∈ es, Setting.straight.Allows e.2)
    (sofar : List (String × Value)) :
    Coincide s w left i v fun r => Evaluation.members r i sofar es := by
  induction es generalizing sofar with
  | nil => exact fun _ _ => rfl
  | cons e rest ih =>
      refine (InStep.run runner (allowed e (List.mem_cons_self ..))).bind fun u _ _ => ?_
      exact ih (fun e member => allowed e (List.mem_cons_of_mem _ member)) _

theorem conditionalExpr {condition yes : Expr} {no : Option Expr}
    (test : Setting.straight.Allows condition) (first : Setting.straight.Allows yes)
    (second : ∀ e ∈ no, Setting.straight.Allows e) :
    Coincide s w left i v fun r => Evaluation.conditionalExpr r condition yes no i := by
  refine (InStep.run runner test).bind fun verdict _ related => .unboxed related ?_
  split
  · exact runner.eval yes first i v
  · cases no with
    | none => exact fun _ _ => rfl
    | some e => exact runner.eval e (second e rfl) i v

theorem raiseExpr (kind : String) (code : Option String) {message : Expr} {payload : Option Expr}
    (text : Setting.straight.Allows message) (attached : ∀ e ∈ payload, Setting.straight.Allows e) :
    Coincide s w left i v fun r => Evaluation.raiseExpr r kind code message payload i := by
  refine (InStep.run runner text).bind fun u _ _ => ?_
  cases payload with
  | none => exact fun _ _ => rfl
  | some e => exact (runner.eval e (attached e rfl) i v).tail _

theorem sinkExpr {input : Expr} (allowed : Setting.straight.Allows input) (component : String) :
    Coincide s w left i v fun r => Evaluation.sinkExpr r input component i := by
  refine (InStep.run runner allowed).bind fun u _ related => .unboxed related ?_
  exact fun _ _ => rfl

theorem binaryExpr (op : BinaryOp) {first second : Expr} (one : Setting.straight.Allows first)
    (other : Setting.straight.Allows second) :
    Coincide s w left i v fun r => Evaluation.binaryExpr r op first second i := by
  refine .current fun v' related => ?_
  refine (InStep.forked runner one related).bind fun l l' lefts => ?_
  refine (InStep.forked runner other related).bind fun u u' rights => ?_
  refine .unboxed lefts (.unboxed rights ?_)
  have builtIn := Setting.straight_free.delegate lefts (some u) (by rintro _ ⟨⟩; exact ⟨u', rights⟩)
  simp only [builtIn]
  exact fun _ _ => rfl

theorem unaryExpr (op : UnaryOp) {operand : Expr} (allowed : Setting.straight.Allows operand) :
    Coincide s w left i v fun r => Evaluation.unaryExpr r op operand i := by
  refine (InStep.run runner allowed).bind fun u u' related => .unboxed related ?_
  have builtIn := Setting.straight_free.delegate related none nofun
  simp only [builtIn]
  exact fun _ _ => rfl

theorem callArgs {v' : Evaluated} (related : Setting.straight.result v v') (args : List Expr)
    (allowed : ∀ e ∈ args, Setting.straight.Allows e) :
    Coincide s w left i v fun r => Evaluation.callArgs r i v args := by
  induction args with
  | nil => exact fun _ _ => rfl
  | cons e rest ih =>
      refine (InStep.forked runner (allowed e (List.mem_cons_self ..)) related).bind
        fun u _ values => .unboxed values ?_
      exact (ih fun e member => allowed e (List.mem_cons_of_mem _ member)).tail _

theorem callExpr (library name : String) (args : List Expr)
    (allowed : ∀ e ∈ args, Setting.straight.Allows e) :
    Coincide s w left i v fun r => Evaluation.callExpr r library name args i := by
  refine .ofExcept fun f _ => .ofExcept fun _ _ => .current fun v' related => ?_
  exact (callArgs runner related args allowed).tail _

end Coincide

end TreeQuery
