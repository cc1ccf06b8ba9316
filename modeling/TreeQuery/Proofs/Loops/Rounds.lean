import TreeQuery.Proofs.Capture.Abreast
import TreeQuery.Proofs.Loops.Passing
import TreeQuery.Proofs.Memos.View

/-!
# Rounds that append

A round of an aggregate whose body adds something to the result so far is compared with a round of a
map over what is added. The aggregate has one more frame, in which the operand is evaluated, and the
frame of its round shows the result so far. Hoisted out of that frame, the frame of the operand is the
one of the map's round (`Chain.hoist_atOperand`), so both evaluate the body alike
(`Round.eval_operand`) and do the same to the machine (`Round.run_appending`). What comes of the loops
follows round by round (`Evaluation.foldRounds_appending`).
-/

set_option autoImplicit false

namespace TreeQuery

/-! ## Frames put on top -/

/-- The frames with a given one on top. -/
def Chain.put (c : Chain) (f : Frame) : Chain :=
  ⟨c.frames.push f⟩

def Machine.put (m : Machine) (f : Frame) : Machine :=
  m.onChain fun c => c.put f

namespace Chain

variable {c c' : Chain}

@[simp] theorem size_put (c : Chain) (f : Frame) : (c.put f).size = c.size + 1 := by
  simp [size, put]

theorem frame?_put (c : Chain) (f : Frame) (j : Nat) :
    (c.put f).frame? j = if j = c.size then some f else c.frame? j := by
  simp only [frame?, put, size, Array.getElem?_push]
  rfl

theorem frame?_put_top (c : Chain) (f : Frame) : (c.put f).frame? c.size = some f := by
  rw [frame?_put, if_pos rfl]

theorem push_eq_put (c : Chain) (kind : FrameKind) (parent : Option Nat) :
    c.push kind parent = c.put { kind, parent } := rfl

/-- A change to the frame on top. -/
theorem update_put (c : Chain) (f : Frame) (change : Frame → Frame) :
    (c.put f).update c.size change = c.put (change f) := by
  refine ext_frame? fun j => ?_
  simp only [frame?_update, frame?_put]
  split <;> rfl

theorem truncate_put {n : Nat} (below : n ≤ c.size) (f : Frame) :
    (c.put f).truncate n = c.truncate n := by
  refine ext_frame? fun j => ?_
  simp only [frame?_truncate, frame?_put]
  split
  · rw [if_neg (by omega)]
  · rfl

theorem truncate_truncate {k n : Nat} (below : k ≤ n) (c : Chain) :
    (c.truncate n).truncate k = c.truncate k := by
  refine ext_frame? fun j => ?_
  simp only [frame?_truncate]
  split
  · rw [if_pos (by omega)]
  · rfl

theorem truncate_size (c : Chain) : c.truncate c.size = c := by
  refine ext_frame? fun j => ?_
  rw [frame?_truncate]
  split
  · rfl
  · exact (frame?_eq_none_iff.mpr (by omega)).symm

theorem under_put (c : Chain) (f : Frame) (τ : Translation) :
    (c.put f).under id τ = (c.under id τ).put (f.under id τ) := by
  simp [under, put]

theorem Nested.put (nested : c.Nested) {f : Frame} (live : ∀ p ∈ f.parent, p < c.size) :
    (c.put f).Nested := by
  intro j p isParent
  rw [parent?, frame?_put] at isParent
  split at isParent
  · rename_i top
    subst top
    exact live p isParent
  · exact nested j p isParent

theorem Declares.put {S : Setting} (declares : c.Declares S) {f : Frame} (bare : f.lets = []) :
    (c.put f).Declares S := by
  intro j g name slot found declared
  rw [frame?_put] at found
  split at found
  · cases found
    rw [bare] at declared
    cases declared
  · exact declares j g name slot found declared

/-- A frame on top is out of sight of those below. -/
theorem Nested.beside_put (nested : c.Nested) (f : Frame) : c.Beside c.size (c.put f) := by
  have pushed := (nested.beside_push .loop none).update_other fun _ => f
  rw [push_eq_put, update_put] at pushed
  exact pushed

theorem Beside.put {s : Nat} (beside : c.Beside s c') (f : Frame) :
    (c.put f).Beside s (c'.put (f.past s)) := by
  have inside := beside.inside
  refine ⟨by rw [size_put]; omega, by rw [size_put, size_put, beside.size], fun j => ?_⟩
  rw [frame?_put, frame?_put, beside.next]
  by_cases top : j = c.size
  · rw [if_pos top, if_pos (congrArg (TreeQuery.past s) top)]
    rfl
  · rw [if_neg top, if_neg fun same => top (past_injective same), beside.frame]

/-- Below the frame that was put in, nothing differs. -/
theorem Beside.truncate_eq {s : Nat} (beside : c.Beside s c') (nested : c.Nested) :
    c'.truncate s = c.truncate s := by
  refine ext_frame? fun j => ?_
  rw [frame?_truncate, frame?_truncate]
  split
  · rename_i below
    have seen := beside.frame j
    rw [past_below below] at seen
    rw [seen]
    cases found : c.frame? j with
    | none => rfl
    | some f =>
        have still : f.parent.map (TreeQuery.past s) = f.parent := by
          cases isParent : f.parent with
          | none => rfl
          | some p =>
              have further := nested.parent_lt found isParent
              exact congrArg some (past_below (by omega))
        rw [Option.map_some, Frame.past, still]
  · rfl

theorem truncate_hoist_below {d : Tier} {n : Nat} (above : n ≤ d.inner) (c : Chain) :
    (c.hoist (some d)).truncate n = c.truncate n := by
  refine ext_frame? fun j => ?_
  rw [frame?_truncate, frame?_truncate]
  split
  · exact frame?_hoist_other fun e same => by cases same; omega
  · rfl

end Chain

theorem Machine.Beside.truncate_eq {s : Nat} {m m' : Machine} (beside : m.Beside s m')
    (nested : m.chain.Nested) :
    { m'.onChain fun c => c.truncate s with depth := m.depth } =
      m.onChain fun c => c.truncate s := by
  cases beside with
  | intro depth chain => exact congrArg (fun c => { m with chain := c }) (chain.truncate_eq nested)

theorem Confined.put {S : Setting} {C : Comparison S} {m : Machine} (confined : Confined C m)
    {f : Frame} (inert : S.plain = true → f.under id S.test = f) (bare : f.lets = []) :
    Confined C (m.put f) := by
  refine confined.onChain (f := fun c => c.put f) (fun plain => ?_) (confined.declares.put bare)
  rw [Chain.under_put, confined.chain plain, inert plain]

/-- Runs a computation in a given frame on top, and drops this frame and all above it. -/
def Eval.framed {α : Type} (f : Frame) (x : Nat → Eval α) : Eval α := fun m =>
  ((x m.chain.size (m.put f)).1,
    (x m.chain.size (m.put f)).2.onChain fun c => c.truncate m.chain.size)

/-! ## Rounds and operands -/

/-- A round of a loop: the frame around the loop, what it goes through, and the position and the
item of the round. -/
structure Round where
  base : Nat
  source : Value
  index : Nat
  item : Value

namespace Round

variable (q : Round)

def cursor : Option Address :=
  if q.source.isArray then some ((Address.linkedTo [] q.source).child (.index q.index)) else none

/-- The frame of the round, with the result so far in an aggregate. -/
def frame (acc : Option Evaluated) : Frame where
  kind := .loop
  parent := some q.base
  values := (Chain.currentName, .plain q.item) ::
    (acc.map fun v => (Chain.accumulatorName, v)).toList
  cursor := q.cursor

/-- The body of the round, with the evaluation of expressions left open. -/
def run (r : Runner) (body : Expr) (acc : Option Evaluated) : Eval Evaluated :=
  Evaluation.round r body q.base q.source acc q.index q.item

/-- The translation leaves what the round shows as it is. -/
structure Holds (τ : Translation) : Prop where
  source : q.source.translate τ = q.source
  item : q.item.translate τ = q.item

theorem frame_under (acc : Option Evaluated) {τ : Translation} (holds : q.Holds τ) :
    (q.frame acc).under id τ = q.frame (acc.map (Evaluated.translate τ)) := by
  have cursor : q.cursor.map (Address.translate τ) = q.cursor := by
    have root : ((Address.linkedTo [] q.source).child (.index q.index)).translate τ =
        (Address.linkedTo [] q.source).child (.index q.index) := by
      rw [← Address.child_translate, ← Address.linkedTo_translate, holds.source]
    unfold Round.cursor
    split
    · exact congrArg some root
    · rfl
  have current : (Evaluated.plain q.item).translate τ = .plain q.item := by
    rw [Evaluated.translate_plain, holds.item]
  simp only [frame, Frame.under, cursor]
  cases acc with
  | none => simp [Assoc.mapValues, current]
  | some v => simp [Assoc.mapValues, current]

theorem run_eq (left : Nat) (body : Expr) (acc : Option Evaluated) :
    q.run (.ofDepth left) body acc = Eval.framed (q.frame acc) (eval left body) := by
  funext m
  let opened : Machine := m.onChain fun c => c.push .loop (some q.base)
  let pointed : Machine := if q.source.isArray then
    opened.onChain fun c =>
      c.setCursor m.chain.size ((Address.linkedTo [] q.source).child (.index q.index))
    else opened
  let shown : Machine := pointed.onChain fun c => c.setCurrent m.chain.size (.plain q.item)
  have entered : acc.elim shown (fun v => shown.onChain fun c =>
      c.setValue m.chain.size Chain.accumulatorName v) = m.put (q.frame acc) := by
    simp only [shown, pointed, opened, Machine.put, Machine.onChain, Chain.setCursor,
      Chain.setCurrent, Chain.setValue, frame, cursor]
    cases q.source.isArray <;> cases acc <;>
      simp only [Bool.false_eq_true, if_true, if_false, Chain.push_eq_put, Chain.update_put] <;> rfl
  unfold Eval.framed
  rw [← entered]
  unfold run Evaluation.round
  simp only [shown, pointed, opened]
  cases q.source.isArray <;> cases acc <;> rfl

end Round

/-- The frame of an operand. -/
def operandFrame (base : Nat) (current : Evaluated) : Frame where
  kind := .scope
  parent := some base
  values := [(Chain.currentName, current)]

theorem Evaluation.forked_eq (left : Nat) (e : Expr) (base : Nat) (current : Evaluated) :
    forked (.ofDepth left) e base current =
      Eval.framed (operandFrame base current) (eval left e) := by
  funext m
  have set := m.chain.update_put { kind := .scope, parent := some base } fun f =>
    { f with values := Assoc.insert f.values Chain.currentName current }
  have entered : (m.onChain fun c => c.push .scope (some base)).onChain
      (fun c => c.setCurrent m.chain.size current) = m.put (operandFrame base current) :=
    congrArg (fun c => { m with chain := c }) set
  unfold Eval.framed
  rw [← entered]
  rfl

/-! ## Operands in a round -/

/-- The frame of an operand in a round of an aggregate is nested in that of the round, which shows
the result so far besides. -/
def Round.tier (q : Round) (outer : Nat) : Tier where
  inner := outer + 1
  outer
  base := q.base
  cursor := q.cursor
  name := Chain.accumulatorName
  apart := by decide

/-- The frames in which an operand is evaluated in a round of an aggregate. -/
def Chain.atOperand (c : Chain) (q : Round) (acc : Evaluated) : Chain :=
  (c.put (q.frame (some acc))).put (operandFrame c.size (.plain q.item))

def Machine.atOperand (m : Machine) (q : Round) (acc : Evaluated) : Machine :=
  { m.onChain fun c => c.atOperand q acc with depth := m.depth + 1 }

variable {s : Settings} {q : Round} {left : Nat} {acc : Evaluated} {body : Expr} {c : Chain}
  {m : Machine}

namespace Chain

theorem size_atOperand : (c.atOperand q acc).size = c.size + 2 := by
  rw [atOperand, size_put, size_put]

theorem frame?_atOperand_inner :
    (c.atOperand q acc).frame? (c.size + 1) = some (operandFrame c.size (.plain q.item)) := by
  rw [atOperand, frame?_put, size_put, if_pos rfl]

theorem frame?_atOperand_outer : (c.atOperand q acc).frame? c.size = some (q.frame (some acc)) := by
  rw [atOperand, frame?_put, size_put, if_neg (by omega), frame?_put_top]

theorem Nested.atOperand (nested : c.Nested) (live : q.base < c.size) :
    (c.atOperand q acc).Nested := by
  have round : (c.put (q.frame (some acc))).Nested :=
    nested.put fun p same => by cases same; exact live
  refine round.put fun p same => ?_
  cases same
  rw [size_put]
  exact Nat.lt_succ_self _

/-- Hoisted, the frame of the operand is that of a round of a map. -/
theorem hoist_atOperand (c : Chain) : (c.atOperand q acc).hoist (some (q.tier c.size)) =
    (c.put (q.frame (some acc))).put (q.frame none) := by
  have top := (c.put (q.frame (some acc))).update_put (operandFrame c.size (.plain q.item))
    (q.tier c.size).hoisted
  rw [size_put] at top
  exact top

/-- It is beside that of the map, whose rounds show no result so far. -/
theorem Nested.beside_atOperand (nested : c.Nested) (live : q.base < c.size) :
    (c.put (q.frame none)).Beside c.size ((c.atOperand q acc).hoist (some (q.tier c.size))) := by
  have beside := (nested.beside_put (q.frame (some acc))).put (q.frame none)
  have still : (q.frame none).past c.size = q.frame none := by
    have parent : Option.map (past c.size) (some q.base) = some q.base :=
      congrArg some (past_below live)
    exact congrArg (fun p => { q.frame none with parent := p }) parent
  rw [still] at beside
  rw [hoist_atOperand]
  exact beside

end Chain

theorem Round.tier_stands : (q.tier c.size).Stands (c.atOperand q acc) := by
  refine ⟨_, _, Chain.frame?_atOperand_inner, Chain.frame?_atOperand_outer,
    ⟨rfl, rfl, nofun, nofun, rfl, rfl, rfl, fun name other absent => ?_⟩⟩
  have apart : Chain.currentName ≠ name := by
    rintro rfl
    cases absent
  have apartToo : Chain.accumulatorName ≠ name := Ne.symm other
  simp [Round.frame, Assoc.get?, apart, apartToo]

theorem Confined.atOperand (confined : Confined (.functionless s) m)
    (holds : q.Holds (Setting.functionless none).test)
    (inert : acc.translate (Setting.functionless none).test = acc) :
    Confined (.functionless s) (m.atOperand q acc) := by
  have round : Confined (.functionless s) (m.put (q.frame (some acc))) := by
    refine confined.put (fun _ => ?_) rfl
    rw [q.frame_under (some acc) holds, Option.map_some, inert]
  have operand : Confined (.functionless s)
      ((m.put (q.frame (some acc))).put (operandFrame m.chain.size (.plain q.item))) := by
    refine round.put (fun _ => ?_) rfl
    have current : (Evaluated.plain q.item).translate (Setting.functionless none).test =
        .plain q.item := by
      rw [Evaluated.translate_plain, holds.item]
    exact congrArg (operandFrame m.chain.size) current
  exact operand.atDepth (m.depth + 1)

theorem Staged.atOperand (staged : Staged s none none .shared q.base m)
    (holds : q.Holds (Setting.functionless none).test)
    (inert : acc.translate (Setting.functionless none).test = acc) :
    Staged s (some (q.tier m.chain.size)) (some Chain.accumulatorName) .shared (m.chain.size + 1)
      (m.atOperand q acc) := by
  have nested : (m.chain.atOperand q acc).Nested := staged.nested.atOperand staged.live
  have size : (m.chain.atOperand q acc).size = m.chain.size + 2 := Chain.size_atOperand
  refine ⟨staged.confined.atOperand holds inert, ⟨nested, ?_, nofun⟩, fun d same => ?_,
    fun other => absurd rfl other, fun d same _ => ?_,
    fun d same j f name b member found declared => ?_⟩
  · exact Nat.lt_of_lt_of_eq (Nat.lt_succ_self _) size.symm
  · cases same
    exact Round.tier_stands
  · cases same
    rfl
  · cases same
    have above : m.chain.size + 1 ≤ j := Chain.le_of_mem_ancestors nested member
    have below : j < m.chain.size + 2 := Nat.lt_of_lt_of_eq (Chain.lt_size_of_frame? found) size
    obtain rfl : j = m.chain.size + 1 := by omega
    cases found.symm.trans Chain.frame?_atOperand_inner
    cases declared

theorem Ready.keeps {i : Nat} (ready : Ready .whole .shared i m) {o : Except Signal Evaluated}
    {n : Machine} (run : eval left body i m = (o, n)) : Keeps .whole .shared i m n := by
  have sound := SoundRunner.ofDepth (S := .whole) rfl (.basic ..) left
  have keeps : Keeps .whole .shared i m (eval left body i m).2 :=
    (sound.eval body (.of_effects rfl _) i m ready).keeps
  rw [run] at keeps
  exact keeps

theorem Staged.ready_round (staged : Staged s none none .shared q.base m) :
    Ready .whole .shared m.chain.size (m.put (q.frame none)) := by
  refine ⟨staged.nested.put fun p same => ?_, ?_, nofun⟩
  · cases same
    exact staged.live
  · exact Nat.lt_of_lt_of_eq (Nat.lt_succ_self _) (Chain.size_put ..).symm

/-- **The operand of a round goes like the round of a map,** in frames that are beside those of the
map once the tier is hoisted. -/
theorem Round.eval_operand (staged : Staged s none none .shared q.base m)
    (holds : q.Holds (Setting.functionless none).test)
    (inert : acc.translate (Setting.functionless none).test = acc)
    (allowed : (Setting.functionless (some Chain.accumulatorName)).Allows body)
    {o o' : Except Signal Evaluated} {n n' : Machine}
    (run : eval left body (m.chain.size + 1) (m.atOperand q acc) = (o, n))
    (plain : eval left body m.chain.size (m.put (q.frame none)) = (o', n')) :
    o = o' ∧ n'.Beside m.chain.size (n.hoist (some (q.tier m.chain.size))) := by
  have start : (m.put (q.frame none)).Beside m.chain.size
      ((m.atOperand q acc).hoist (some (q.tier m.chain.size))) :=
    .intro (m.depth + 1) (staged.nested.beside_atOperand staged.live)
  have hoisted : eval left body (m.chain.size + 1)
      ((m.atOperand q acc).hoist (some (q.tier m.chain.size))) =
        (o, n.hoist (some (q.tier m.chain.size))) := by
    have tracks : eval left body (m.chain.size + 1)
        ((m.atOperand q acc).hoist (some (q.tier m.chain.size))) = _ :=
      (PassingRunner.ofDepth s (some (q.tier m.chain.size)) left).tracks allowed
        (staged.atOperand holds inert)
    rw [tracks]
    exact congrArg (fun x : Except Signal Evaluated × Machine =>
      (x.1, x.2.hoist (some (q.tier m.chain.size)))) run
  obtain ⟨outcome, after⟩ := (AbreastRunner.ofDepth m.chain.size left).eval body m.chain.size _ _
    staged.ready_round start
  rw [past_above (Nat.le_refl _)] at outcome after
  change Setting.whole.Matches _ (eval left body m.chain.size _).1
    (eval left body (m.chain.size + 1) _).1 at outcome
  change (eval left body m.chain.size _).2.Beside _
    (eval left body (m.chain.size + 1) _).2 at after
  rw [hoisted, plain] at outcome after
  exact ⟨outcome.eq_whole, after⟩

/-- What the operand comes to and what it leaves when its frame is gone. -/
theorem Round.framed_operand (staged : Staged s none none .shared q.base m)
    (holds : q.Holds (Setting.functionless none).test)
    (inert : acc.translate (Setting.functionless none).test = acc)
    (allowed : (Setting.functionless (some Chain.accumulatorName)).Allows body)
    {o : Except Signal Evaluated} {after : Machine}
    (plain : q.run (.ofDepth left) body none m = (o, after)) :
    ∃ n, Eval.framed (operandFrame m.chain.size (.plain q.item)) (eval left body)
        { m.put (q.frame (some acc)) with depth := m.depth + 1 } = (o, n) ∧
      Machine.onChain (fun c => c.truncate m.chain.size) { n with depth := n.depth - 1 } =
        after := by
  rw [q.run_eq] at plain
  rcases run : eval left body (m.chain.size + 1) (m.atOperand q acc) with ⟨o', n⟩
  rcases runToo : eval left body m.chain.size (m.put (q.frame none)) with ⟨o'', n'⟩
  obtain ⟨rfl, beside⟩ := Round.eval_operand staged holds inert allowed run runToo
  have keeps := (staged.atOperand holds inert).ready.keeps run
  have keepsToo := staged.ready_round.keeps runToo
  have depth : n.depth - 1 = n'.depth := by
    rw [keeps.depth, keepsToo.depth]
    rfl
  have ended : (o', n'.onChain fun c => c.truncate m.chain.size) = (o, after) := by
    rw [← plain, Eval.framed, runToo]
  cases ended
  refine ⟨n.onChain fun c => c.truncate (m.chain.size + 1), ?_, ?_⟩
  · have inner : (m.chain.put (q.frame (some acc))).size = m.chain.size + 1 := Chain.size_put ..
    have started : Eval.framed (operandFrame m.chain.size (.plain q.item)) (eval left body)
        { m.put (q.frame (some acc)) with depth := m.depth + 1 } =
        ((eval left body (m.chain.put (q.frame (some acc))).size (m.atOperand q acc)).1,
          (eval left body (m.chain.put (q.frame (some acc))).size (m.atOperand q acc)).2.onChain
            fun c => c.truncate (m.chain.put (q.frame (some acc))).size) := rfl
    rw [started, inner, run]
  · have chain : (n.chain.truncate (m.chain.size + 1)).truncate m.chain.size =
        (n.chain.hoist (some (q.tier m.chain.size))).truncate m.chain.size := by
      rw [Chain.truncate_hoist_below (Nat.le_succ _), Chain.truncate_truncate (Nat.le_succ _)]
    refine Eq.trans ?_ (beside.truncate_eq (keepsToo.nested staged.ready_round.nested))
    exact congr (congrArg (fun c d => { n with chain := c, depth := d }) chain) depth

/-! ## Rounds that append -/

/-- The results so far and what a round comes to, unless that is empty. -/
def Value.appended (vs : List Value) (v : Value) : List Value :=
  if v.isEmpty then vs else vs ++ [v]

theorem Operation.binary_add_array (vs : List Value) (v : Value) :
    binary .add (.array vs) v = .ok (.array (Value.appended vs v)) := by
  cases v <;> rfl

/-- The body of an aggregate that appends what another one comes to. -/
def Expr.appending (body : Expr) : Expr :=
  .binary .add (.named Chain.accumulatorName) body

variable {vs : List Value} {o : Except Signal Evaluated} {after : Machine}

theorem Round.passes (holds : q.Holds (Setting.functionless none).test)
    (allowed : (Setting.functionless none).Allows body) (left : Nat) :
    Passes s none (.ofDepth left) (.ofDepth left) none .shared q.base
      (Setting.functionless none).result fun r => q.run r body none := by
  have alike : Alike (.functionless none) .shared q.base q.base _ (fun r => q.run r body none) _ :=
    .round allowed ⟨rfl, fun _ => holds.source⟩ (.const fun _ => rfl) q.index
      ⟨rfl, fun _ => holds.item⟩
  exact alike.passes (.ofDepth s none left) fun partly => absurd rfl partly

theorem Eval.framed_accumulator (nested : m.chain.Nested) (live : q.base < m.chain.size) :
    Eval.framed (operandFrame m.chain.size (.plain q.item))
        (eval (left + 1) (.named Chain.accumulatorName))
        { m.put (q.frame (some acc)) with depth := m.depth + 1 } =
      (.ok acc, { m.put (q.frame (some acc)) with depth := m.depth + 1 }) := by
  have inside : (m.chain.atOperand q acc).Nested := nested.atOperand live
  have resolved : (m.chain.atOperand q acc).resolve? (m.chain.size + 1) Chain.accumulatorName =
      some (.value acc) := by
    rw [Chain.resolve?_cons inside Chain.frame?_atOperand_inner]
    change (m.chain.atOperand q acc).resolve? m.chain.size Chain.accumulatorName = _
    rw [Chain.resolve?_cons inside Chain.frame?_atOperand_outer]
    rfl
  have size : (m.chain.put (q.frame (some acc))).size = m.chain.size + 1 := Chain.size_put ..
  have found : eval (left + 1) (.named Chain.accumulatorName) (m.chain.size + 1)
      (m.atOperand q acc) = (.ok acc, m.atOperand q acc) := by
    have named := Evaluation.nameRef_apply (.ofDepth left) Chain.accumulatorName (m.chain.size + 1)
      { m.atOperand q acc with depth := m.depth + 2 }
    have there : ({ m.atOperand q acc with depth := m.depth + 2 } : Machine).chain.resolve?
        (m.chain.size + 1) Chain.accumulatorName = some (.value acc) := resolved
    rw [there] at named
    exact congrArg (fun x : Except Signal Evaluated × Machine =>
      (x.1, { x.2 with depth := x.2.depth - 1 })) named
  have cut : (m.chain.atOperand q acc).truncate (m.chain.size + 1) =
      m.chain.put (q.frame (some acc)) := by
    rw [Chain.atOperand, ← size, Chain.truncate_put (Nat.le_refl _), Chain.truncate_size]
  change (Prod.fst (eval _ _ (m.chain.put (q.frame (some acc))).size (m.atOperand q acc)),
    (Prod.snd (eval _ _ (m.chain.put (q.frame (some acc))).size (m.atOperand q acc))).onChain
      fun c => c.truncate (m.chain.put (q.frame (some acc))).size) = _
  rw [size, found]
  exact congrArg (fun c => (Except.ok acc, { m.atOperand q acc with chain := c })) cut

/-- **A round that appends what its body comes to** does to the machine what the round of a map over
that body does, and ends where that ends. -/
theorem Round.run_appending (staged : Staged s none none .shared q.base m)
    (holds : q.Holds (Setting.functionless none).test)
    (inert : vs.map (Value.translate (Setting.functionless none).test) = vs)
    (allowed : (Setting.functionless (some Chain.accumulatorName)).Allows body)
    (plain : q.run (.ofDepth (left + 1)) body none m = (o, after)) :
    q.run (.ofDepth (left + 2)) body.appending (some (.plain (.array vs))) m =
      (o.map fun v => .plain (.array (Value.appended vs v.value)), after) := by
  have accs : (Setting.functionless none).result (.plain (.array vs)) _ :=
    ⟨rfl, fun _ => by rw [Evaluated.translate_plain, Value.translate_array, inert]⟩
  have ends := (Round.passes (s := s) holds allowed.revealed (left + 1) m staged).ends
  rw [plain] at ends
  obtain ⟨n, operand, closed⟩ := Round.framed_operand staged holds (accs.inert rfl) allowed plain
  let start : Machine := { m.put (q.frame (some (.plain (.array vs)))) with depth := m.depth + 1 }
  have nested : start.chain.Nested := staged.nested.put fun p same => by
    cases same
    exact staged.live
  have current : (Eval.ofChain fun c => c.current m.chain.size : Eval Evaluated) start =
      (.ok (.plain q.item), start) := by
    have own : start.chain.current m.chain.size = .plain q.item :=
      Chain.current_own nested (Chain.frame?_put_top ..) rfl
    exact congrArg (fun v => (Except.ok v, start)) own
  have first : Evaluation.forked (.ofDepth (left + 1)) (.named Chain.accumulatorName) m.chain.size
      (.plain q.item) start = (.ok (.plain (.array vs)), start) := by
    rw [Evaluation.forked_eq]
    exact Eval.framed_accumulator staged.nested staged.live
  have second : Evaluation.forked (.ofDepth (left + 1)) body m.chain.size (.plain q.item) start =
      (o, n) := by
    rw [Evaluation.forked_eq]
    exact operand
  have sum : Evaluation.binaryExpr (.ofDepth (left + 1)) .add (.named Chain.accumulatorName) body
      m.chain.size start = (o.map fun v => .plain (.array (Value.appended vs v.value)), n) := by
    rw [Evaluation.binaryExpr, Eval.bind_ok current, Eval.bind_ok first]
    cases o with
    | error e => exact Eval.bind_error second
    | ok v =>
        obtain ⟨v', related⟩ := ends
        have others : ∀ u ∈ some v, ∃ u', (Setting.functionless none).result u u' := by
          rintro _ ⟨⟩
          exact ⟨v', related⟩
        rw [Eval.bind_ok second, Setting.functionless_free.unbox accs, pure_bind,
          Setting.functionless_free.unbox related, pure_bind,
          Setting.functionless_free.delegate accs (some v) others, pure_bind]
        change (Eval.ofExcept (Operation.binary .add (.array vs) v.value) >>= _) _ = _
        rw [Operation.binary_add_array]
        rfl
  have run : eval (left + 2) body.appending m.chain.size
      (m.put (q.frame (some (.plain (.array vs))))) =
        (o.map fun v => .plain (.array (Value.appended vs v.value)),
          { n with depth := n.depth - 1 }) := by
    change Eval.deeper (Evaluation.binaryExpr _ _ _ _ _) _ = _
    exact congrArg (fun x : Except Signal Evaluated × Machine =>
      (x.1, { x.2 with depth := x.2.depth - 1 })) sum
  rw [q.run_eq, Eval.framed, run, closed]

/-! ## Loops -/

theorem Value.appended_append (vs : List Value) (v : Value) (more : List Value) :
    appended vs v ++ more = vs ++ if v.isEmpty then more else v :: more := by
  unfold appended
  split
  · rfl
  · rw [List.append_assoc, List.singleton_append]

theorem Value.map_translate_appended {τ : Translation} {v : Value}
    (list : vs.map (Value.translate τ) = vs) (one : v.translate τ = v) :
    (appended vs v).map (Value.translate τ) = appended vs v := by
  unfold appended
  split
  · exact list
  · rw [List.map_append, list, List.map_singleton, one]

/-- **The rounds of an aggregate that appends** come to what was there before, followed by what the
rounds of a map over the body come to. They end where these end, and do the same to the machine. -/
theorem Evaluation.foldRounds_appending {base : Nat} {source : Value}
    (fixed : source.translate (Setting.functionless none).test = source)
    (allowed : (Setting.functionless (some Chain.accumulatorName)).Allows body)
    (index : Nat) (items : List Value)
    (free : items.map (Value.translate (Setting.functionless none).test) = items)
    (inert : vs.map (Value.translate (Setting.functionless none).test) = vs)
    (staged : Staged s none none .shared base m) {o : Except Signal (List Value)}
    (plain : mapRounds (round (.ofDepth (left + 1)) body base source none) index items m =
      (o, after)) :
    foldRounds (fun acc => round (.ofDepth (left + 2)) body.appending base source (some acc))
        (.plain (.array vs)) index items m =
      (o.map fun more => .plain (.array (vs ++ more)), after) := by
  induction items generalizing vs index m o after with
  | nil =>
      cases plain
      change (Except.ok (Evaluated.plain (.array vs)), m) =
        (Except.ok (Evaluated.plain (.array (vs ++ []))), m)
      rw [List.append_nil]
  | cons item rest ih =>
      obtain ⟨first, others⟩ := List.cons.inj free
      have holds : Round.Holds ⟨base, source, index, item⟩ (Setting.functionless none).test :=
        ⟨fixed, first⟩
      have passes := Round.passes (s := s) holds allowed.revealed (left + 1) m staged
      have onwards : Staged s none none .shared base
          (round (.ofDepth (left + 1)) body base source none index item m).2 := passes.next staged
      have ends : (Setting.functionless none).Ends _
          (round (.ofDepth (left + 1)) body base source none index item m).1 := passes.ends
      rcases run : round (.ofDepth (left + 1)) body base source none index item m with ⟨o', n⟩
      have runToo : round (.ofDepth (left + 2)) body.appending base source
          (some (.plain (.array vs))) index item m = _ :=
        Round.run_appending staged holds inert allowed run
      rw [run] at onwards ends
      rw [mapRounds, Eval.attempt_bind, run] at plain
      rw [foldRounds, Eval.attempt_bind, runToo]
      cases o' with
      | error e =>
          cases e with
          | continueLoop => exact ih (index + 1) others inert onwards plain
          | breakLoop =>
              cases plain
              change (Except.ok (Evaluated.plain (.array vs)), n) =
                (Except.ok (Evaluated.plain (.array (vs ++ []))), n)
              rw [List.append_nil]
          | _ => cases plain; rfl
      | ok v =>
          obtain ⟨v', related⟩ := ends
          have inertToo := Value.map_translate_appended inert (related.content.inert rfl)
          rcases further : mapRounds (round (.ofDepth (left + 1)) body base source none) (index + 1)
            rest n with ⟨o'', n'⟩
          have furtherToo := ih (index + 1) others inertToo onwards further
          cases o'' with
          | error e =>
              have ended := (Eval.bind_error further).symm.trans plain
              cases ended
              exact furtherToo
          | ok more =>
              have ended := (Eval.bind_ok further).symm.trans plain
              cases ended
              have collected := Value.appended_append vs v.value more
              refine furtherToo.trans ?_
              exact congrArg (fun out => (Except.ok (Evaluated.plain (.array out)), after)) collected

end TreeQuery
