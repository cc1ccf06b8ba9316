import Mathlib.Data.List.Chain
import TreeQuery.Proofs.Frames.Sound

/-!
# Evaluation is balanced

An evaluation takes away the frames that it adds, whatever its outcome, and counts itself as ended.
Of the frames that were there before it changes nothing but memos of let-bindings and the handled
flags of handlers, and these only in frames it is nested in (`Balanced`). So whoever is evaluated
next sees the same current value, the same cursor and the same names.

All the while every frame lies above the one it is nested in: each frame that is opened is nested in
a live one, and every walk outwards ends and visits live frames only (`Chain.Walk`, `Watch.nested`).
-/

set_option autoImplicit false

namespace TreeQuery

/-! ## Walks outwards -/

/-- The walk outwards from a position goes from each frame to the one it is nested in, through live
frames only, and ends at a frame that is nested in none. -/
structure Chain.Walk (c : Chain) (i : Nat) : Prop where
  starts : (c.ancestors i).head? = some i
  goes : (c.ancestors i).IsChain fun j p => c.parent? j = some p
  live : ∀ j ∈ c.ancestors i, j < c.size
  ends : ∀ j, (c.ancestors i).getLast? = some j → c.parent? j = none

theorem Chain.Nested.walk {c : Chain} (nested : c.Nested) {i : Nat} (live : i < c.size) :
    c.Walk i := by
  have visited : ∀ i, ∀ j ∈ c.ancestors i, j < c.size := fun i j member =>
    Chain.lt_of_mem_ancestors nested member
  induction i, live using nested.frameInduction with
  | outermost i f found isParent =>
      have walk := Chain.ancestors_cons nested found
      have parent := Chain.parent?_of_frame? found
      rw [isParent] at walk parent
      refine ⟨by rw [walk]; rfl, by rw [walk]; exact .singleton i, visited i, fun j last => ?_⟩
      rw [walk] at last
      cases last
      exact parent
  | inside i f p found isParent below ih =>
      have walk := Chain.ancestors_cons nested found
      have parent := Chain.parent?_of_frame? found
      rw [isParent] at walk parent
      obtain ⟨starts, goes, -, ends⟩ := ih
      obtain ⟨rest, further⟩ : ∃ rest, c.ancestors p = p :: rest := by
        cases onwards : c.ancestors p with
        | nil => simp [onwards] at starts
        | cons q rest =>
            rw [onwards] at starts
            cases starts
            exact ⟨rest, rfl⟩
      refine ⟨by rw [walk]; rfl, ?_, visited i, fun j last => ends j ?_⟩
      · rw [walk]
        simp only [further] at goes ⊢
        exact .cons_cons parent goes
      · rw [walk] at last
        simp only [further] at last ⊢
        rw [List.getLast?_cons_cons] at last
        exact last

/-- Every frame that is opened is nested in a live one, and in between every walk goes through. -/
def Watch.nested : Watch where
  starts _ _ i m := i < m.chain.size ∧ m.chain.Nested ∧ ∀ j, j < m.chain.size → m.chain.Walk j
  opens kind i m := i < m.chain.size ∧ (m.chain.push kind (some i)).Nested ∧
    ∀ j, j ≤ m.chain.size → (m.chain.push kind (some i)).Walk j

/-! ## What an evaluation leaves of the frames -/

/-- A frame before and after an evaluation, which may take place in it or in frames nested in it. -/
structure Frame.Undisturbed (inside : Prop) (f f' : Frame) : Prop where
  kind : f'.kind = f.kind
  parent : f'.parent = f.parent
  values : f'.values = f.values
  cursor : f'.cursor = f.cursor
  declared : f'.declared = f.declared
  memos : ¬ inside → f'.lets = f.lets
  handled : ¬ (inside ∧ f.kind = .handler) → f'.handled = f.handled

/-- The machines before and after an evaluation in the frame at `i`. -/
structure Balanced (i : Nat) (m m' : Machine) : Prop where
  size : m'.chain.size = m.chain.size
  depth : m'.depth = m.depth
  nested : m'.chain.Nested
  frame : ∀ j f, m.chain.frame? j = some f → ∃ f', m'.chain.frame? j = some f' ∧
    f.Undisturbed (j ∈ m.chain.ancestors i) f'
  current : ∀ j, m'.chain.current j = m.chain.current j
  cursor : ∀ j, m'.chain.cursor? j = m.chain.cursor? j
  resolve? : ∀ j name, m'.chain.resolve? j name = m.chain.resolve? j name

variable {i : Nat} {m m' : Machine}

/-- What is looked for in the values, the cursors and the declarations of frames is found as
before. -/
theorem Keeps.search {S : Setting} {α : Type} (keeps : Keeps S .shared i m m')
    (nested : m.chain.Nested) {find : Nat → Frame → Option α} (j : Nat)
    (reads : ∀ k f f', f'.values = f.values → f'.cursor = f.cursor → f'.declared = f.declared →
      find k f' = find k f) : m'.chain.search j find = m.chain.search j find := by
  refine Chain.search_congr (keeps.ancestors nested j) fun k member => ?_
  obtain ⟨f, found⟩ := Chain.exists_frame? (Chain.lt_of_mem_ancestors nested member)
  obtain ⟨f', found', kept⟩ := keeps.frame k f found
  have shared : ¬ Mode.shared.Owns i k := fun owns => by cases owns.1
  rw [found, found']
  exact reads k f f' (kept.values shared) (kept.cursor shared) kept.declared

theorem Keeps.balanced (keeps : Keeps .whole .shared i m m') (nested : m.chain.Nested) :
    Balanced i m m' := by
  refine ⟨keeps.size, keeps.depth, keeps.nested nested, fun j f found => ?_, fun j => ?_,
    fun j => ?_, fun j name => ?_⟩
  · obtain ⟨f', found', kept⟩ := keeps.frame j f found
    have shared : ¬ Mode.shared.Owns i j := fun owns => by cases owns.1
    refine ⟨f', found', kept.kind, kept.parent, kept.values shared, kept.cursor shared,
      kept.declared, kept.memos, fun other => kept.handled shared (.inr ?_)⟩
    by_cases inside : j ∈ m.chain.ancestors i
    · exact .inr fun handler => other ⟨inside, handler⟩
    · exact .inl inside
  · simp only [Chain.current, Chain.lookup?]
    rw [keeps.search nested j fun _ _ _ values _ _ => by rw [values]]
  · exact keeps.search nested j fun _ _ _ _ cursor _ => cursor
  · refine keeps.search nested j fun k f f' values _ declared => ?_
    have slots : ∀ f : Frame,
        (Assoc.get? f.lets name).map (fun slot => Resolved.binding k slot.binding) =
          (Assoc.get? f.declared name).map (Resolved.binding k) := by
      intro f
      rw [Frame.declared, Assoc.get?_mapValues, Option.map_map]
      rfl
    simp only [values, slots, declared]

/-! ## Evaluation -/

/-- Evaluation meets the conditions on frames wherever it can start. -/
theorem SoundRunner.nested (other : Runner) (left : Nat) :
    SoundRunner .whole (TreeQuery.watched .nested other left) (.ofDepth left) := by
  refine .watched rfl (.basic ..) (fun left e i m ready => ?_) (fun kind i m nested live => ?_) other
    left
  · exact ⟨ready.live, ready.nested, fun j => ready.nested.walk⟩
  · have after : (m.chain.push kind (some i)).Nested := nested.push (by simpa using live) kind
    exact ⟨live, after, fun j below => after.walk (by simp; omega)⟩

/-- Whatever the rules allow is balanced and meets the conditions on frames. -/
theorem Alike.balanced {i' : Nat} {α : Type} {R : α → α → Prop} {x x' : Runner → Eval α}
    (alike : Alike .whole .shared i i' R x x') (nested : m.chain.Nested)
    (live : i < m.chain.size) (left : Nat) :
    Balanced i m (x (.ofDepth left) m).2 ∧ Throughout .nested left fun run => x run m := by
  have ready : Ready .whole .shared i m := ⟨nested, live, fun plain => by cases plain⟩
  have sound := fun other => alike.sound rfl (SoundRunner.nested other left) m ready
  exact ⟨(sound (.ofDepth left)).keeps.balanced nested, fun other => (sound other).agree⟩

/-- No frames are live and no evaluation is under way. -/
structure Machine.Idle (m : Machine) : Prop where
  size : m.chain.size = 0
  depth : m.depth = 0

theorem Machine.runRoot_balanced (nested : m.chain.Nested) (p : Program) (input : Value)
    (left : Nat) : Balanced m.chain.size (m.enter input) (m.runRoot (.ofDepth left) p input).2 ∧
      Throughout .nested left fun run => m.runRoot run p input := by
  have alike : Alike .whole .shared m.chain.size m.chain.size _ _ _ :=
    .runRoot .whole (p := p) (.of_effects rfl _) fun e _ => .of_effects rfl e
  exact alike.balanced (m.enter_nested nested input) (m.ready_enter nested input).live left

/-- A program that runs on an idle machine leaves it idle. -/
theorem Machine.Idle.evaluate (idle : m.Idle) (p : Program) (input : Value) :
    (m.evaluate p input).2.Idle ∧
      Throughout .nested m.depthLeft fun run => m.evaluateWith run p input := by
  obtain ⟨balanced, throughout⟩ := m.runRoot_balanced (.of_size idle.size) p input m.depthLeft
  refine ⟨⟨?_, ?_⟩, fun other => ?_⟩
  · have grown : m.chain.size ≤ (m.runRoot (.ofDepth m.depthLeft) p input).2.chain.size := by
      rw [balanced.size, m.enter_size]
      omega
    exact (Chain.size_truncate grown).trans idle.size
  · exact balanced.depth.trans idle.depth
  · have same := throughout other
    simp only [Machine.evaluateWith, same]

/-- **Evaluation is balanced.** Whatever the outcome, the evaluation of an expression in a live
frame of a nested chain leaves the frames and the depth as they were, up to memos and handled flags
around that frame. Every evaluation that is started and every frame that is opened on the way finds
a nested chain, in which all walks go through. So does what evaluates several expressions one after
the other, the elements of an array, the members of an object, operands and arguments: each of them
sees what the first one sees. A program that runs on an idle machine leaves it idle. -/
theorem eval_balanced (left i : Nat) (m : Machine) (nested : m.chain.Nested)
    (live : i < m.chain.size) :
    (∀ e, Balanced i m (eval left e i m).2 ∧ Throughout .nested left fun run => run e i m) ∧
    (∀ elements, Balanced i m (Evaluation.items (.ofDepth left) i elements m).2) ∧
    (∀ sofar members, Balanced i m (Evaluation.members (.ofDepth left) i sofar members m).2) ∧
    (∀ operand current, Balanced i m (Evaluation.forked (.ofDepth left) operand i current m).2) ∧
    (∀ args current, Balanced i m (Evaluation.callArgs (.ofDepth left) i current args m).2) ∧
    (∀ args current, Balanced i m (Evaluation.invokeArgs (.ofDepth left) i current args m).2) ∧
    ∀ (idle : Machine) (p : Program) (input : Value), idle.Idle →
      (idle.evaluate p input).2.Idle ∧
        Throughout .nested idle.depthLeft fun run => idle.evaluateWith run p input := by
  have allowed : ∀ e, Setting.whole.Allows e := .of_effects rfl
  refine ⟨fun e => ?_, fun elements => ?_, fun sofar members => ?_, fun operand current => ?_,
    fun args current => ?_, fun args current => ?_, fun idle p input isIdle => ?_⟩
  · have alike : Alike .whole .shared i i _ _ _ := .run (allowed e)
    exact alike.balanced nested live left
  · have alike : Alike .whole .shared i i _ _ _ := .items elements fun e _ => allowed e
    exact (alike.balanced nested live left).1
  · have alike : Alike .whole .shared i i _ _ _ :=
      .members members (fun member _ => allowed member.2) (.of_effects rfl sofar)
    exact (alike.balanced nested live left).1
  · have alike : Alike .whole .shared i i _ _ _ :=
      .forked (allowed operand) (.of_effects rfl current)
    exact (alike.balanced nested live left).1
  · have alike : Alike .whole .shared i i _ _ _ :=
      .callArgs (.of_effects rfl current) args fun e _ => allowed e
    exact (alike.balanced nested live left).1
  · have alike : Alike .whole .shared i i _ _ _ :=
      .invokeArgs (.of_effects rfl current) args fun e _ => allowed e
    exact (alike.balanced nested live left).1
  · exact isIdle.evaluate p input

/-- In the body of a handler, the error is counted as handled and nothing else changes. Outside of
one that fails, and leaves an idle machine idle. -/
theorem eval_balanced_in_handler :
    let m : Machine := { chain := (({} : Chain).push .query none).push .handler (some 0) }
    let e : Expr := .call "error" "handled" [.bool true]
    m.chain.Nested ∧ 1 < m.chain.size ∧ Balanced 1 m (eval 3 e 1 m).2 ∧
      m.chain.isHandled 1 = false ∧ (eval 3 e 1 m).2.chain.isHandled 1 = true ∧
      Machine.Idle {} ∧ (Machine.evaluate {} ⟨e, none⟩ .null).2.Idle := by
  intro m e
  have nested : m.chain.Nested :=
    ((Chain.Nested.of_size (c := {}) rfl).push (by simp) .query).push
      (by simp [Chain.size, Chain.push]) .handler
  have live : 1 < m.chain.size := by decide
  obtain ⟨evaluation, -, -, -, -, -, programs⟩ := eval_balanced 3 1 m nested live
  have idle : Machine.Idle {} := ⟨rfl, rfl⟩
  exact ⟨nested, live, (evaluation e).1, rfl, by decide +kernel, idle,
    (programs {} ⟨e, none⟩ .null idle).1⟩

end TreeQuery
