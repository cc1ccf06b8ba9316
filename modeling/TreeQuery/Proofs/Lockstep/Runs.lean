import TreeQuery.Proofs.Frames.Balance
import TreeQuery.Proofs.Lockstep.Expressions
import TreeQuery.Proofs.Lockstep.Tied

/-!
# Programs on tied machines

A program that runs on tied machines comes to the same outcome on both, up to the identities of
functions, and leaves them tied (`Machine.evaluateWith_tied`). The depth that is left may differ if
running out of it ends the comparison. A machine on which nothing was evaluated yet holds nothing
but streams, so it meets the conditions of any comparison (`Machine.Pristine.confined`).
-/

set_option autoImplicit false

namespace TreeQuery

variable {S : Setting} {C : Comparison S} {r r' : Runner} {m m' : Machine}

/-! ## Evaluation -/

theorem Tied.deeper {α : Type} {R : α → α → Prop} {x x' : Runner → Eval α}
    (tied : Tied C r r' R x x') :
    Tied C r r' R (fun r => Eval.deeper (x r)) (fun r => Eval.deeper (x' r)) := by
  intro m confined
  have inside := tied _ (confined.atDepth (m.depth + 1))
  refine ⟨inside.confined.atDepth _, inside.counts, inside.ends, fun m' tie fits => ?_⟩
  rcases inside.ties _ (tie.atDepth (congrArg (· + 1) tie.depth)) fits with
    ended | ⟨matched, after⟩
  · exact .inl ended
  · exact .inr ⟨matched, after.atDepth (congrArg (· - 1) after.depth)⟩

/-- Both machines have the same depth left, or the second has more and it ends the comparison when
the first runs out of it. -/
def Comparison.Enough (C : Comparison S) (left left' : Nat) : Prop :=
  left = left' ∧ C.limit = C.settings.maxDepth ∨
    left ≤ left' ∧ C.fatal (depthExceeded C.settings.maxDepth)

/-- **Evaluation goes alike on tied machines**, under a watch whose conditions are met wherever
something can start. -/
theorem TiedRunner.watched {ok : Watch} (starts : ∀ left e i m, Confined C m → ok.starts left e i m)
    (opens : ∀ kind i m, ok.opens kind i m) (other : Runner) {left left' : Nat}
    (enough : C.Enough left left') :
    TiedRunner C (watched ok other left) (.ofDepth left') := by
  have within : ∀ (left : Nat) {α : Type} (kind : FrameKind) (i : Nat) (body : Nat → Eval α),
      (TreeQuery.watched ok other left).within kind i body = Eval.within kind i body := by
    intro left α kind i body
    funext m
    exact watched_within (opens kind i m)
  refine ⟨?_, within left, fun _ _ _ => rfl⟩
  induction left generalizing left' with
  | zero =>
      intro e allowed i m confined
      have signal : S.signal (.fault (depthExceeded C.settings.maxDepth))
          (.fault (depthExceeded C.settings.maxDepth)) := .const fun _ => rfl
      have run : (TreeQuery.watched ok other 0).eval e i m =
          (.error (.fault (depthExceeded C.settings.maxDepth)), m) := by
        rw [watched_zero (starts 0 e i m confined), ← confined.settings]
        rfl
      refine ⟨by rw [run]; exact confined, Nat.le_of_eq (by rw [run]),
        by rw [run]; exact ⟨_, signal⟩, fun m' tie _ => ?_⟩
      rw [run]
      rcases enough with ⟨rfl, same⟩ | ⟨-, fatal⟩
      · have runToo : (Runner.ofDepth 0).eval e i m' =
            (.error (.fault (depthExceeded C.settings.maxDepth)), m') := by
          have limit : m'.settings.maxDepth = C.settings.maxDepth := by rw [tie.settings, ← same]
          rw [← limit]
          rfl
        rw [runToo]
        exact .inr ⟨.error signal, tie⟩
      · exact .inl ⟨_, rfl, fatal⟩
  | succ left ih =>
      intro e allowed i m confined
      obtain ⟨left', rfl, fewer⟩ : ∃ k, left' = k + 1 ∧ C.Enough left k := by
        rcases enough with ⟨rfl, same⟩ | ⟨less, fatal⟩
        · exact ⟨left, rfl, .inl ⟨rfl, same⟩⟩
        · obtain ⟨k, rfl⟩ : ∃ k, left' = k + 1 := ⟨left' - 1, by omega⟩
          exact ⟨k, rfl, .inr ⟨by omega, fatal⟩⟩
      have runner : TiedRunner C (TreeQuery.watched ok other left) (.ofDepth left') :=
        ⟨ih fewer, within left, fun _ _ _ => rfl⟩
      have same : e.trim S.keep = e := by
        rw [C.kept]
        exact e.trim_true
      have alike : Alike S .shared i i S.result (fun r => Evaluation.node r e i)
          (fun r => Evaluation.node r (e.trim S.keep) i) := .node allowed
      rw [same] at alike
      exact .of_tied (watched_succ (starts (left + 1) e i m confined)) (fun _ _ => rfl)
        ((alike.tied runner rfl).deeper m confined)

theorem TiedRunner.ofDepth {left left' : Nat} (enough : C.Enough left left') :
    TiedRunner C (.ofDepth left) (.ofDepth left') := by
  have runner : TiedRunner C (TreeQuery.watched .anything (.ofDepth left) left) (.ofDepth left') :=
    .watched (fun _ _ _ _ _ => trivial) (fun _ _ _ => trivial) _ enough
  rw [watched_anything] at runner
  exact runner

/-! ## Programs -/

structure Setting.AllowsProgram (S : Setting) (p : Program) : Prop where
  root : S.Allows p.root
  handler : ∀ e ∈ Handler.parts p.handler, S.Allows e
  absent : S.unhandled = true → p.handler = none

theorem Setting.chains_enter {c c' : Chain} (chains : S.chains c c') {input input' : Value}
    (related : S.value input input') :
    S.chains
      (((c.push .query none).setCursor c.size (.linkedTo [] input)).setCurrent c.size
        (.plain input))
      (((c'.push .query none).setCursor c'.size (.linkedTo [] input')).setCurrent c'.size
        (.plain input')) := by
  refine chains.map₂ related (fun c input =>
    ((c.push .query none).setCursor c.size (.linkedTo [] input)).setCurrent c.size (.plain input))
    fun τ c input => ?_
  rw [Chain.setCurrent, Chain.setCurrent, Chain.under_setValue, Chain.under_setCursor,
    Chain.under_push, Chain.size_under, Address.linkedTo_translate, Evaluated.translate_plain]

theorem Confined.enter (confined : Confined C m) {input input' : Value}
    (related : S.value input input') : Confined C (m.enter input) := by
  refine confined.onChain (f := fun c => ((c.push .query none).setCursor m.chain.size
    (.linkedTo [] input)).setCurrent m.chain.size (.plain input))
    (S.chains_enter confined.chains related).inert ?_
  have pushed := confined.declares.push .query none
  have pointed : ((m.chain.push .query none).setCursor m.chain.size
      (.linkedTo [] input)).Declares S := pushed.update _ fun _ _ slot found => ⟨slot, found, rfl⟩
  exact pointed.update _ fun _ _ slot found => ⟨slot, found, rfl⟩

theorem Tie.enter (tie : Tie C m m') (confined : Confined C m) {input input' : Value}
    (related : S.value input input') : Tie C (m.enter input) (m'.enter input') :=
  tie.onChain (f := fun c => ((c.push .query none).setCursor m.chain.size
      (.linkedTo [] input)).setCurrent m.chain.size (.plain input))
    (g := fun c => ((c.push .query none).setCursor m'.chain.size
      (.linkedTo [] input')).setCurrent m'.chain.size (.plain input'))
    (S.chains_enter (tie.chains confined) related).image

/-- Related outcomes are related as results of a program. -/
theorem Setting.Matches.outcomeOf {o o' : Except Signal Evaluated}
    (matched : S.Matches S.result o o') :
    Machine.outcomeOf o' = translateResult S.image (Machine.outcomeOf o) := by
  cases matched with
  | ok related =>
      rw [related.image]
      exact congrArg Except.ok (Evaluated.value_translate ..)
  | @error s s' related =>
      rw [related.image]
      cases s <;> rfl

/-- **Programs run alike on tied machines.** -/
theorem Machine.evaluateWith_tied (runner : TiedRunner C r r') {p : Program}
    (program : S.AllowsProgram p) {input input' : Value} (related : S.value input input')
    (confined : Confined C m) :
    Confined C (m.evaluateWith r p input).2 ∧ m.nextId ≤ (m.evaluateWith r p input).2.nextId ∧
      ∀ m', Tie C m m' → C.fits (m.evaluateWith r p input).2.nextId →
        (∃ f, (m.evaluateWith r p input).1 = .error f ∧ C.fatal f) ∨
          (m'.evaluateWith r' p input').1 =
              translateResult S.image (m.evaluateWith r p input).1 ∧
            Tie C (m.evaluateWith r p input).2 (m'.evaluateWith r' p input').2 := by
  have alike : Alike S .shared m.chain.size m.chain.size S.result
      (fun run => Evaluation.guarded run m.chain.size p.handler (run p.root m.chain.size))
      (fun run => Evaluation.guarded run m.chain.size (Handler.trimOption S.keep p.handler)
        (run (p.root.trim S.keep) m.chain.size)) :=
    .runRoot S program.root program.handler program.absent
  rw [C.kept, Handler.trimOption_true, Expr.trim_true] at alike
  obtain ⟨confinedAfter, counts, ends, ties⟩ := alike.tied runner rfl _ (confined.enter related)
  have cleared : ∀ {n : Machine}, Confined C n →
      Confined C { n.onChain (·.truncate m.chain.size) with perQuery := [] } := fun confined =>
    { confined.truncate m.chain.size with
      grown := { confined.grown with }
      perQuery := fun _ => rfl }
  refine ⟨cleared confinedAfter, counts, fun m' tie fits => ?_⟩
  rcases ties _ (tie.enter confined related) fits with ⟨f, failed, fatal⟩ | ⟨matched, tied⟩
  · exact .inl ⟨f, congrArg Machine.outcomeOf failed, fatal⟩
  · have root : m'.runRoot r' p input' =
        Evaluation.guarded r' m.chain.size p.handler (r' p.root m.chain.size)
          (m'.enter input') := by
      rw [← tie.size]
      rfl
    have cut := tied.truncate m.chain.size
    rw [← root] at matched cut
    refine .inr ⟨matched.outcomeOf, ?_⟩
    simp only [evaluateWith, tie.size]
    exact { cut with
      perQuery := rfl
      lasting := fun lasting => { cut.lasting lasting with }
      apart := fun apart => { cut.apart apart with } }

/-- A program that is allowed leaves an idle machine idle, with nothing on it that may not occur. -/
theorem Machine.Idle.confined_evaluate {family : Settings → Comparison S} (idle : m.Idle)
    (runner : TiedRunner (family m.settings) (.ofDepth m.depthLeft) r') {p : Program}
    (program : S.AllowsProgram p) {input input' : Value} (related : S.value input input')
    (confined : Confined (family m.settings) m) :
    Confined (family (m.evaluate p input).2.settings) (m.evaluate p input).2 ∧
      (m.evaluate p input).2.Idle := by
  have after : Confined (family m.settings) (m.evaluate p input).2 :=
    (Machine.evaluateWith_tied runner program related confined).1
  have settings : (m.evaluate p input).2.settings = m.settings :=
    after.settings.trans confined.settings.symm
  rw [settings]
  exact ⟨after, (idle.evaluate p input).1⟩

/-! ## New machines -/

/-- A machine on which nothing was evaluated yet. -/
structure Machine.Pristine (m : Machine) : Prop extends Machine.Idle m where
  configs : m.configs = []
  persistent : m.persistent = []
  perQuery : m.perQuery = []
  forced : m.forced = []

theorem Machine.Pristine.confined (pristine : m.Pristine) (settings : m.settings = C.settings)
    (base : C.base = {}) (streams : C.lasting = true → S.plain = true →
      Assoc.mapValues (List.map (Value.translate S.test)) m.streams = m.streams) :
    Confined C m := by
  have chain : m.chain = {} := Chain.eq_empty pristine.size
  refine ⟨settings, ?_, fun _ => ?_, ?_, fun _ => ?_, fun _ => ?_, fun _ => ?_, fun _ => ?_,
    streams, ?_⟩
  · rw [base]
    exact ⟨nofun, nofun⟩
  · rw [chain, Chain.under_empty]
  · rw [chain]
    intro j f name slot found
    cases found
  · rw [pristine.perQuery]
    rfl
  · rw [pristine.persistent]
    rfl
  · rw [pristine.forced]
    rfl
  · rw [pristine.configs]
    rfl
  · rw [pristine.configs]
    nofun

end TreeQuery
