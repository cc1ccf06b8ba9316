import Mathlib
import TreeQuery.Feed

/-!
# Configuring and starting a feed

A feed is configured any number of times, with options that may be refused, and then started. The
values are those of the options that were accepted (`Feed.values_configureAll`). The number of rounds
is, too, unless options are refused for nothing but their `values`: these have set the number of
rounds before they are refused (`Feed.rounds_of_refused`).

A start goes over all values in each round and would end early if the feed were stopped; no run stops
it, so this is one pass over the inputs of all rounds (`Feed.start_eq`). Each of them is run on the
machine that the run before has left, and every outcome is delivered, be it a value or an error
(`Context.runAll_eq`).
-/

set_option autoImplicit false

namespace TreeQuery

/-! ## Runs -/

namespace Context

variable (c : Context) (input : Nat → Value)

/-- The machine after a number of runs. -/
def machineAt : Nat → Machine
  | 0 => c.machine
  | k + 1 => ((machineAt k).evaluate c.program (input k)).2

/-- The outcome of a run on the machine that the runs before have left. -/
def outcomeAt (k : Nat) : Except Fault Value :=
  ((c.machineAt input k).evaluate c.program (input k)).1

def runAll (c : Context) : List Value → Context
  | [] => c
  | v :: rest => runAll (c.run v).2 rest

theorem runAll_append (c : Context) (inputs others : List Value) :
    c.runAll (inputs ++ others) = (c.runAll inputs).runAll others := by
  induction inputs generalizing c with
  | nil => rfl
  | cons w rest ih => exact ih (c.run w).2

theorem runAll_concat (c : Context) (inputs : List Value) (v : Value) :
    c.runAll (inputs ++ [v]) = ((c.runAll inputs).run v).2 :=
  c.runAll_append inputs [v]

/-- Inputs are run one after the other; failures do not matter. -/
theorem runAll_eq {inputs : List Value}
    (lists : ∀ k, (below : k < inputs.length) → inputs[k] = input k) :
    c.runAll inputs = { c with
      machine := c.machineAt input inputs.length
      runs := c.runs + inputs.length
      sink := c.sink.map (· ++ (List.range inputs.length).map (c.outcomeAt input)) } := by
  induction inputs using List.reverseRecOn with
  | nil =>
      obtain ⟨program, machine, runs, sink⟩ := c
      simp [runAll, machineAt]
  | append_singleton inputs v ih =>
      have earlier := ih fun k below => by
        rw [← lists k (by simp; omega), List.getElem_append_left below]
      have last : v = input inputs.length := by
        rw [← lists inputs.length (by simp), List.getElem_concat_length rfl]
      subst last
      rw [runAll_concat, earlier, run]
      simp only [List.length_append, List.length_singleton, List.range_succ, List.map_append,
        List.map_singleton, ← List.append_assoc, Option.map_map]
      rfl

end Context

namespace Feed

/-! ## Rounds -/

/-- The inputs of a start, in order. -/
def inputs (f : Feed) : List Value :=
  (List.replicate f.rounds f.values).flatten

theorem pass_eq {f : Feed} (running : f.running = true) (values : List Value) (c : Context) :
    f.pass values c = (true, c.runAll values) := by
  induction values generalizing c with
  | nil => rfl
  | cons v rest ih =>
      rw [pass, if_pos running, ih]
      rfl

theorem passes_eq {f : Feed} (running : f.running = true) (n : Nat) (c : Context) :
    f.passes n c = c.runAll (List.replicate n f.values).flatten := by
  induction n generalizing c with
  | zero => rfl
  | succ n ih =>
      rw [passes, pass_eq running, List.replicate_succ, List.flatten_cons, Context.runAll_append]
      exact ih _

/-- No run stops a feed, so both loops come to their ends: a start is one run for each input. -/
theorem start_eq (f : Feed) (c : Context) :
    f.start c = ({ f with running := false }, c.runAll f.inputs) := by
  rw [start, passes_eq rfl]
  rfl

/-- The value of a run, counted over all rounds. -/
def inputAt (f : Feed) (k : Nat) : Value :=
  (f.values[k % f.values.length]?).getD .empty

theorem length_inputs (f : Feed) : f.inputs.length = f.rounds * f.values.length := by
  simp [inputs]

/-- A list repeated whole. -/
theorem getElem?_flatten_replicate {α : Type} (list : List α) (rounds k : Nat)
    (below : k < rounds * list.length) :
    (List.replicate rounds list).flatten[k]? = list[k % list.length]? := by
  induction rounds generalizing k with
  | zero => simp at below
  | succ rounds ih =>
      rw [List.replicate_succ, List.flatten_cons]
      rcases Nat.lt_or_ge k list.length with first | later
      · rw [List.getElem?_append_left first, Nat.mod_eq_of_lt first]
      · have left : k - list.length < rounds * list.length := by
          rw [Nat.succ_mul] at below
          omega
        rw [List.getElem?_append_right later, ih _ left, Nat.mod_eq_sub_mod later]

theorem getElem_inputs (f : Feed) (k : Nat) (below : k < f.inputs.length) :
    f.inputs[k] = f.inputAt k := by
  have inside : k < f.rounds * f.values.length := by rwa [length_inputs] at below
  have found := getElem?_flatten_replicate f.values f.rounds k inside
  rw [inputAt, ← found]
  exact (congrArg (·.getD .empty) (List.getElem?_eq_getElem below)).symm

/-! ## Options -/

/-- The options and the number of rounds, if everything but the values is as it should be. -/
def roundsOf (options : Value) : Except OptionError (Options × Nat) := do
  let o ← Options.ofValue options
  o.only ["values", "repeat"]
  let rounds ← o.integer "repeat" 1 1000 1
  .ok (o, rounds.toNat)

theorem configure_eq (f : Feed) (options : Value) :
    f.configure options = match roundsOf options with
      | .error e => (.error e, f)
      | .ok (o, rounds) => match o.array? "values" with
        | .error e => (.error e, { f with rounds })
        | .ok none => (.ok (), { f with rounds })
        | .ok (some values) => (.ok (), { f with rounds, values }) := rfl

/-- Whether options are accepted; that does not depend on the feed. -/
def accepts (options : Value) : Bool :=
  ((configure {} options).1).isOk

/-- Options that would be accepted if they gave no values. -/
def RefusedForValues (options : Value) : Prop :=
  accepts options = false ∧
    ∃ fields, options = .object fields ∧ accepts (.object (Assoc.erase fields "values")) = true

/-- The feed after it was configured a number of times. -/
def configureAll (f : Feed) (calls : List Value) : Feed :=
  calls.foldl (fun f options => (f.configure options).2) f

/-- What can come of options: they are accepted as a whole, refused for their values with the rounds
set, or refused before anything is set. -/
theorem configure_cases (options : Value) :
    (∃ rounds, ∃ values : Option (List Value), accepts options = true ∧
      ∀ f : Feed, (f.configure options).2 = { f with rounds, values := values.getD f.values }) ∨
    (∃ o rounds e, accepts options = false ∧ roundsOf options = .ok (o, rounds) ∧
      o.array? "values" = .error e ∧ ∀ f : Feed, (f.configure options).2 = { f with rounds }) ∨
    (accepts options = false ∧ ∀ f : Feed, (f.configure options).2 = f) := by
  simp only [accepts, configure_eq]
  rcases roundsOf options with e | ⟨o, rounds⟩
  · exact .inr (.inr ⟨rfl, fun f => rfl⟩)
  · dsimp only
    rcases given : o.array? "values" with e | _ | values
    · exact .inr (.inl ⟨o, rounds, e, rfl, rfl, given, fun f => rfl⟩)
    · exact .inl ⟨rounds, none, rfl, fun f => rfl⟩
    · exact .inl ⟨rounds, some values, rfl, fun f => rfl⟩

theorem get?_erase {α : Type} (m : Assoc String α) (key other : String) :
    Assoc.get? (Assoc.erase m key) other = if key = other then none else Assoc.get? m other := by
  induction m with
  | nil => exact (ite_self _).symm
  | cons entry rest ih =>
      obtain ⟨k, v⟩ := entry
      by_cases dropped : k = key
      · have erased : Assoc.erase ((k, v) :: rest) key = Assoc.erase rest key := by
          simp [Assoc.erase, dropped]
        rw [erased, ih, Assoc.get?, dropped]
        split <;> rfl
      · have kept : Assoc.erase ((k, v) :: rest) key = (k, v) :: Assoc.erase rest key := by
          simp [Assoc.erase, dropped]
        rw [kept, Assoc.get?, ih, Assoc.get?]
        by_cases here : k = other
        · rw [if_pos here, if_pos here, if_neg fun same => dropped (here.trans same.symm)]
        · rw [if_neg here, if_neg here]

theorem roundsOf_eq_ok {options : Value} {o : Options} {rounds : Nat} :
    roundsOf options = .ok (o, rounds) ↔ Options.ofValue options = .ok o ∧
      o.only ["values", "repeat"] = .ok () ∧
      ∃ n, o.integer "repeat" 1 1000 1 = .ok n ∧ n.toNat = rounds := by
  unfold roundsOf
  cases made : Options.ofValue options with
  | error e => exact ⟨nofun, nofun⟩
  | ok given =>
      change (do given.only ["values", "repeat"]; _) = _ ↔ _
      cases known : given.only ["values", "repeat"] with
      | error e =>
          refine ⟨nofun, ?_⟩
          rintro ⟨⟨⟩, known', -⟩
          cases known.symm.trans known'
      | ok u =>
          change (do let n ← given.integer "repeat" 1 1000 1; _) = _ ↔ _
          cases whole : given.integer "repeat" 1 1000 1 with
          | error e =>
              refine ⟨nofun, ?_⟩
              rintro ⟨⟨⟩, -, n, whole', -⟩
              cases whole.symm.trans whole'
          | ok n =>
              refine ⟨?_, ?_⟩
              · rintro ⟨⟩
                exact ⟨rfl, known, n, whole, rfl⟩
              · rintro ⟨⟨⟩, -, n', whole', rfl⟩
                cases whole.symm.trans whole'
                rfl

theorem only_erase {fields : List (String × Value)} {known : List String}
    (fine : Options.only ⟨fields⟩ known = .ok ()) (key : String) :
    Options.only ⟨Assoc.erase fields key⟩ known = .ok () := by
  have fit : fields.find? (fun field => !known.contains field.1) = none := by
    unfold Options.only at fine
    split at fine
    · cases fine
    · assumption
  have fewer : (Assoc.erase fields key).find? (fun field => !known.contains field.1) = none := by
    rw [List.find?_eq_none] at fit ⊢
    exact fun field member => fit field (List.mem_of_mem_filter member)
  simp only [Options.only, fewer]

/-- Where only the values are at fault, there are options, and without the values they would do. -/
theorem refusedForValues {options : Value} {o : Options} {rounds : Nat} {e : OptionError}
    (refused : accepts options = false) (read : roundsOf options = .ok (o, rounds))
    (fault : o.array? "values" = .error e) : RefusedForValues options := by
  obtain ⟨made, known, n, whole, rfl⟩ := roundsOf_eq_ok.mp read
  obtain ⟨fields, rfl⟩ : ∃ fields, options = .object fields := by
    cases options with
    | object fields => exact ⟨fields, rfl⟩
    | empty | null =>
        cases made
        cases fault
    | _ => cases made
  cases made
  refine ⟨refused, fields, rfl, ?_⟩
  have rest : roundsOf (.object (Assoc.erase fields "values")) =
      .ok (⟨Assoc.erase fields "values"⟩, n.toNat) := by
    refine roundsOf_eq_ok.mpr ⟨rfl, ?_, n, ?_, rfl⟩
    · exact only_erase known "values"
    · have same : Options.get? ⟨Assoc.erase fields "values"⟩ "repeat" =
          Options.get? ⟨fields⟩ "repeat" := get?_erase fields "values" "repeat"
      rw [← whole, Options.integer, same]
      rfl
  have none : Options.array? ⟨Assoc.erase fields "values"⟩ "values" = .ok none := by
    have gone : Options.get? ⟨Assoc.erase fields "values"⟩ "values" = none :=
      get?_erase fields "values" "values"
    rw [Options.array?, gone]
  simp only [accepts, configure_eq, rest, none]
  rfl

/-! ## A feed that was configured -/

/-- Refused options do not change the values. -/
theorem values_configureAll (f g : Feed) (calls : List Value) (same : f.values = g.values) :
    (f.configureAll calls).values = (g.configureAll (calls.filter accepts)).values := by
  induction calls generalizing f g with
  | nil => exact same
  | cons options rest ih =>
      change ((f.configure options).2.configureAll rest).values = _
      rcases configure_cases options with
        ⟨rounds, values, accepted, set⟩ | ⟨_, _, _, refused, -, -, set⟩ | ⟨refused, set⟩
      · rw [List.filter_cons_of_pos accepted]
        refine ih _ _ ?_
        simp only [set, same]
      · rw [List.filter_cons_of_neg (by simp [refused])]
        exact ih _ _ (by rw [set]; exact same)
      · rw [List.filter_cons_of_neg (by simp [refused])]
        exact ih _ _ (by rw [set]; exact same)

/-- Options that are refused for something else than their values do not change anything. -/
theorem configureAll_filter (f : Feed) (calls : List Value)
    (others : ∀ options ∈ calls, ¬ RefusedForValues options) :
    f.configureAll calls = f.configureAll (calls.filter accepts) := by
  induction calls generalizing f with
  | nil => rfl
  | cons options rest ih =>
      have later := fun f => ih f fun options member => others options (List.mem_cons_of_mem _ member)
      change (f.configure options).2.configureAll rest = _
      rw [later]
      rcases configure_cases options with
        ⟨_, _, accepted, -⟩ | ⟨_, _, _, refused, read, fault, -⟩ | ⟨refused, set⟩
      · rw [List.filter_cons_of_pos accepted]
        rfl
      · exact absurd (refusedForValues refused read fault) (others options (List.mem_cons_self ..))
      · rw [List.filter_cons_of_neg (by simp [refused]), set]

/-- **Refused options leave a feed as it was, and a start runs through all of it.** A new feed is
configured any number of times. Its values are those that the accepted options alone give it; and so
is the number of rounds, if no options are refused for nothing but their values. The start that
follows makes one run for each value in each round. The sink gets one outcome for each run, in that
order, an error no less than a value, and the feed is not running afterwards. -/
theorem start_configureAll (calls : List Value) (c : Context) (delivered : List (Except Fault Value))
    (listening : c.sink = some delivered) :
    let f := Feed.configureAll {} calls
    let g := Feed.configureAll {} (calls.filter accepts)
    f.values = g.values ∧
    ((∀ options ∈ calls, ¬ RefusedForValues options) → f.rounds = g.rounds) ∧
    (f.start c).1.running = false ∧
    (f.start c).2.runs = c.runs + f.rounds * f.values.length ∧
    (f.start c).2.sink = some (delivered ++
      (List.range (f.rounds * f.values.length)).map (c.outcomeAt f.inputAt)) := by
  intro f g
  have ran := c.runAll_eq f.inputAt f.getElem_inputs
  rw [f.length_inputs] at ran
  refine ⟨values_configureAll {} {} calls rfl, fun others => ?_, rfl, ?_, ?_⟩
  · exact congrArg Feed.rounds (configureAll_filter {} calls others)
  · rw [start_eq, ran]
  · rw [start_eq, ran]
    simp only [listening, Option.map_some]

/-- Options are refused for their number of rounds, for an option that is not known and for not being
options at all; all of the runs that follow fail. -/
theorem start_configureAll_refused :
    let calls : List Value :=
      [.object [("values", .array [.text "a", .null]), ("repeat", .ofInt 2)],
        .object [("values", .array []), ("repeat", .ofInt 1001)],
        .object [("port", .null), ("values", .null)], .text "repeat"]
    let c : Context := { program := ⟨.raise "No" none .current none, none⟩, machine := {}, sink := some [] }
    let f := Feed.configureAll {} calls
    (∀ options ∈ calls, ¬ RefusedForValues options) ∧
      f.rounds = (Feed.configureAll {} (calls.filter accepts)).rounds ∧
      f.rounds * f.values.length = 4 ∧ (f.start c).2.runs = 4 := by
  intro calls c f
  have others : ∀ options ∈ calls, ¬ RefusedForValues options := by
    intro options member
    simp only [calls, List.mem_cons, List.not_mem_nil, or_false] at member
    rcases member with rfl | rfl | rfl | rfl
    · rintro ⟨refused, -⟩
      revert refused
      decide +kernel
    · rintro ⟨-, fields, ⟨⟩, accepted⟩
      revert accepted
      decide +kernel
    · rintro ⟨-, fields, ⟨⟩, accepted⟩
      revert accepted
      decide +kernel
    · rintro ⟨-, fields, ⟨⟩, -⟩
  have count : f.rounds * f.values.length = 4 := by decide +kernel
  obtain ⟨-, rounds, -, runs, -⟩ := start_configureAll calls c [] rfl
  exact ⟨others, rounds others, count, runs.trans (by rw [count])⟩

/-- Options that are refused for their values have set the number of rounds. -/
theorem rounds_of_refused :
    let calls : List Value :=
      [.object [("values", .array [.null])], .object [("repeat", .ofInt 3), ("values", .null)]]
    calls.map accepts = [true, false] ∧ (Feed.configureAll {} calls).rounds = 3 ∧
      (Feed.configureAll {} (calls.filter accepts)).rounds = 1 := by
  decide +kernel

end Feed

end TreeQuery
