import TreeQuery.Evaluation.Call

/-!
# The table of functions and the table of signatures

`table` has one row for every function: how many arguments it takes, what it reads from each, and
what it computes from that. Where an argument is not what a row reads from it, or no row takes the
arguments, a row falls back on one of the defaults in `Fallbacks`. `dispatch_eq_tabled` says that
`dispatch` is this table with a refusal for every default.

The two tables agree on a function if the row reads no more than the signature promises
(`Covers`), which is decided row by row (`covers_table`). Arguments that pass the checks of a
signature are then taken by the row (`takes_of_checked`), and a row that takes its arguments does
not look at the defaults (`Row.run_of_takes`).
-/

set_option autoImplicit false

namespace TreeQuery.Evaluation

open Library

/-! ## Rows -/

/-- What a call comes to where the arguments are not what a row reads. -/
structure Fallbacks where
  text : Eval String
  bytes : Eval Bytes
  flag : Eval Bool
  /-- The result for what is no address, no fault or no stream. -/
  absent : Eval Value
  /-- More arguments than the last optional one. -/
  surplus : Eval Unit
  /-- Arguments that no row takes. -/
  unfit : Eval Evaluated

namespace Fallbacks

/-- Empty values for what does not fit, and a refusal where there is no row. -/
def silent (library name : String) (count : Nat) : Fallbacks where
  text := return ""
  bytes := return []
  flag := return false
  absent := return .empty
  surplus := return ()
  unfit := Eval.fail ((CallError.doNotFit count library name).toFault library name)

/-- A refusal everywhere. -/
def refusing (library name : String) (count : Nat) : Fallbacks where
  text := Eval.fail ((CallError.doNotFit count library name).toFault library name)
  bytes := Eval.fail ((CallError.doNotFit count library name).toFault library name)
  flag := Eval.fail ((CallError.doNotFit count library name).toFault library name)
  absent := Eval.fail ((CallError.doNotFit count library name).toFault library name)
  surplus := Eval.fail ((CallError.doNotFit count library name).toFault library name)
  unfit := Eval.fail ((CallError.doNotFit count library name).toFault library name)

end Fallbacks

/-- The call that a row answers. -/
structure Site where
  library : String
  name : String
  frame : Nat

def Site.answer (site : Site) : Except CallError Value → Eval Evaluated
  | .ok v => return .plain v
  | .error e => Eval.fail (e.toFault site.library site.name)

/-- A way to read an argument: what it reads from those of its type, and what it does with all
others. -/
structure Reading (α : Type) where
  type : ParamType
  part? : Evaluated → Option α
  otherwise : Fallbacks → (α → Eval Evaluated) → Eval Evaluated
  reads : ∀ v, type.accepts v.value = true → (part? v).isSome = true

namespace Reading

def read {α : Type} (reading : Reading α) (d : Fallbacks) (v : Evaluated)
    (next : α → Eval Evaluated) : Eval Evaluated :=
  match reading.part? v with
  | some a => next a
  | none => reading.otherwise d next

def whole : Reading Evaluated :=
  ⟨.any, some, fun d _ => d.unfit, fun _ _ => rfl⟩

def any : Reading Value :=
  ⟨.any, fun v => some v.value, fun d _ => d.unfit, fun _ _ => rfl⟩

def text : Reading String where
  type := .text
  part?
    | ⟨.text s, _⟩ => some s
    | _ => none
  otherwise d next := do next (← d.text)
  reads v accepted := by
    obtain ⟨v, _⟩ := v
    cases v <;> first | rfl | cases accepted

def bytes : Reading Bytes where
  type := .bytes
  part?
    | ⟨.bytes b, _⟩ => some b
    | _ => none
  otherwise d next := do next (← d.bytes)
  reads v accepted := by
    obtain ⟨v, _⟩ := v
    cases v <;> first | rfl | cases accepted

def flag : Reading Bool where
  type := .bool
  part?
    | ⟨.bool b, _⟩ => some b
    | _ => none
  otherwise d next := do next (← d.flag)
  reads v accepted := by
    obtain ⟨v, _⟩ := v
    cases v <;> first | rfl | cases accepted

def address : Reading Address where
  type := .address
  part?
    | ⟨.address a, _⟩ => some a
    | _ => none
  otherwise d _ := return .plain (← d.absent)
  reads v accepted := by
    obtain ⟨v, _⟩ := v
    cases v <;> first | rfl | cases accepted

def fault : Reading Fault where
  type := .fault
  part?
    | ⟨.fault f, _⟩ => some f
    | _ => none
  otherwise d _ := return .plain (← d.absent)
  reads v accepted := by
    obtain ⟨v, _⟩ := v
    cases v <;> first | rfl | cases accepted

def stream : Reading Nat where
  type := .stream
  part?
    | ⟨.stream id, _⟩ => some id
    | _ => none
  otherwise d _ := return .plain (← d.absent)
  reads v accepted := by
    obtain ⟨v, _⟩ := v
    cases v <;> first | rfl | cases accepted

end Reading

/-- What a function does with its arguments: it reads them one by one, and after the last there may
be an optional one. The indices are the types it reads and whether there is an optional one. -/
inductive Row : List ParamType → Bool → Type 1 where
  | done (body : Site → Eval Evaluated) : Row [] false
  | last (body : Option Value → Site → Eval Evaluated) : Row [] true
  | take {α : Type} {types : List ParamType} {more : Bool} (reading : Reading α)
      (next : α → Row types more) : Row (reading.type :: types) more

/-- Whether a row that reads arguments of these types takes so many. -/
def fits : List ParamType → Bool → Nat → Bool
  | [], true, _ => true
  | [], false, 0 => true
  | _ :: types, more, count + 1 => fits types more count
  | _, _, _ => false

def Row.run (d : Fallbacks) (site : Site) {types : List ParamType} {more : Bool} :
    Row types more → List Evaluated → Eval Evaluated
  | .done body, _ => body site
  | .last body, [] => body none site
  | .last body, [v] => body (some v.value) site
  | .last body, v :: _ :: _ => do
    d.surplus
    body (some v.value) site
  | .take _ _, [] => d.unfit
  | .take reading next, v :: rest => reading.read d v fun a => (next a).run d site rest

/-- A row with the name of the function that it is for. -/
structure Entry where
  library : String
  name : String
  {types : List ParamType}
  {more : Bool}
  row : Row types more

open Reading Row in
/-- The row of a function. -/
def entry : Function → Entry
  | .coreType => ⟨"core", "type", take any fun v => done fun site =>
      site.answer (.ok (.text v.typeName))⟩
  | .coreCopy => ⟨"core", "copy", take whole fun v => done fun _ => return v⟩
  | .coreIsEmpty => ⟨"core", "isEmpty", take any fun v => done fun site =>
      site.answer (.ok (.bool (isEmpty v)))⟩
  | .coreCount => ⟨"core", "count", take any fun v => done fun site =>
      site.answer (.ok (.ofNat (count v)))⟩
  | .objectUpdate => ⟨"object", "update", take any fun v => take any fun patch => done fun site =>
      site.answer (update v patch)⟩
  | .objectUpsert => ⟨"object", "upsert", take any fun v => take any fun patch => done fun site =>
      site.answer (upsert v patch)⟩
  | .objectRename => ⟨"object", "rename", take any fun v => take text fun source =>
      take text fun target => done fun site => site.answer (rename v source target)⟩
  | .objectRemove => ⟨"object", "remove", take any fun v => take text fun key => done fun site =>
      site.answer (remove v key)⟩
  | .pathRetain => ⟨"path", "retain", take any fun v => take any fun list => done fun site =>
      site.answer (retain v list)⟩
  | .pathReclude => ⟨"path", "reclude", take any fun v => take any fun list => done fun site =>
      site.answer (reclude v list)⟩
  | .pathMerge => ⟨"path", "merge", take any fun a => take any fun b => done fun site =>
      site.answer (.ok (a.merge b))⟩
  | .pathPaths => ⟨"path", "paths", take any fun v => done fun site =>
      site.answer (.ok (leaves v))⟩
  | .pathValue => ⟨"path", "value", take address fun a => done fun site =>
      site.answer (.ok a.value)⟩
  | .pathGet => ⟨"path", "get", take any fun v => take address fun a => done fun site =>
      site.answer (.ok (v.resolve a.steps))⟩
  | .pathCurrent => ⟨"path", "current", done fun site => do
      return .plain (((← Eval.ofChain fun c => c.cursor? site.frame).map .address).getD .empty)⟩
  | .pathCreate => ⟨"path", "create", take any fun parts => done fun site =>
      site.answer (createAddress parts)⟩
  | .rawEncodeBase64 => ⟨"raw", "encodeBase64", take bytes fun b => done fun site =>
      site.answer (.ok (.text (Bytes.toBase64 b)))⟩
  | .rawToHex => ⟨"raw", "toHex", take bytes fun b => done fun site =>
      site.answer (.ok (.text (Bytes.toHex b)))⟩
  | .rawToString => ⟨"raw", "toString", take bytes fun b => done fun site =>
      site.answer (toText b)⟩
  | .rawDecodeBase64 => ⟨"raw", "decodeBase64", take text fun s => done fun site =>
      site.answer (decodeBase64 s)⟩
  | .rawFromHex => ⟨"raw", "fromHex", take text fun s => done fun site =>
      site.answer (fromHex s)⟩
  | .rawFromString => ⟨"raw", "fromString", take text fun s => done fun site =>
      site.answer (.ok (.bytes (Bytes.ofText s)))⟩
  | .errorCreate => ⟨"error", "create", take text fun kind => take text fun message =>
      last fun payload site =>
        site.answer (.ok (.fault (Fault.raised kind message (payload.getD .empty))))⟩
  | .errorKind => ⟨"error", "kind", take fault fun f => done fun site =>
      site.answer (.ok (.text f.kind.name))⟩
  | .errorMessage => ⟨"error", "message", take fault fun f => done fun site =>
      site.answer (.ok (.text f.message))⟩
  | .errorPayload => ⟨"error", "payload", take fault fun f => done fun site =>
      site.answer (.ok f.payload)⟩
  | .errorHandled => ⟨"error", "handled", take flag fun b => done fun site => do
      return .plain (← markHandled site.frame b)⟩
  | .stateGet => ⟨"state", "get", take text fun key => last fun default site => do
      return .plain (← withStore (fun n b => b.get n key default) site.library site.name)⟩
  | .stateSet => ⟨"state", "set", take text fun key => take any fun v => done fun site => do
      withStore (fun n b => b.set n key v) site.library site.name
      return .plain v⟩
  | .streamCollect => ⟨"stream", "collect", take stream fun id => done fun _ => do
      return .plain (collected (← Eval.drain id))⟩

/-- The rows, looked up by library and name. -/
def table : List Entry :=
  Function.all.map entry

def entry? (library name : String) : Option Entry :=
  table.find? fun e => e.library == library && e.name == name

/-- The result of the row with a name. -/
def tabled (d : Fallbacks) (library name : String) (args : List Evaluated) (frame : Nat) :
    Eval Evaluated :=
  match entry? library name with
  | some e =>
    if fits e.types e.more args.length then e.row.run d ⟨library, name, frame⟩ args else d.unfit
  | none => d.unfit

theorem entry?_fullName (f : Function) : entry? f.fullName.1 f.fullName.2 = some (entry f) := by
  cases f <;> rfl

theorem lookup_names (f : Function) :
    Function.lookup (entry f).library (entry f).name = .ok f := by
  cases f <;> rfl

/-! ## The running table -/

/-- The functions that look at the machine, or give back what they were given. -/
def onMachine : List Function :=
  [.coreCopy, .pathCurrent, .errorHandled, .stateGet, .stateSet, .streamCollect]

/-- What the functions on values come to. -/
def ofResult (f : Function) (args : List Evaluated) (frame : Nat) : Eval Evaluated :=
  match f.result? (args.map Evaluated.value) with
  | some result => Site.answer ⟨f.fullName.1, f.fullName.2, frame⟩ result
  | none => (Fallbacks.refusing f.fullName.1 f.fullName.2 args.length).unfit

theorem dispatch_eq_ofResult {f : Function} (plain : f ∉ onMachine) (args : List Evaluated)
    (frame : Nat) : dispatch f args frame = ofResult f args frame := by
  simp only [dispatch, ofResult]
  split
  case h_8 =>
    cases f.result? (args.map Evaluated.value) with
    | none => rfl
    | some result => cases result <;> rfl
  all_goals exact absurd (by decide) plain

/-- The row of a function on values, without defaults. -/
theorem run_eq_ofResult {f : Function} (plain : f ∉ onMachine) (args : List Evaluated)
    (frame : Nat) :
    (if fits (entry f).types (entry f).more args.length then
      (entry f).row.run (.refusing f.fullName.1 f.fullName.2 args.length)
        ⟨f.fullName.1, f.fullName.2, frame⟩ args
      else (Fallbacks.refusing f.fullName.1 f.fullName.2 args.length).unfit) =
      ofResult f args frame := by
  cases f with
  | coreType | coreIsEmpty | coreCount | pathPaths | pathCreate =>
      obtain _ | ⟨a, _ | ⟨b, rest⟩⟩ := args <;> rfl
  | objectUpdate | objectUpsert | pathRetain | pathReclude | pathMerge =>
      obtain _ | ⟨a, _ | ⟨b, _ | ⟨c, rest⟩⟩⟩ := args <;> rfl
  | pathValue | rawEncodeBase64 | rawToHex | rawToString | rawFromString | errorKind
  | errorMessage | errorPayload =>
      obtain _ | ⟨⟨v, _⟩, _ | ⟨b, rest⟩⟩ := args
      · rfl
      all_goals cases v <;> rfl
  | rawDecodeBase64 | rawFromHex =>
      obtain _ | ⟨⟨v, _⟩, _ | ⟨b, rest⟩⟩ := args
      · rfl
      · cases v with
        | text s =>
          -- Only the two rows are opened: `rfl` would go on into the decoding of the text.
          simp only [entry, Row.run, Reading.read, Reading.text, ofResult, List.map, Function.result?]
          exact if_pos rfl
        | _ => rfl
      · cases v <;> rfl
  | objectRemove | pathGet =>
      obtain _ | ⟨a, _ | ⟨⟨v, _⟩, _ | ⟨c, rest⟩⟩⟩ := args
      · rfl
      · rfl
      all_goals cases v <;> rfl
  | objectRename =>
      obtain _ | ⟨a, _ | ⟨⟨v, _⟩, _ | ⟨⟨w, _⟩, rest⟩⟩⟩ := args
      · rfl
      · rfl
      · cases v <;> rfl
      · cases v with
        | text s => cases rest <;> cases w <;> rfl
        | _ => cases rest <;> rfl
  | errorCreate =>
      obtain _ | ⟨⟨v, _⟩, _ | ⟨⟨w, _⟩, rest⟩⟩ := args
      · rfl
      · cases v <;> rfl
      · cases v with
        | text s => obtain _ | ⟨c, _ | ⟨d, rest⟩⟩ := rest <;> cases w <;> rfl
        | _ => cases rest <;> rfl
  | _ => exact absurd (by decide) plain

/-- The running functions are the table without defaults. -/
theorem dispatch_eq_tabled (f : Function) (args : List Evaluated) (frame : Nat) :
    dispatch f args frame = tabled (.refusing f.fullName.1 f.fullName.2 args.length) f.fullName.1
      f.fullName.2 args frame := by
  simp only [tabled, entry?_fullName]
  by_cases machine : f ∈ onMachine
  · simp only [onMachine, List.mem_cons, List.not_mem_nil, or_false] at machine
    obtain rfl | rfl | rfl | rfl | rfl | rfl := machine
    · obtain _ | ⟨a, _ | ⟨b, rest⟩⟩ := args <;> rfl
    · obtain _ | ⟨a, rest⟩ := args <;> rfl
    · obtain _ | ⟨⟨v, _⟩, _ | ⟨b, rest⟩⟩ := args
      · rfl
      all_goals cases v <;> rfl
    · obtain _ | ⟨⟨v, _⟩, _ | ⟨b, _ | ⟨c, rest⟩⟩⟩ := args
      · rfl
      all_goals cases v <;> rfl
    · obtain _ | ⟨⟨v, _⟩, _ | ⟨b, _ | ⟨c, rest⟩⟩⟩ := args
      · rfl
      all_goals cases v <;> rfl
    · obtain _ | ⟨⟨v, _⟩, _ | ⟨b, rest⟩⟩ := args
      · rfl
      all_goals cases v <;> rfl
  · rw [dispatch_eq_ofResult machine]
    exact (run_eq_ofResult machine args frame).symm

/-! ## What the signatures promise -/

/-- Arguments that a row reads without a default. -/
inductive Takes : List ParamType → Bool → List Evaluated → Prop where
  | done : Takes [] false []
  | missing : Takes [] true []
  | last (v : Evaluated) : Takes [] true [v]
  | take {type : ParamType} {types : List ParamType} {more : Bool} {v : Evaluated}
      {args : List Evaluated} (accepted : type.accepts v.value = true)
      (others : Takes types more args) : Takes (type :: types) more (v :: args)

theorem Takes.fits {types : List ParamType} {more : Bool} {args : List Evaluated}
    (takes : Takes types more args) : fits types more args.length = true := by
  induction takes with
  | done | missing | last => rfl
  | take _ _ ih => exact ih

theorem Reading.exists_read {α : Type} (reading : Reading α) {v : Evaluated}
    (accepted : reading.type.accepts v.value = true) :
    ∃ a, ∀ d next, reading.read d v next = next a := by
  obtain ⟨a, read⟩ := Option.isSome_iff_exists.mp (reading.reads v accepted)
  exact ⟨a, fun d next => by rw [Reading.read, read]⟩

/-- A row does not look at the defaults where it takes the arguments. -/
theorem Row.run_of_takes {types : List ParamType} {more : Bool} {args : List Evaluated}
    (takes : Takes types more args) (row : Row types more) (d d' : Fallbacks) (site : Site) :
    row.run d site args = row.run d' site args := by
  induction takes with
  | done => cases row; rfl
  | missing => cases row; rfl
  | last v => cases row; rfl
  | take accepted _ ih =>
      cases row with
      | take reading next =>
          obtain ⟨a, read⟩ := reading.exists_read accepted
          rw [Row.run, Row.run, read, read, ih]

/-- Whether a signature promises all that a row reads. -/
def covers : Signature → List ParamType → Bool → Bool
  | [], [], false => true
  | [p], [], true => p.optional
  | p :: params, type :: types, more =>
    !p.optional && (type == .any || type == p.type) && covers params types more
  | _, _, _ => false

theorem covers_entry (f : Function) : covers f.signature (entry f).types (entry f).more = true := by
  cases f <;> rfl

theorem checkCount_eq_ok_iff {s : Signature} {n : Nat} :
    s.checkCount n = .ok () ↔ s.required ≤ n ∧ n ≤ s.length := by
  rw [Signature.checkCount]
  split
  · simp only [reduceCtorEq, false_iff]
    omega
  · simp only [true_iff]
    omega

theorem check_eq_ok_iff {s : Signature} {args : List Value} : s.check args = .ok () ↔
    (s.required ≤ args.length ∧ args.length ≤ s.length) ∧ s.checkTypes args = .ok () := by
  rw [← checkCount_eq_ok_iff, Signature.check]
  cases s.checkCount args.length with
  | ok => simp [bind, Except.bind]
  | error e => simp [bind, Except.bind]

theorem required_cons {p : Parameter} (needed : p.optional = false) (params : Signature) :
    Signature.required (p :: params) = Signature.required params + 1 := by
  simp [Signature.required, needed]

theorem accepts_of_covered {p : Parameter} {type : ParamType}
    (covered : (type == .any || type == p.type) = true) {v : Value}
    (accepted : p.type.accepts v = true) : type.accepts v = true := by
  obtain same | same := Bool.or_eq_true_iff.mp covered
  · rw [eq_of_beq same]
    cases v <;> rfl
  · rwa [eq_of_beq same]

/-- The numbers of arguments that a signature lets through are taken by a row that it covers. -/
theorem fits_of_count {s : Signature} {types : List ParamType} {more : Bool}
    (covered : covers s types more = true) {n : Nat} (low : s.required ≤ n) (high : n ≤ s.length) :
    fits types more n = true := by
  induction s, types, more using covers.induct generalizing n with
  | case1 =>
      rw [Nat.le_zero.mp high]
      rfl
  | case2 => rfl
  | case3 p params type types more ih =>
      simp only [covers, Bool.and_eq_true, Bool.not_eq_true'] at covered
      obtain ⟨⟨needed, -⟩, others⟩ := covered
      rw [required_cons needed] at low
      cases n with
      | zero => omega
      | succ n => exact ih others (by omega) (Nat.le_of_succ_le_succ high)
  | case4 s types more => simp [covers] at covered

/-- Arguments that pass the checks of a signature are taken by a row that it covers. -/
theorem takes_of_checked {s : Signature} {types : List ParamType} {more : Bool}
    (covered : covers s types more = true) {args : List Evaluated} {index : Nat}
    (low : s.required ≤ args.length) (high : args.length ≤ s.length)
    (checked : Signature.checkTypesFrom index s (args.map Evaluated.value) = .ok ()) :
    Takes types more args := by
  induction s, types, more using covers.induct generalizing args index with
  | case1 =>
      rw [List.length_eq_zero_iff.mp (Nat.le_zero.mp high)]
      exact .done
  | case2 =>
      obtain _ | ⟨v, _ | ⟨w, rest⟩⟩ := args
      · exact .missing
      · exact .last v
      · simp at high
  | case3 p params type types more ih =>
      simp only [covers, Bool.and_eq_true, Bool.not_eq_true'] at covered
      obtain ⟨⟨needed, promised⟩, others⟩ := covered
      rw [required_cons needed] at low
      cases args with
      | nil => simp at low
      | cons v rest =>
          simp only [List.map_cons, Signature.checkTypesFrom, needed, Bool.false_and,
            Bool.false_or] at checked
          split at checked
          · rename_i accepted
            exact .take (accepts_of_covered promised accepted)
              (ih others (Nat.le_of_succ_le_succ low) (Nat.le_of_succ_le_succ high) checked)
          · cases checked
  | case4 => simp [covers] at covered

/-! ## The tables agree -/

/-- **The table of functions and the table of signatures agree.** What runs is the table without
defaults. A function that is found and whose arguments pass its checks comes to the same with any
defaults, so that none is ever taken. Every row belongs to a function with a signature, and takes
the numbers of arguments that the signature lets through. -/
theorem dispatch_checked :
    (∀ f args frame, dispatch f args frame =
      tabled (.refusing f.fullName.1 f.fullName.2 args.length) f.fullName.1 f.fullName.2 args frame) ∧
    (∀ library name f args frame, Function.lookup library name = .ok f →
      f.signature.check (args.map Evaluated.value) = .ok () →
      ∀ d, tabled d library name args frame = dispatch f args frame) ∧
    (∀ e ∈ table, ∃ f, Function.lookup e.library e.name = .ok f ∧
      ∀ n, f.signature.checkCount n = .ok () → fits e.types e.more n = true) := by
  refine ⟨dispatch_eq_tabled, fun library name f args frame found checked d => ?_,
    fun e member => ?_⟩
  · have named := Function.fullName_of_lookup found
    obtain ⟨⟨low, high⟩, typed⟩ := check_eq_ok_iff.mp checked
    rw [List.length_map] at low high
    have takes := takes_of_checked (covers_entry f) low high typed
    have here : entry? library name = some (entry f) := by
      have found := entry?_fullName f
      rwa [named] at found
    rw [dispatch_eq_tabled, named]
    simp only [tabled, here, if_pos takes.fits]
    exact Row.run_of_takes takes _ _ _ _
  · obtain ⟨f, -, rfl⟩ := List.mem_map.mp member
    refine ⟨f, lookup_names f, fun n counted => ?_⟩
    obtain ⟨low, high⟩ := checkCount_eq_ok_iff.mp counted
    exact fits_of_count (covers_entry f) low high

/-- A raised error without its optional payload, with empty values for what does not fit. -/
theorem dispatch_checked_create :
    let args : List Evaluated := [.plain (.text "kind"), .plain (.text "message")]
    Function.lookup "error" "create" = .ok .errorCreate ∧
      Function.errorCreate.signature.check (args.map Evaluated.value) = .ok () ∧
      tabled (.silent "error" "create" 2) "error" "create" args 0 = dispatch .errorCreate args 0 ∧
      entry .errorCreate ∈ table ∧ fits (entry .errorCreate).types (entry .errorCreate).more 2 = true := by
  intro args
  obtain ⟨-, agree, rows⟩ := dispatch_checked
  have found : Function.lookup "error" "create" = .ok .errorCreate := rfl
  have checked : Function.errorCreate.signature.check (args.map Evaluated.value) = .ok () := rfl
  have member : entry .errorCreate ∈ table := List.mem_map_of_mem (by decide)
  obtain ⟨f, named, counts⟩ := rows _ member
  cases found.symm.trans named
  exact ⟨found, checked, agree _ _ _ args 0 found checked _, member, counts 2 rfl⟩

end TreeQuery.Evaluation
