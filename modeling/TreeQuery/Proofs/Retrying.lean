import Mathlib.Logic.Basic
import TreeQuery.Store

/-!
# A store that tries again is a map in which the last write wins

Stores with different numbers of attempts share a backend, which may be told at any time to refuse
its next operations. `Backend.withRetry_eq` says what trying again comes to: a call either meets
as many failures as it has attempts, uses these up and changes nothing else, or uses up all that are
pending and then does what it would do on a backend without failures. So after any sequence of
requests the entry of a key is the text of the value that was last written under it
(`run_lastWriteWins`), where a call writes if it is a set, or a get with a default that finds
nothing. What is ordered to fail is what the next calls meet (`run_failNext`, `Call.perform_failNext`).
-/

set_option autoImplicit false

namespace TreeQuery.Store

/-! ## Trying again -/

namespace Backend

/-- Why the backend refuses an operation. -/
def refusal : String := "connection refused"

/-- A backend on which nothing is pending any more. -/
def reachable (b : Backend) : Backend :=
  { b with failures := 0 }

@[simp] theorem entry?_reachable (b : Backend) (key : String) :
    b.reachable.entry? key = b.entry? key := rfl

/-- One attempt is enough there. -/
theorem not_refused_reachable (attempts : Nat) (b : Backend) :
    ¬ max attempts 1 ≤ b.reachable.failures := by
  simp only [reachable]
  omega

/-- Attempts meet pending failures one by one. -/
theorem retrying_eq {α : Type} (operation : Backend → α × Backend) (attempts left : Nat)
    (last : String) (b : Backend) :
    retrying (attempt operation) attempts left last b =
      if left ≤ b.failures then
        (.error (.exhausted attempts (if left = 0 then last else refusal)),
          { b with failures := b.failures - left })
      else (.ok (operation b.reachable).1, (operation b.reachable).2) := by
  induction left generalizing last b with
  | zero => rfl
  | succ left ih =>
      by_cases pending : b.failures = 0
      · have through : { b with failures := 0 } = b := by rw [← pending]
        have enough : ¬ left + 1 ≤ b.failures := by omega
        simp only [retrying, attempt, pending, if_true, reachable, through]
        rfl
      · have refused : retrying (attempt operation) attempts (left + 1) last b =
            retrying (attempt operation) attempts left refusal
              { b with failures := b.failures - 1 } := by
          simp only [retrying, attempt, pending, if_false]
          rfl
        rw [refused, ih]
        have fewer : left ≤ b.failures - 1 ↔ left + 1 ≤ b.failures := by omega
        have same : b.failures - 1 - left = b.failures - (left + 1) := by omega
        simp only [fewer, same, Nat.succ_ne_zero, if_false, ite_self, reachable]

/-- A call that has as many attempts as failures are pending, or fewer, uses up one failure each and
changes nothing else. Any other call gets through. -/
theorem withRetry_eq {α : Type} (attempts : Nat) (operation : Backend → α × Backend) (b : Backend) :
    withRetry attempts operation b =
      if max attempts 1 ≤ b.failures then
        (.error (.exhausted (max attempts 1) refusal),
          { b with failures := b.failures - max attempts 1 })
      else (.ok (operation b.reachable).1, (operation b.reachable).2) := by
  have once : max attempts 1 ≠ 0 := by omega
  rw [withRetry, retrying_eq, if_neg once]

end Backend

/-! ## Calls -/

/-- What a program asks of a store. -/
inductive Call where
  | set (key : String) (v : Value)
  | get (key : String) (default : Option Value)

namespace Call

def key : Call → String
  | .set key _ => key
  | .get key _ => key

/-- Makes a call with a number of attempts; a set gives no value. -/
def perform (attempts : Nat) (b : Backend) : Call → Except StoreError (Option Value) × Backend
  | .set key v => Prod.map (Except.map fun _ => none) id (b.set attempts key v)
  | .get key default => Prod.map (Except.map some) id (b.get attempts key default)

/-- The value that a call writes, given the text that is stored under its key. -/
def write? (found : Option String) : Call → Option Value
  | .set _ v => some v
  | .get _ default => if found.isSome then none else default.filter fun v => !v.isEmpty

/-- What a call gives, given the text that is stored under its key. -/
def answer (found : Option String) : Call → Except StoreError (Option Value)
  | .set _ _ => .ok none
  | .get key default => match found with
    | some text => (decode key text).map some
    | none => .ok (some (default.getD .empty))

end Call

namespace Backend

/-- The entries after a value was written, if one was. -/
def written (b : Backend) (key : String) : Option Value → Assoc String String
  | some v => Assoc.insert b.entries key (encode v)
  | none => b.entries

theorem get?_written (b : Backend) (key other : String) (v : Option Value) :
    Assoc.get? (b.written key v) other =
      if key = other then (v.map encode).or (b.entry? other) else b.entry? other := by
  cases v with
  | none =>
      simp only [written, Option.map_none, Option.none_or, ite_self]
      rfl
  | some v => exact Assoc.get?_insert b.entries key other (encode v)

theorem set_eq (attempts : Nat) (key : String) (v : Value) (b : Backend) :
    b.set attempts key v =
      if max attempts 1 ≤ b.failures then
        (.error (.exhausted (max attempts 1) refusal),
          { b with failures := b.failures - max attempts 1 })
      else (.ok (), ⟨Assoc.insert b.entries key (encode v), 0⟩) := by
  rw [set, withRetry_eq]
  rfl

end Backend

/-- A text that cannot be decoded is no sign of a backend out of reach. -/
theorem decode_ne_exhausted (key text : String) (n : Nat) (last : String) :
    decode key text ≠ .error (.exhausted n last) := by
  unfold decode
  split
  · split <;> nofun
  · split <;> nofun
  · nofun
  · nofun

namespace Call

/-- A get reads first and then, if it has to, writes; whatever was pending is used up by the read. -/
theorem perform_eq (attempts : Nat) (b : Backend) (c : Call) :
    c.perform attempts b =
      if max attempts 1 ≤ b.failures then
        (.error (.exhausted (max attempts 1) Backend.refusal),
          { b with failures := b.failures - max attempts 1 })
      else (c.answer (b.entry? c.key), ⟨b.written c.key (c.write? (b.entry? c.key)), 0⟩) := by
  by_cases refused : max attempts 1 ≤ b.failures
  · rw [if_pos refused]
    cases c with
    | set key v =>
        rw [perform, Backend.set_eq, if_pos refused]
        rfl
    | get key default =>
        rw [perform, Backend.get, Backend.withRetry_eq, if_pos refused]
        rfl
  · rw [if_neg refused]
    cases c with
    | set key v =>
        rw [perform, Backend.set_eq, if_neg refused]
        rfl
    | get key default =>
        have through := b.not_refused_reachable attempts
        rw [perform, Backend.get, Backend.withRetry_eq, if_neg refused]
        obtain missing | ⟨text, found⟩ := Option.eq_none_or_eq_some (b.entry? key)
        · simp only [Backend.read, Backend.entry?_reachable, answer, write?, Call.key, missing]
          cases default with
          | none => rfl
          | some v =>
              by_cases empty : v.isEmpty = true
              · have same : v = .empty := by
                  cases v <;> first | rfl | cases empty
                subst same
                rfl
              · simp only [empty, Backend.set_eq, through, if_false, Option.filter_some]
                rfl
        · simp only [Backend.read, Backend.entry?_reachable, answer, write?, Call.key, found]
          rfl

theorem answer_ne_exhausted (c : Call) (found : Option String) (n : Nat) (last : String) :
    c.answer found ≠ .error (.exhausted n last) := by
  cases c with
  | set key v => nofun
  | get key default =>
      cases found with
      | none => nofun
      | some text =>
          have other := decode_ne_exhausted key text n last
          rw [answer]
          cases decoded : decode key text with
          | ok v => nofun
          | error e =>
              rw [decoded] at other
              simpa [Except.map] using other

end Call

/-! ## Sequences of requests -/

/-- What is asked of a backend: to refuse its next operations, or a call by a store with its own
number of attempts. -/
inductive Request where
  | failNext (count : Nat)
  | call (attempts : Nat) (c : Call)

namespace Request

/-- The backend after a request. -/
def perform (b : Backend) : Request → Backend
  | .failNext count => b.failNext count
  | .call attempts c => (c.perform attempts b).2

/-- What a request writes, and under which key. A call that runs out of attempts writes nothing. -/
def write? (b : Backend) : Request → Option (String × Value)
  | .failNext _ => none
  | .call attempts c =>
    if max attempts 1 ≤ b.failures then none else (c.write? (b.entry? c.key)).map (c.key, ·)

/-- Only what is written changes an entry. -/
theorem entry?_perform (b : Backend) (r : Request) (key : String) :
    Backend.entry? (r.perform b) key =
      ((Assoc.get? (r.write? b).toList key).map encode).or (b.entry? key) := by
  cases r with
  | failNext count => rfl
  | call attempts c =>
      rw [perform, write?, Call.perform_eq]
      split
      · rfl
      · change Assoc.get? (b.written c.key _) key = _
        rw [Backend.get?_written]
        cases c.write? (b.entry? c.key) with
        | none => simp [Assoc.get?]
        | some v => by_cases here : c.key = key <;> simp [Assoc.get?, here]

end Request

/-- The backend after requests, one after the other. -/
def run (b : Backend) (requests : List Request) : Backend :=
  requests.foldl Request.perform b

/-- What requests write, in order. -/
def writes (b : Backend) : List Request → List (String × Value)
  | [] => []
  | r :: rest => (r.write? b).toList ++ writes (r.perform b) rest

/-- The value that was last written under a key, from an empty backend on. -/
def lastWrite? (requests : List Request) (key : String) : Option Value :=
  Assoc.get? (writes {} requests).reverse key

/-- After requests, the entry of a key is the text of the last write, or what it was before. -/
theorem entry?_run (b : Backend) (requests : List Request) (key : String) :
    Backend.entry? (run b requests) key =
      ((Assoc.get? (writes b requests).reverse key).map encode).or (b.entry? key) := by
  induction requests generalizing b with
  | nil => rfl
  | cons r rest ih =>
      have single : (r.write? b).toList.reverse = (r.write? b).toList := by
        cases r.write? b <;> rfl
      change Backend.entry? (run (r.perform b) rest) key = _
      rw [ih, Request.entry?_perform, writes, List.reverse_append, single, Assoc.get?_append]
      cases Assoc.get? (writes (r.perform b) rest).reverse key <;> rfl

/-- **The last write wins, whatever fails.** Stores that share a backend make calls, one at a time,
and failures are ordered in between. After any such sequence the entry of a key is the text of the
value last written under it. A further call runs out of its attempts exactly if at least as many
failures are pending, and then uses up one each and leaves all entries alone. Otherwise it uses up
all that are pending; what it gives depends on the entry of its key, of which a get that finds one
gives the decoding; and only the entry under its key can change, to the text of what it writes. -/
theorem run_lastWriteWins (requests : List Request) :
    let b := run {} requests
    (∀ key, b.entry? key = (lastWrite? requests key).map encode) ∧
    ∀ (attempts : Nat) (c : Call),
      let m := max attempts 1
      let outcome := (c.perform attempts b).1
      let after := (c.perform attempts b).2
      ((∃ last, outcome = .error (.exhausted m last)) ↔ m ≤ b.failures) ∧
      (m ≤ b.failures → after.failures = b.failures - m ∧ after.entries = b.entries) ∧
      (b.failures < m → after.failures = 0 ∧ outcome = c.answer (b.entry? c.key) ∧
        after.entry? c.key = ((c.write? (b.entry? c.key)).map encode).or (b.entry? c.key) ∧
        ∀ other, other ≠ c.key → after.entry? other = b.entry? other) := by
  intro b
  refine ⟨fun key => ?_, fun attempts c => ?_⟩
  · have found := entry?_run {} requests key
    rwa [show Backend.entry? {} key = none from rfl, Option.or_none] at found
  · intro m outcome after
    have performed : (outcome, after) = _ := c.perform_eq attempts b
    by_cases refused : m ≤ b.failures
    · rw [if_pos refused] at performed
      obtain ⟨ended, left⟩ := Prod.mk.inj performed
      rw [ended, left]
      exact ⟨⟨fun _ => refused, fun _ => ⟨_, rfl⟩⟩, fun _ => ⟨rfl, rfl⟩, fun through => by omega⟩
    · rw [if_neg refused] at performed
      obtain ⟨ended, left⟩ := Prod.mk.inj performed
      rw [ended, left]
      refine ⟨⟨?_, fun enough => absurd enough refused⟩, fun enough => absurd enough refused,
        fun _ => ⟨rfl, rfl, ?_, fun other apart => ?_⟩⟩
      · rintro ⟨last, exhausted⟩
        exact absurd exhausted (c.answer_ne_exhausted _ m last)
      · exact (b.get?_written c.key c.key _).trans (if_pos rfl)
      · exact (b.get?_written c.key other _).trans (if_neg (Ne.symm apart))

/-! ## Ordering failures -/

/-- Failures are ordered as a number, not on top of those that are pending: exactly so many are
pending afterwards, whatever was asked before, and all entries stay. -/
theorem run_failNext (b : Backend) (requests : List Request) (count : Nat) :
    run b (requests ++ [.failNext count]) = ⟨(run b requests).entries, count⟩ := by
  rw [run, List.foldl_append]
  rfl

/-- The next call after failures were ordered gives up exactly if it has no more attempts than that,
and then leaves the rest of them for later calls. Any other call does what it would have done without
them. -/
theorem Call.perform_failNext (attempts count : Nat) (b : Backend) (c : Call) :
    c.perform attempts (b.failNext count) =
      if max attempts 1 ≤ count then
        (.error (.exhausted (max attempts 1) Backend.refusal), b.failNext (count - max attempts 1))
      else c.perform attempts b.reachable := by
  rw [c.perform_eq attempts b.reachable, if_neg (b.not_refused_reachable attempts), c.perform_eq]
  rfl

/-- Two failures are ordered once a value is stored. A call with two attempts gives up and the value
stays; one with three gets through at its third and replaces the value. -/
theorem calls_after_failNext :
    let b := run {} [.call 1 (.set "k" (.bool true)), .failNext 2]
    let replace := Call.set "k" .null
    replace.perform 2 b = (.error (.exhausted 2 Backend.refusal), ⟨[("k", "jtrue")], 0⟩) ∧
      replace.perform 3 b = (.ok none, ⟨[("k", "jnull")], 0⟩) :=
  ⟨rfl, rfl⟩

end TreeQuery.Store
