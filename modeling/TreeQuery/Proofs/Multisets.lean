import Mathlib.Data.List.Basic
import TreeQuery.Operation

/-!
# Arrays as multisets

The quotient of two arrays is their intersection as multisets, and the remainder their symmetric
difference (`divide_modulo_multisets`). Both are read off one greedy pairing: each element on the
left takes the first equal one on the right that is still free.

What a pairing does to the free elements on the right is said once for a single element
(`claim?_some`, `claim?_none`). Of a whole pairing follows how many elements with a property it takes
on the left and leaves on the right (`countP_pairUp`); that it takes as many as both sides have to
offer (`countP_taken`) needs the property to be that of a class of equal elements.
-/

set_option autoImplicit false

namespace TreeQuery.Operation

/-! ## Marks -/

theorem marked_cons (mark : Bool) (v : Value) (taken : Bool) (rest : List (Value × Bool)) :
    marked mark ((v, taken) :: rest) =
      if taken = mark then v :: marked mark rest else marked mark rest := by
  cases taken <;> cases mark <;> rfl

theorem marked_sublist (mark : Bool) (elements : List (Value × Bool)) :
    (marked mark elements).Sublist (elements.map Prod.fst) :=
  List.filter_sublist.map Prod.fst

theorem countP_marked (p : Value → Bool) (elements : List (Value × Bool)) :
    (marked true elements).countP p + (marked false elements).countP p =
      (elements.map Prod.fst).countP p := by
  induction elements with
  | nil => rfl
  | cons e rest ih =>
      obtain ⟨v, taken⟩ := e
      cases taken <;> simp only [marked_cons, List.map_cons, List.countP_cons, if_true,
        Bool.true_eq_false, Bool.false_eq_true, if_false] <;> omega

theorem marked_unmarked (items : List Value) : marked false (items.map (·, false)) = items := by
  induction items with
  | nil => rfl
  | cons v rest ih => simp [marked_cons, ih]

/-! ## One element -/

theorem map_fst_claim? {v : Value} {right claimed : List (Value × Bool)}
    (found : claim? v right = some claimed) : claimed.map Prod.fst = right.map Prod.fst := by
  induction right generalizing claimed with
  | nil => cases found
  | cons e rest ih =>
      obtain ⟨w, taken⟩ := e
      rw [claim?] at found
      split at found
      · cases found
        rfl
      · obtain ⟨later, below, rfl⟩ := Option.map_eq_some_iff.mp found
        rw [List.map_cons, List.map_cons, ih below]

/-- What is taken was free and is equal; everything else stays as it was. -/
theorem claim?_some {v : Value} {right claimed : List (Value × Bool)}
    (found : claim? v right = some claimed) :
    ∃ before w after, looseEq v w = true ∧ marked false right = before ++ w :: after ∧
      marked false claimed = before ++ after := by
  induction right generalizing claimed with
  | nil => cases found
  | cons e rest ih =>
      obtain ⟨w, taken⟩ := e
      rw [claim?] at found
      split at found
      · rename_i free
        rw [Bool.and_eq_true, Bool.not_eq_true'] at free
        cases found
        exact ⟨[], w, marked false rest, free.2, by rw [marked_cons, if_pos free.1]; rfl, rfl⟩
      · obtain ⟨later, below, rfl⟩ := Option.map_eq_some_iff.mp found
        obtain ⟨before, u, after, equal, here, left⟩ := ih below
        cases taken with
        | true => exact ⟨before, u, after, equal, here, left⟩
        | false =>
            refine ⟨w :: before, u, after, equal, ?_, ?_⟩
            · rw [marked_cons, if_pos rfl, here, List.cons_append]
            · rw [marked_cons, if_pos rfl, left, List.cons_append]

theorem mem_of_claim? {v x : Value} {right claimed : List (Value × Bool)}
    (found : claim? v right = some claimed) (free : x ∈ marked false claimed) :
    x ∈ marked false right := by
  obtain ⟨before, w, after, _, here, left⟩ := claim?_some found
  rw [left] at free
  rw [here]
  exact ((List.sublist_cons_self w after).append_left before).subset free

/-- Where nothing is taken, nothing equal is free. -/
theorem claim?_none {v : Value} {right : List (Value × Bool)} (missed : claim? v right = none) :
    ∀ w ∈ marked false right, looseEq v w = false := by
  induction right with
  | nil => nofun
  | cons e rest ih =>
      obtain ⟨w, taken⟩ := e
      rw [claim?] at missed
      split at missed
      · cases missed
      · rename_i kept
        have later := ih (Option.map_eq_none_iff.mp missed)
        cases taken with
        | true => exact later
        | false =>
            rw [marked_cons, if_pos rfl]
            exact List.forall_mem_cons.mpr ⟨by simpa using kept, later⟩

/-! ## The pairing -/

theorem pairUp_cons (v : Value) (rest : List Value) (right : List (Value × Bool)) :
    pairUp (v :: rest) right = match claim? v right with
      | some claimed => ((v, true) :: (pairUp rest claimed).1, (pairUp rest claimed).2)
      | none => ((v, false) :: (pairUp rest right).1, (pairUp rest right).2) := by
  rw [pairUp]
  cases claim? v right <;> rfl

/-- A pairing only sets marks. -/
theorem map_fst_pairUp (items : List Value) (right : List (Value × Bool)) :
    (pairUp items right).1.map Prod.fst = items ∧
      (pairUp items right).2.map Prod.fst = right.map Prod.fst := by
  induction items generalizing right with
  | nil => exact ⟨rfl, rfl⟩
  | cons v rest ih =>
      rw [pairUp_cons]
      cases found : claim? v right with
      | none => exact ⟨congrArg (v :: ·) (ih right).1, (ih right).2⟩
      | some claimed =>
          exact ⟨congrArg (v :: ·) (ih claimed).1, (ih claimed).2.trans (map_fst_claim? found)⟩

section Counting

variable {p : Value → Bool}

/-- What is taken on the left is what is gone from the right, as far as a property does not tell
partners apart. -/
theorem countP_pairUp {items : List Value} {right : List (Value × Bool)}
    (partners : ∀ v ∈ items, ∀ w ∈ marked false right, looseEq v w = true → p v = p w) :
    (marked true (pairUp items right).1).countP p + (marked false (pairUp items right).2).countP p =
      (marked false right).countP p := by
  induction items generalizing right with
  | nil => exact Nat.zero_add _
  | cons v rest ih =>
      rw [pairUp_cons]
      have here := partners v (List.mem_cons_self ..)
      have later := fun u (among : u ∈ rest) => partners u (List.mem_cons_of_mem _ among)
      cases found : claim? v right with
      | none => simpa only [marked_cons, Bool.false_eq_true, if_false] using ih later
      | some claimed =>
          obtain ⟨before, w, after, equal, free, left⟩ := claim?_some found
          have same : p v = p w := here w (by simp [free]) equal
          have counted := ih fun u among x still => later u among x (mem_of_claim? found still)
          rw [left, List.countP_append] at counted
          simp only [marked_cons, if_true, free, List.countP_append, List.countP_cons, same]
          omega

/-- **Of a class of equal elements a pairing takes as many as both sides have.** -/
theorem countP_taken {items : List Value} {right : List (Value × Bool)}
    (partners : ∀ v ∈ items, ∀ w ∈ marked false right, looseEq v w = true → p v = p w)
    (meet : ∀ v ∈ items, ∀ w ∈ marked false right, p v = true → p w = true → looseEq v w = true) :
    (marked true (pairUp items right).1).countP p =
      min (items.countP p) ((marked false right).countP p) := by
  induction items generalizing right with
  | nil => simp [pairUp, marked]
  | cons v rest ih =>
      rw [pairUp_cons]
      have later := fun u (among : u ∈ rest) => partners u (List.mem_cons_of_mem _ among)
      have laterMeet := fun u (among : u ∈ rest) => meet u (List.mem_cons_of_mem _ among)
      cases found : claim? v right with
      | none =>
          have taken := ih later laterMeet
          have missed : p v = true → (marked false right).countP p = 0 := fun inside =>
            List.countP_eq_zero.mpr fun w free insideToo => by
              have equal := meet v (List.mem_cons_self ..) w free inside insideToo
              rw [claim?_none found w free] at equal
              cases equal
          simp only [marked_cons, Bool.false_eq_true, if_false, List.countP_cons, taken]
          cases inside : p v with
          | true => simp [missed inside]
          | false => simp
      | some claimed =>
          obtain ⟨before, w, after, equal, free, left⟩ := claim?_some found
          have same : p v = p w := partners v (List.mem_cons_self ..) w (by simp [free]) equal
          have taken := ih (fun u among x still => later u among x (mem_of_claim? found still))
            fun u among x still => laterMeet u among x (mem_of_claim? found still)
          rw [left, List.countP_append] at taken
          simp only [marked_cons, if_true, free, List.countP_append, List.countP_cons, same, taken]
          omega

end Counting

/-! ## Quotient and remainder -/

/-- The left side with its marks, which are set on the quotient, and what is left of the right. -/
theorem quotient_remainder (a b : List Value) :
    ∃ elements rest, elements.map Prod.fst = a ∧ intersection a b = marked true elements ∧
      rest.Sublist b ∧ symmetricDifference a b = marked false elements ++ rest := by
  have same := map_fst_pairUp a (b.map (·, false))
  have within := marked_sublist false (paired a b).2
  have right : (paired a b).2.map Prod.fst = b := same.2.trans (by simp [Function.comp_def])
  rw [right] at within
  exact ⟨(paired a b).1, _, same.1, rfl, within, rfl⟩

theorem length_quotient_remainder (a b : List Value) :
    2 * (intersection a b).length + (symmetricDifference a b).length = a.length + b.length := by
  have left := countP_marked (fun _ => true) (pairUp a (b.map (·, false))).1
  have taken := @countP_pairUp (fun _ => true) a (b.map (·, false)) fun _ _ _ _ _ => rfl
  rw [(map_fst_pairUp ..).1] at left
  rw [marked_unmarked] at taken
  simp only [List.countP_true] at left taken
  simp only [intersection, symmetricDifference, paired, List.length_append]
  omega

/-- Of a class of equal elements the quotient has as many as both sides, and the remainder what one
side has more than the other. -/
theorem countP_quotient_remainder {a b : List Value} {p : Value → Bool}
    (partners : ∀ v ∈ a, ∀ w ∈ b, looseEq v w = true → p v = p w)
    (meet : ∀ v ∈ a, ∀ w ∈ b, p v = true → p w = true → looseEq v w = true) :
    (intersection a b).countP p = min (a.countP p) (b.countP p) ∧
      (symmetricDifference a b).countP p =
        (a.countP p - b.countP p) + (b.countP p - a.countP p) := by
  have free := marked_unmarked b
  have left := countP_marked p (pairUp a (b.map (·, false))).1
  have gone := @countP_pairUp p a (b.map (·, false)) (by rwa [free])
  have taken := @countP_taken p a (b.map (·, false)) (by rwa [free]) (by rwa [free])
  rw [(map_fst_pairUp ..).1] at left
  rw [free] at gone taken
  simp only [intersection, symmetricDifference, paired, List.countP_append]
  omega

/-- **The quotient of arrays is their intersection as multisets, and the remainder their symmetric
difference.** Both come out whatever the elements are. The quotient has elements of the left array in
order; the remainder has the others, and then elements of the right array in order; together they
account for all elements. Where equality is an equivalence of the elements, the quotient has an
element as often as both arrays have it, and the remainder as often as one has it more than the
other. -/
theorem divide_modulo_multisets (a b : List Value) :
    ∃ quotient remainder, binary .divide (.array a) (.array b) = .ok (.array quotient) ∧
      binary .modulo (.array a) (.array b) = .ok (.array remainder) ∧
      quotient.Sublist a ∧
      (∃ elements rest, elements.map Prod.fst = a ∧ quotient = marked true elements ∧
        rest.Sublist b ∧ remainder = marked false elements ++ rest) ∧
      2 * quotient.length + remainder.length = a.length + b.length ∧
      ((Equivalence fun v w : {v // v ∈ a ++ b} => looseEq v w = true) → ∀ x ∈ a ++ b,
        quotient.countP (looseEq x) = min (a.countP (looseEq x)) (b.countP (looseEq x)) ∧
          remainder.countP (looseEq x) =
            ((a.countP (looseEq x) : Int) - b.countP (looseEq x)).natAbs) := by
  have parts := quotient_remainder a b
  have within : (intersection a b).Sublist a := by
    obtain ⟨elements, _, same, quotient, _, _⟩ := parts
    rw [quotient, ← same]
    exact marked_sublist true elements
  refine ⟨intersection a b, symmetricDifference a b, rfl, rfl, within, parts,
    length_quotient_remainder a b, fun equivalence x amongX => ?_⟩
  have left : ∀ v ∈ a, v ∈ a ++ b := fun v => List.mem_append_left b
  have right : ∀ w ∈ b, w ∈ a ++ b := fun w => List.mem_append_right a
  have turn : ∀ {v w}, v ∈ a ++ b → w ∈ a ++ b → looseEq v w = true → looseEq w v = true :=
    fun {v w} amongV amongW => equivalence.symm (x := ⟨v, amongV⟩) (y := ⟨w, amongW⟩)
  have join : ∀ {u v w}, u ∈ a ++ b → v ∈ a ++ b → w ∈ a ++ b → looseEq u v = true →
      looseEq v w = true → looseEq u w = true := fun {u v w} amongU amongV amongW =>
    equivalence.trans (x := ⟨u, amongU⟩) (y := ⟨v, amongV⟩) (z := ⟨w, amongW⟩)
  have counts := countP_quotient_remainder (p := looseEq x) (a := a) (b := b)
    (fun v amongV w amongW equal => Bool.eq_iff_iff.mpr
      ⟨fun toV => join amongX (left v amongV) (right w amongW) toV equal,
        fun toW => join amongX (right w amongW) (left v amongV) toW
          (turn (left v amongV) (right w amongW) equal)⟩)
    (fun v amongV w amongW toV toW =>
      join (left v amongV) amongX (right w amongW) (turn amongX (left v amongV) toV) toW)
  refine ⟨counts.1, counts.2.trans ?_⟩
  omega

/-- Values of several kinds, some of them nested and some repeated. -/
theorem divide_modulo_multisets_mixed :
    let a : List Value := [.null, .array [.text "t"], .null, .bool true, .null]
    let b : List Value := [.text "t", .null, .array [.text "t"], .null, .array [.text "t"]]
    (Equivalence fun v w : {v // v ∈ a ++ b} => looseEq v w = true) ∧
      binary .divide (.array a) (.array b) = .ok (.array [.null, .array [.text "t"], .null]) ∧
      binary .modulo (.array a) (.array b) =
        .ok (.array [.bool true, .null, .text "t", .array [.text "t"]]) ∧
      ([.null, .array [.text "t"], .null] : List Value).countP (looseEq .null) = min 3 2 := by
  intro a b
  have reflexive : ∀ v ∈ a ++ b, looseEq v v = true := by decide
  have symmetric : ∀ v ∈ a ++ b, ∀ w ∈ a ++ b, looseEq v w = true → looseEq w v = true := by decide
  have transitive : ∀ u ∈ a ++ b, ∀ v ∈ a ++ b, ∀ w ∈ a ++ b, looseEq u v = true →
      looseEq v w = true → looseEq u w = true := by decide
  have equivalence : Equivalence fun v w : {v // v ∈ a ++ b} => looseEq v w = true :=
    ⟨fun v => reflexive v v.2, fun {v w} => symmetric v v.2 w w.2,
      fun {u v w} => transitive u u.2 v v.2 w w.2⟩
  obtain ⟨quotient, remainder, divided, left, -, -, -, counts⟩ := divide_modulo_multisets a b
  have quotientIs : binary .divide (.array a) (.array b) =
      .ok (.array [.null, .array [.text "t"], .null]) := by rfl
  have remainderIs : binary .modulo (.array a) (.array b) =
      .ok (.array [.bool true, .null, .text "t", .array [.text "t"]]) := by rfl
  rw [quotientIs, Except.ok.injEq, Value.array.injEq] at divided
  subst divided
  exact ⟨equivalence, quotientIs, remainderIs, (counts equivalence .null (by simp [a])).1⟩

end TreeQuery.Operation
