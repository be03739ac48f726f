/-
This file is about loops whose body can fail: a `for` loop over the numbers from a start
to a stop, and a `while` loop that is given a number of rounds.

A `for` loop has one rule: what holds at the start, and what each round carries from its
number to the next, holds at the stop. A `while` loop has one too, with a measure that each
round makes smaller; the rounds it is given are enough when they are more than the measure.

It is also about loops that wait, which end in the first round whose state is ready: if from
every state some number of rounds makes it ready or leaves less to wait for, it becomes ready.
-/

import Mathlib.Data.List.Range
import Mathlib.Logic.Function.Iterate
import Mathlib.Tactic

namespace Frobio.Loop

variable {State : Type}

def forLoop (body : State → Nat → Option State) (start stop : Nat) (state : State) : Option State :=
  (List.range' start (stop - start)).foldlM body state

/-- `none` also if the rounds do not suffice. -/
def whileLoop (condition : State → Bool) (body : State → Option State) :
    Nat → State → Option State
  | 0, state => if condition state then none else some state
  | rounds + 1, state =>
    if condition state then (body state).bind (whileLoop condition body rounds) else some state

theorem forLoop_invariant {body : State → Nat → Option State} (invariant : Nat → State → Prop)
    {start stop : Nat} (ordered : start ≤ stop)
    (round : ∀ i state, start ≤ i → i < stop → invariant i state →
      ∃ next, body state i = some next ∧ invariant (i + 1) next)
    {state : State} (first : invariant start state) :
    ∃ final, forLoop body start stop state = some final ∧ invariant stop final := by
  unfold forLoop
  induction count : stop - start generalizing start state with
  | zero =>
    have same : stop = start := by omega
    exact ⟨state, rfl, same ▸ first⟩
  | succ count inductionHypothesis =>
    obtain ⟨next, done, onward⟩ := round start state le_rfl (by omega) first
    obtain ⟨final, reached, last⟩ := inductionHypothesis (by omega)
      (fun i state after before => round i state (by omega) before) onward (by omega)
    refine ⟨final, ?_, last⟩
    rw [List.range'_succ, List.foldlM_cons, done]
    exact reached

theorem whileLoop_of_not {condition : State → Bool} {body : State → Option State} {state : State}
    (rounds : Nat) (ends : condition state = false) :
    whileLoop condition body rounds state = some state := by
  cases rounds with
  | zero =>
    rw [whileLoop, ends]
    exact if_neg Bool.false_ne_true
  | succ rounds =>
    rw [whileLoop, ends]
    exact if_neg Bool.false_ne_true

theorem whileLoop_invariant {condition : State → Bool} {body : State → Option State}
    (invariant : State → Prop) (measure : State → Nat)
    (round : ∀ state, condition state = true → invariant state →
      ∃ next, body state = some next ∧ invariant next ∧ measure next < measure state)
    {state : State} (first : invariant state) {rounds : Nat} (enough : measure state ≤ rounds) :
    ∃ final, whileLoop condition body rounds state = some final ∧ invariant final ∧
      condition final = false := by
  induction rounds generalizing state with
  | zero =>
    cases goes : condition state with
    | false => exact ⟨state, whileLoop_of_not 0 goes, first, goes⟩
    | true =>
      obtain ⟨next, -, -, less⟩ := round state goes first
      omega
  | succ rounds inductionHypothesis =>
    cases goes : condition state with
    | false => exact ⟨state, whileLoop_of_not _ goes, first, goes⟩
    | true =>
      obtain ⟨next, done, kept, less⟩ := round state goes first
      obtain ⟨final, reached, last⟩ := inductionHypothesis kept (by omega)
      refine ⟨final, ?_, last⟩
      rw [whileLoop, goes, if_pos rfl, done]
      exact reached

/-- The same, of a `while` loop that is known to end. -/
theorem invariant_of_whileLoop {condition : State → Bool} {body : State → Option State}
    (invariant : State → Prop)
    (round : ∀ state next, condition state = true → invariant state → body state = some next →
      invariant next)
    {state final : State} (first : invariant state) {rounds : Nat}
    (reached : whileLoop condition body rounds state = some final) : invariant final := by
  induction rounds generalizing state with
  | zero =>
    rw [whileLoop] at reached
    split at reached
    · cases reached
    · exact Option.some.inj reached ▸ first
  | succ rounds inductionHypothesis =>
    rw [whileLoop] at reached
    split at reached
    · next goes =>
      obtain ⟨next, done, onward⟩ := Option.bind_eq_some_iff.mp reached
      exact inductionHypothesis (round state next goes first done) onward
    · exact Option.some.inj reached ▸ first

/-- More rounds do not change where a `while` loop ends. -/
theorem whileLoop_add {condition : State → Bool} {body : State → Option State}
    {state final : State} {rounds : Nat}
    (reached : whileLoop condition body rounds state = some final) (more : Nat) :
    whileLoop condition body (rounds + more) state = some final := by
  induction rounds generalizing state with
  | zero =>
    rw [whileLoop] at reached
    split at reached
    · cases reached
    · next stops =>
      rw [← Option.some.inj reached]
      exact whileLoop_of_not _ (Bool.eq_false_iff.mpr stops)
  | succ rounds inductionHypothesis =>
    rw [whileLoop] at reached
    rw [Nat.succ_add, whileLoop]
    split at reached
    · next goes =>
      obtain ⟨next, done, onward⟩ := Option.bind_eq_some_iff.mp reached
      rw [if_pos goes, done]
      exact inductionHypothesis onward
    · next stops =>
      rw [if_neg stops]
      exact reached

/-! ### Waiting -/

theorem iterate_of_kept {round : State → State} {good : State → Prop}
    (kept : ∀ state, good state → good (round state)) {state : State} (start : good state)
    (count : Nat) : good (round^[count] state) := by
  induction count with
  | zero => exact start
  | succ count inductionHypothesis =>
    rw [Function.iterate_succ_apply']
    exact kept _ inductionHypothesis

theorem exists_ready_of_progress (round : State → State) (good ready : State → Prop)
    (left : State → Nat) (kept : ∀ state, good state → good (round state))
    (progress : ∀ state, good state →
      ∃ count, ready (round^[count + 1] state) ∨ left (round^[count + 1] state) < left state)
    {state : State} (start : good state) : ∃ count, ready (round^[count + 1] state) := by
  induction bound : left state using Nat.strong_induction_on generalizing state with
  | _ bound inductionHypothesis =>
    obtain ⟨count, done | less⟩ := progress state start
    · exact ⟨count, done⟩
    · obtain ⟨more, done⟩ := inductionHypothesis _ (bound ▸ less)
        (iterate_of_kept kept start (count + 1)) rfl
      refine ⟨more + (count + 1), ?_⟩
      rw [show more + (count + 1) + 1 = (more + 1) + (count + 1) by omega,
        Function.iterate_add_apply]
      exact done

end Frobio.Loop
