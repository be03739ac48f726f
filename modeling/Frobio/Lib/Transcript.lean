/-
This file is about machines that answer every input: a state and an input have a
next state and an output.

Two machines are compared by what they answer. `outputs_agree_iff` is the shape of
an exact refinement: if the machines are in related states, an input has answers
that agree just when a condition on the first machine's state holds, and then the
states are related again. So all answers agree just when the condition holds all
along.
-/

import Mathlib.Data.List.Basic
import Mathlib.Tactic

namespace Frobio.Transcript

variable {State State' Input Output Output' : Type}

/-- The state after the inputs. -/
def after (step : State → Input → State × Output) (state : State) (inputs : List Input) : State :=
  inputs.foldl (fun state input => (step state input).1) state

/-- The answers to the inputs. -/
def outputs (step : State → Input → State × Output) : State → List Input → List Output
  | _, [] => []
  | state, input :: rest => (step state input).2 :: outputs step (step state input).1 rest

/-- The condition holds of every input, in the state the input comes in. -/
def Always (step : State → Input → State × Output) (condition : State → Input → Prop) :
    State → List Input → Prop
  | _, [] => True
  | state, input :: rest => condition state input ∧ Always step condition (step state input).1 rest

section

variable {step : State → Input → State × Output}

@[simp] theorem after_cons (state : State) (input : Input) (rest : List Input) :
    after step state (input :: rest) = after step (step state input).1 rest := rfl

/-- What every input preserves holds in the end. -/
theorem invariant_after (invariant : State → Prop)
    (preserved : ∀ state input, invariant state → invariant (step state input).1)
    {state : State} (start : invariant state) (inputs : List Input) :
    invariant (after step state inputs) := by
  induction inputs generalizing state with
  | nil => exact start
  | cons input rest inductionHypothesis => exact inductionHypothesis (preserved state input start)

instance decidableAlways (condition : State → Input → Prop)
    [∀ state input, Decidable (condition state input)] :
    ∀ (state : State) (inputs : List Input), Decidable (Always step condition state inputs)
  | _, [] => .isTrue trivial
  | state, input :: rest =>
    have := decidableAlways (condition) (step state input).1 rest
    inferInstanceAs (Decidable (condition state input ∧ Always step condition _ rest))

/-- Answers agree all along just when the condition holds all along; then the states are related
in the end. -/
theorem outputs_agree_iff (step : State → Input → State × Output)
    (step' : State' → Input → State' × Output') (related : State → State' → Prop) (agrees : Output → Output' → Prop)
    (condition : State → Input → Prop) (allowed : Input → Prop)
    (exact : ∀ state state' input, related state state' → allowed input →
      (agrees (step state input).2 (step' state' input).2 ↔ condition state input))
    (onward : ∀ state state' input, related state state' → allowed input →
      condition state input → related (step state input).1 (step' state' input).1)
    {state : State} {state' : State'} (start : related state state') {inputs : List Input}
    (each : ∀ input ∈ inputs, allowed input) :
    (List.Forall₂ agrees (outputs step state inputs) (outputs step' state' inputs) ↔
      Always step condition state inputs) ∧
    (Always step condition state inputs →
      related (after step state inputs) (after step' state' inputs)) := by
  induction inputs generalizing state state' with
  | nil => exact ⟨⟨fun _ => trivial, fun _ => .nil⟩, fun _ => start⟩
  | cons input rest inductionHypothesis =>
    have here := each input List.mem_cons_self
    have later := fun other member => each other (List.mem_cons_of_mem _ member)
    refine ⟨?_, fun always => ?_⟩
    · rw [outputs, outputs, List.forall₂_cons, Always, exact state state' input start here]
      refine and_congr_right fun holds => ?_
      exact (inductionHypothesis (onward state state' input start here holds) later).1
    · exact (inductionHypothesis (onward state state' input start here always.1) later).2 always.2

/-- If a condition decides which steps are right as long as all was right, then all steps are right
just when all meet the condition. -/
theorem always_iff_always (invariant : State → Prop) (condition : State → Input → Prop)
    (exact : ∀ state input, invariant state →
      (invariant (step state input).1 ↔ condition state input))
    {state : State} (start : invariant state) (inputs : List Input) :
    Always step (fun state input => invariant (step state input).1) state inputs ↔
      Always step condition state inputs := by
  induction inputs generalizing state with
  | nil => exact Iff.rfl
  | cons input rest inductionHypothesis =>
    rw [Always, Always, ← exact state input start]
    exact and_congr_right fun kept => inductionHypothesis kept

/-- If a condition decides what is right as long as an invariant holds, and what is right keeps the
invariant, then all is right just when all meets the condition. -/
theorem always_congr (invariant : State → Prop) {right condition : State → Input → Prop}
    (exact : ∀ state input, invariant state → (right state input ↔ condition state input))
    (kept : ∀ state input, invariant state → right state input → invariant (step state input).1)
    {state : State} (start : invariant state) (inputs : List Input) :
    Always step right state inputs ↔ Always step condition state inputs := by
  induction inputs generalizing state with
  | nil => exact Iff.rfl
  | cons input rest inductionHypothesis =>
    rw [Always, Always, ← exact state input start]
    exact and_congr_right fun here => inductionHypothesis (kept state input start here)

theorem always_true (state : State) (inputs : List Input) :
    Always step (fun _ _ => True) state inputs := by
  induction inputs generalizing state with
  | nil => trivial
  | cons input rest inductionHypothesis => exact ⟨trivial, inductionHypothesis _⟩

end

/-- What a machine that can get stuck answers to the inputs, and its state in the end. -/
def play (step : State → Input → Option (State × Output)) :
    State → List Input → Option (State × List Output)
  | state, [] => some (state, [])
  | state, input :: rest => do
    let (state, output) ← step state input
    let (state, outputs) ← play step state rest
    return (state, output :: outputs)

/-- If each step of a machine gives the answer of another, it gives all of them. -/
theorem play_of_refines {step' : State' → Input → State' × Output}
    {step : State → Input → Option (State × Output)} (related : State → State' → Prop)
    (condition : State' → Input → Prop)
    (refines : ∀ state state' input, related state state' → condition state' input →
      ∃ next, step state input = some (next, (step' state' input).2) ∧
        related next (step' state' input).1)
    {state : State} {state' : State'} (start : related state state') {inputs : List Input}
    (always : Always step' condition state' inputs) :
    ∃ final, play step state inputs = some (final, outputs step' state' inputs) ∧
      related final (after step' state' inputs) := by
  induction inputs generalizing state state' with
  | nil => exact ⟨state, rfl, start⟩
  | cons input rest inductionHypothesis =>
    obtain ⟨next, taken, onward⟩ := refines state state' input start always.1
    obtain ⟨final, plays, last⟩ := inductionHypothesis onward always.2
    refine ⟨final, ?_, last⟩
    rw [play, taken]
    simp only [Option.bind_eq_bind, Option.bind_some, plays]
    rfl

/-! ### Results that can be missing -/

section

variable {α α' β β' γ : Type} {related : α → β → Prop} {related' : α' → β' → Prop} {a : Option α}
  {b : Option β}

/-- What is related to begin with is related in the end, if there is an end. -/
theorem rel_bind (both : Option.Rel related a b) {f : α → Option α'} {g : β → Option β'}
    (onward : ∀ x y, related x y → Option.Rel related' (f x) (g y)) :
    Option.Rel related' (a.bind f) (b.bind g) := by
  cases both with
  | none => exact .none
  | some holds => exact onward _ _ holds

theorem map_eq_of_rel (both : Option.Rel related a b) {f : α → γ} {g : β → γ}
    (same : ∀ x y, related x y → f x = g y) : a.map f = b.map g := by
  cases both with
  | none => rfl
  | some holds => exact congrArg some (same _ _ holds)

end

end Frobio.Transcript
