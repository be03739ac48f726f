/-
This file is about the runs of a machine that is given by a partial step
function: a state and an action have a next state, or the action cannot be taken.

A run is a list of actions. `Meets` says that a condition, read on the state
before each step, holds all along a run, and `invariant_of_run` is the one
induction the developments on top of this file share: what the first state has,
and what every step that meets the condition preserves, holds at the end of every
run that meets the condition. Every prefix of a run is a run, so that is a
statement about every state the run goes through.
-/

import Mathlib.Data.List.Basic

namespace Frobio.Run

variable {State Action : Type}

/-- Take the actions in turn. The run is stuck at the first action that cannot be taken. -/
def run (step : State → Action → Option State) : State → List Action → Option State
  | state, [] => some state
  | state, action :: rest => (step state action).bind fun next => run step next rest

/-- The condition holds of every action of the run, in the state the action is taken in. -/
def Meets (step : State → Action → Option State) (condition : State → Action → Prop) :
    State → List Action → Prop
  | _, [] => True
  | state, action :: rest =>
    condition state action ∧
      ∀ next, step state action = some next → Meets step condition next rest

section

variable {step : State → Action → Option State} {condition : State → Action → Prop}

@[simp] theorem run_nil (state : State) : run step state [] = some state := rfl

@[simp] theorem meets_nil (state : State) : Meets step condition state [] := trivial

theorem meets_cons_of_stuck {state : State} {action : Action} {rest : List Action}
    (stuck : step state action = none) :
    Meets step condition state (action :: rest) ↔ condition state action := by
  constructor
  · exact fun meets => meets.1
  · intro holds
    refine ⟨holds, fun next taken => ?_⟩
    rw [stuck] at taken
    cases taken

theorem meets_cons_of_taken {state next : State} {action : Action} {rest : List Action}
    (taken : step state action = some next) :
    Meets step condition state (action :: rest) ↔
      condition state action ∧ Meets step condition next rest := by
  constructor
  · exact fun meets => ⟨meets.1, meets.2 next taken⟩
  · rintro ⟨holds, onward⟩
    refine ⟨holds, fun other also => ?_⟩
    rw [taken, Option.some_inj] at also
    exact also ▸ onward

/-- A condition that can be decided at each step can be decided along a run. -/
instance decidableMeets [∀ state action, Decidable (condition state action)] :
    ∀ (state : State) (actions : List Action), Decidable (Meets step condition state actions)
  | _, [] => .isTrue trivial
  | state, action :: rest =>
    match outcome : step state action with
    | none => decidable_of_iff (condition state action) (meets_cons_of_stuck outcome).symm
    | some next =>
      have := decidableMeets next rest
      decidable_of_iff (condition state action ∧ Meets step condition next rest)
        (meets_cons_of_taken outcome).symm

theorem run_cons_eq_some {state final : State} {action : Action} {rest : List Action} :
    run step state (action :: rest) = some final ↔
      ∃ next, step state action = some next ∧ run step next rest = some final :=
  Option.bind_eq_some_iff

/-- A run that meets the condition may begin one action earlier. -/
theorem meets_run_cons {state next final : State} {action : Action} {rest : List Action}
    (taken : step state action = some next) (holds : condition state action)
    (onward : Meets step condition next rest ∧ run step next rest = some final) :
    Meets step condition state (action :: rest) ∧ run step state (action :: rest) = some final :=
  ⟨(meets_cons_of_taken taken).mpr ⟨holds, onward.1⟩, run_cons_eq_some.mpr ⟨next, taken, onward.2⟩⟩

theorem meets_true (state : State) (actions : List Action) :
    Meets step (fun _ _ => True) state actions := by
  induction actions generalizing state with
  | nil => trivial
  | cons action rest inductionHypothesis =>
    exact ⟨trivial, fun next _ => inductionHypothesis next⟩

/-- A run splits at any point. -/
theorem run_append {state final : State} {first second : List Action} :
    run step state (first ++ second) = some final ↔
      ∃ middle, run step state first = some middle ∧ run step middle second = some final := by
  induction first generalizing state with
  | nil => simp
  | cons action rest inductionHypothesis =>
    rw [List.cons_append, run_cons_eq_some]
    constructor
    · rintro ⟨next, taken, reached⟩
      obtain ⟨middle, before, after⟩ := inductionHypothesis.mp reached
      exact ⟨middle, run_cons_eq_some.mpr ⟨next, taken, before⟩, after⟩
    · rintro ⟨middle, before, after⟩
      obtain ⟨next, taken, reached⟩ := run_cons_eq_some.mp before
      exact ⟨next, taken, inductionHypothesis.mpr ⟨middle, reached, after⟩⟩

/-- A run goes on from where its first part ended. -/
theorem run_append_of_reached {state middle : State} {first : List Action}
    (reached : run step state first = some middle) (second : List Action) :
    run step state (first ++ second) = run step middle second := by
  induction first generalizing state with
  | nil =>
    rw [run_nil, Option.some_inj] at reached
    rw [List.nil_append, reached]
  | cons action rest inductionHypothesis =>
    obtain ⟨next, taken, onward⟩ := run_cons_eq_some.mp reached
    rw [List.cons_append, run, taken, Option.bind_some]
    exact inductionHypothesis onward

/-- What holds at the start, and is preserved by every step that meets the condition, holds at
the end of every run that meets it. -/
theorem invariant_of_run (invariant : State → Prop)
    (preserved : ∀ state action next, invariant state → condition state action →
      step state action = some next → invariant next)
    {state final : State} {actions : List Action} (start : invariant state)
    (meets : Meets step condition state actions) (reached : run step state actions = some final) :
    invariant final := by
  induction actions generalizing state with
  | nil =>
    rw [run_nil, Option.some_inj] at reached
    exact reached ▸ start
  | cons action rest inductionHypothesis =>
    obtain ⟨next, taken, onward⟩ := run_cons_eq_some.mp reached
    exact inductionHypothesis (preserved state action next start meets.1 taken)
      (meets.2 next taken) onward

/-- The run that meets the condition so far meets it at the next action as well. -/
theorem meets_append {state : State} {first second : List Action} :
    Meets step condition state (first ++ second) ↔
      Meets step condition state first ∧
        ∀ middle, run step state first = some middle → Meets step condition middle second := by
  induction first generalizing state with
  | nil => simp
  | cons action rest inductionHypothesis =>
    rw [List.cons_append]
    constructor
    · rintro ⟨here, later⟩
      refine ⟨⟨here, fun next taken => (inductionHypothesis.mp (later next taken)).1⟩, ?_⟩
      intro middle reached
      obtain ⟨next, taken, onward⟩ := run_cons_eq_some.mp reached
      exact (inductionHypothesis.mp (later next taken)).2 middle onward
    · rintro ⟨⟨here, later⟩, after⟩
      refine ⟨here, fun next taken => inductionHypothesis.mpr ⟨later next taken, ?_⟩⟩
      intro middle reached
      exact after middle (run_cons_eq_some.mpr ⟨next, taken, reached⟩)

/-- A run meets the condition if each of its actions does, in the state reached before it. -/
theorem meets_iff_forall_split {state : State} {actions : List Action} :
    Meets step condition state actions ↔
      ∀ before action after middle, actions = before ++ action :: after →
        run step state before = some middle → condition middle action := by
  constructor
  · rintro meets before action after middle rfl reached
    exact ((meets_append.mp meets).2 middle reached).1
  · intro each
    induction actions generalizing state with
    | nil => trivial
    | cons action rest inductionHypothesis =>
      refine ⟨each [] action rest state rfl rfl, fun next taken => inductionHypothesis ?_⟩
      rintro before later after middle rfl reached
      exact each (action :: before) later after middle rfl
        (run_cons_eq_some.mpr ⟨next, taken, reached⟩)

/-- Where a step can be taken just when it meets the condition, a run can be. -/
theorem exists_run_iff_meets (invariant : State → Prop)
    (preserved : ∀ state action next, invariant state → step state action = some next →
      invariant next)
    (taken : ∀ state action, invariant state →
      ((∃ next, step state action = some next) ↔ condition state action))
    {state : State} {actions : List Action} (start : invariant state) :
    (∃ final, run step state actions = some final) ↔ Meets step condition state actions := by
  induction actions generalizing state with
  | nil => exact iff_of_true ⟨state, rfl⟩ trivial
  | cons action rest inductionHypothesis =>
    constructor
    · rintro ⟨final, reached⟩
      obtain ⟨next, there, onward⟩ := run_cons_eq_some.mp reached
      rw [meets_cons_of_taken there]
      exact ⟨(taken state action start).mp ⟨next, there⟩,
        (inductionHypothesis (preserved state action next start there)).mp ⟨final, onward⟩⟩
    · rintro ⟨holds, onward⟩
      obtain ⟨next, there⟩ := (taken state action start).mpr holds
      obtain ⟨final, reached⟩ :=
        (inductionHypothesis (preserved state action next start there)).mpr (onward next there)
      exact ⟨final, run_cons_eq_some.mpr ⟨next, there, reached⟩⟩

/-- Where a step is sound just when it meets the condition, all states of a run are sound just when
the run meets it. -/
theorem forall_reached_iff_meets (sound : State → Prop) (allowed : Action → Prop)
    (exact : ∀ state action next, sound state → allowed action → step state action = some next →
      (sound next ↔ condition state action))
    (stuck : ∀ state action, sound state → allowed action → step state action = none →
      condition state action)
    {state : State} {actions : List Action} (start : sound state)
    (each : ∀ action ∈ actions, allowed action) :
    (∀ first, first <+: actions → ∀ final, run step state first = some final → sound final) ↔
      Meets step condition state actions := by
  induction actions generalizing state with
  | nil =>
    refine iff_of_true (fun first before final reached => ?_) trivial
    obtain rfl := List.prefix_nil.mp before
    rw [run_nil, Option.some_inj] at reached
    exact reached ▸ start
  | cons action rest inductionHypothesis =>
    rw [List.forall_mem_cons] at each
    cases taken : step state action with
    | none =>
      rw [meets_cons_of_stuck taken]
      refine iff_of_true (fun first before final reached => ?_) (stuck state action start each.1 taken)
      rcases List.prefix_cons_iff.mp before with rfl | ⟨later, rfl, -⟩
      · rw [run_nil, Option.some_inj] at reached
        exact reached ▸ start
      · obtain ⟨next, there, -⟩ := run_cons_eq_some.mp reached
        rw [taken] at there
        cases there
    | some next =>
      rw [meets_cons_of_taken taken, ← exact state action next start each.1 taken]
      constructor
      · intro all
        have here : sound next := all [action] (List.cons_prefix_cons.mpr ⟨rfl, List.nil_prefix⟩) next
          (run_cons_eq_some.mpr ⟨next, taken, rfl⟩)
        refine ⟨here, (inductionHypothesis here each.2).mp fun first before final reached => ?_⟩
        exact all (action :: first) (List.cons_prefix_cons.mpr ⟨rfl, before⟩) final
          (run_cons_eq_some.mpr ⟨next, taken, reached⟩)
      · rintro ⟨here, later⟩ first before final reached
        rcases List.prefix_cons_iff.mp before with rfl | ⟨more, rfl, within⟩
        · rw [run_nil, Option.some_inj] at reached
          exact reached ▸ start
        · obtain ⟨next', there, onward⟩ := run_cons_eq_some.mp reached
          rw [taken, Option.some_inj] at there
          subst there
          exact (inductionHypothesis here each.2).mpr later more within final onward

/-- If a step that does not meet the condition leads where no step leads out of, a run meets the
condition or ends there. -/
theorem meets_or_spoiled_of_run (sound spoiled : State → Prop)
    (kept : ∀ state action next, sound state → condition state action →
      step state action = some next → sound next)
    (spoils : ∀ state action next, sound state → ¬condition state action →
      step state action = some next → spoiled next)
    (stays : ∀ state action next, spoiled state → step state action = some next → spoiled next)
    {state final : State} {actions : List Action} (start : sound state)
    (reached : run step state actions = some final) :
    (Meets step condition state actions ∧ sound final) ∨
      (¬Meets step condition state actions ∧ spoiled final) := by
  induction actions generalizing state with
  | nil =>
    rw [run_nil, Option.some_inj] at reached
    exact .inl ⟨trivial, reached ▸ start⟩
  | cons action rest inductionHypothesis =>
    obtain ⟨next, taken, onward⟩ := run_cons_eq_some.mp reached
    rw [meets_cons_of_taken taken]
    by_cases holds : condition state action
    · rcases inductionHypothesis (kept state action next start holds taken) onward with
        ⟨meets, last⟩ | ⟨not, last⟩
      · exact .inl ⟨⟨holds, meets⟩, last⟩
      · exact .inr ⟨fun both => not both.2, last⟩
    · refine .inr ⟨fun both => holds both.1, ?_⟩
      have there : spoiled next := spoils state action next start holds taken
      have always : Meets step (fun _ _ => True) next rest := meets_true next rest
      exact invariant_of_run spoiled (fun state action next before _ => stays state action next before)
        there always onward

/-- A run is simulated by the run of some of its actions, if the actions kept are, and the others
do not show. -/
theorem run_filter_simulates (keeps : Action → Bool) (related : State → State → Prop)
    (kept : ∀ state shadow action next, related state shadow → condition state action →
      step state action = some next → keeps action = true →
        ∃ next', step shadow action = some next' ∧ related next next')
    (skipped : ∀ state shadow action next, related state shadow → condition state action →
      step state action = some next → keeps action = false → related next shadow)
    {state shadow final : State} {actions : List Action} (start : related state shadow)
    (meets : Meets step condition state actions) (reached : run step state actions = some final) :
    ∃ final', run step shadow (actions.filter keeps) = some final' ∧ related final final' := by
  induction actions generalizing state shadow with
  | nil =>
    rw [run_nil, Option.some_inj] at reached
    exact ⟨shadow, rfl, reached ▸ start⟩
  | cons action rest inductionHypothesis =>
    obtain ⟨next, taken, onward⟩ := run_cons_eq_some.mp reached
    have meets' := meets.2 next taken
    cases keep : keeps action with
    | true =>
      obtain ⟨next', taken', related'⟩ := kept state shadow action next start meets.1 taken keep
      obtain ⟨final', reached', last⟩ := inductionHypothesis related' meets' onward
      refine ⟨final', ?_, last⟩
      rw [List.filter_cons_of_pos keep]
      exact run_cons_eq_some.mpr ⟨next', taken', reached'⟩
    | false =>
      have related' := skipped state shadow action next start meets.1 taken keep
      rw [List.filter_cons_of_neg (by rw [keep]; exact Bool.false_ne_true)]
      exact inductionHypothesis related' meets' onward

/-- A run is also one of a machine that takes every step that this one takes. -/
theorem run_of_less {step' : State → Action → Option State}
    (less : ∀ state action next, step state action = some next →
      step' state action = some next) {state final : State} {actions : List Action}
    (reached : run step state actions = some final) : run step' state actions = some final := by
  induction actions generalizing state with
  | nil => exact reached
  | cons action rest inductionHypothesis =>
    obtain ⟨next, taken, onward⟩ := run_cons_eq_some.mp reached
    exact run_cons_eq_some.mpr ⟨next, less state action next taken, inductionHypothesis onward⟩

theorem meets_of_less {step' : State → Action → Option State}
    (less : ∀ state action next, step state action = some next →
      step' state action = some next) {state : State} {actions : List Action}
    (meets : Meets step' condition state actions) : Meets step condition state actions := by
  induction actions generalizing state with
  | nil => trivial
  | cons action rest inductionHypothesis =>
    exact ⟨meets.1, fun next taken =>
      inductionHypothesis (meets.2 next (less state action next taken))⟩

end

end Frobio.Run
