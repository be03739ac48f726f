/-
This file is about programs that read a text with a moving cursor: they look at the cell under
the cursor, and move it on by one.

`Parses` tells what a program makes of the text before the cursor, and how much of it is left. The
text may have a cell behind it that can be looked at, as a string has its NUL. Where it has none, a
program stops that looks behind the text.
-/

import Mathlib.Data.List.TakeWhile
import Frobio.Lib.Program

namespace Frobio.Cursor

open Program

variable {State Cell Value Other : Type}

/-- The programs that look and move. -/
structure Cursor (State Cell : Type) where
  look : Program State Cell
  move : Program State Unit

/-- The programs do what they should in the states where the cursor is before a text. The last cell
is the one behind the text, if there is one. -/
structure Cursor.Lawful (cursor : Cursor State Cell) (before : State → List Cell → Prop)
    (last : Option Cell) : Prop where
  look_cons : ∀ {state c s}, before state (c :: s) → cursor.look state = (some c, state)
  look_nil : ∀ {state}, before state [] → cursor.look state = (last, state)
  move_cons : ∀ {state c s}, before state (c :: s) →
    ∃ next, cursor.move state = (some (), next) ∧ before next s

/-- The program gives the value for the text and leaves the rest. If it is not total, it may stop
instead. -/
def Parses (before : State → List Cell → Prop) (total : Prop) (m : Program State Value)
    (s : List Cell) (value : Value) (rest : List Cell) : Prop :=
  ∀ state, before state s →
    (∃ next, m state = (some value, next) ∧ before next rest) ∨ (¬total ∧ (m state).1 = none)

/-- Go over the cells that pass a test, and fold them. -/
def scanLoop (cursor : Cursor State Cell) (test : Cell → Bool) (step : Value → Cell → Value) :
    Nat → Value → Program State Value
  | 0, _ => stop
  | rounds + 1, value => do
    let c ← cursor.look
    if test c then
      cursor.move
      scanLoop cursor test step rounds (step value c)
    else pure value

section

variable {cursor : Cursor State Cell} {before : State → List Cell → Prop} {last : Option Cell}
variable {total : Prop}

theorem bind_eq (m : Program State Value) (f : Value → Program State Other) (state : State) :
    (m >>= f) state = after (m state) f := rfl

theorem bind_of_none {m : Program State Value} {state : State} (stops : (m state).1 = none)
    (f : Value → Program State Other) : ((m >>= f) state).1 = none := by
  rw [bind_eq]
  generalize m state = outcome at stops
  obtain ⟨value, next⟩ := outcome
  cases stops
  rfl

theorem Parses.pure (value : Value) (s : List Cell) :
    Parses before total (Pure.pure value) s value s :=
  fun state place => .inl ⟨state, rfl, place⟩

theorem Parses.bind {m : Program State Value} {f : Value → Program State Other}
    {s middle rest : List Cell} {value : Value} {other : Other}
    (first : Parses before total m s value middle)
    (second : Parses before total (f value) middle other rest) :
    Parses before total (m >>= f) s other rest := by
  intro state place
  rcases first state place with ⟨next, done, onward⟩ | ⟨partly, stops⟩
  · rw [bind_eq, done]
    exact second next onward
  · exact .inr ⟨partly, bind_of_none stops f⟩

theorem Parses.get {f : State → Program State Value} {s rest : List Cell} {value : Value}
    (second : ∀ state, Parses before total (f state) s value rest) :
    Parses before total (Program.get >>= f) s value rest :=
  fun state place => second state state place

theorem Parses.change {f : State → State} {s : List Cell}
    (kept : ∀ state, before state s → before (f state) s) :
    Parses before total (change f) s () s :=
  fun state place => .inl ⟨f state, rfl, kept state place⟩

theorem Parses.look_cons (lawful : cursor.Lawful before last) (c : Cell) (s : List Cell) :
    Parses before total cursor.look (c :: s) c (c :: s) :=
  fun state place => .inl ⟨state, lawful.look_cons place, place⟩

/-- At the end of a text the value does not matter if looking there stops. -/
theorem Parses.look_nil (lawful : cursor.Lawful before last) (there : total → last ≠ none)
    {c : Cell} (value : ∀ c', last = some c' → c' = c) :
    Parses before total cursor.look [] c [] := by
  intro state place
  cases last with
  | none => exact .inr ⟨fun total => there total rfl, congrArg Prod.fst (lawful.look_nil place)⟩
  | some c' =>
    obtain rfl := value c' rfl
    exact .inl ⟨state, lawful.look_nil place, place⟩

theorem Parses.move_cons (lawful : cursor.Lawful before last) (c : Cell) (s : List Cell) :
    Parses before total cursor.move (c :: s) () s := by
  intro state place
  obtain ⟨next, done, onward⟩ := lawful.move_cons place
  exact .inl ⟨next, done, onward⟩

/-- The loop goes over as many cells as pass the test, if the last one does not. -/
theorem parses_scanLoop (lawful : cursor.Lawful before last) (there : total → last ≠ none)
    {test : Cell → Bool} {step : Value → Cell → Value} {final : Cell} (ends : test final = false)
    (value : ∀ c', last = some c' → c' = final) {rounds : Nat} {s : List Cell}
    (enough : total → s.length < rounds) (start : Value) :
    Parses before total (scanLoop cursor test step rounds start) s
      ((s.takeWhile test).foldl step start) (s.dropWhile test) := by
  induction rounds generalizing s start with
  | zero => exact fun state _ => .inr ⟨fun total => absurd (enough total) (Nat.not_lt_zero _), rfl⟩
  | succ rounds inductionHypothesis =>
    cases s with
    | nil =>
      refine (Parses.look_nil lawful there value).bind ?_
      rw [ends]
      exact .pure start []
    | cons c s =>
      refine (Parses.look_cons lawful c s).bind ?_
      by_cases passes : test c = true
      · rw [List.takeWhile_cons_of_pos passes, List.dropWhile_cons_of_pos passes, if_pos passes,
          List.foldl_cons]
        exact (Parses.move_cons lawful c s).bind
          (inductionHypothesis (fun total => Nat.lt_of_succ_lt_succ (enough total)) (step start c))
      · rw [List.takeWhile_cons_of_neg passes, List.dropWhile_cons_of_neg passes, if_neg passes]
        exact .pure start (c :: s)

end

end Frobio.Cursor
