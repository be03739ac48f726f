/-
This file is about programs that change a state and may not return: they loop, they
crash or they leave for good. The state a program stops in is there in any case.

`Keeps` says that the states before and after a program are related. It is closed under
the ways programs are put together, if the relation is reflexive and transitive, so
that what every primitive step of a program keeps, the program keeps.
-/

import Mathlib.Order.RelClasses

namespace Frobio

/-- A program gives a value if it returns. -/
def Program (State Value : Type) : Type := State → Option Value × State

namespace Program

variable {State Value Other : Type}

def after (x : Option Value × State) (f : Value → Program State Other) :
    Option Other × State :=
  match x with
  | (some value, state) => f value state
  | (none, state) => (none, state)

instance : Monad (Program State) where
  pure value := fun state => (some value, state)
  bind m f := fun state => after (m state) f

def stop : Program State Value := fun state => (none, state)

def get : Program State State := fun state => (some state, state)

def change (f : State → State) : Program State Unit := fun state => (some (), f state)

def ofOption : Option Value → Program State Value
  | none => stop
  | some value => pure value

/-- The states before and after are related, whenever the program returns; and if `stops`, also when
it does not. -/
def Keeps (stops : Bool) (related : State → State → Prop) (m : Program State Value) : Prop :=
  ∀ state, (m state).1.isSome = true ∨ stops = true → related state (m state).2

section

variable {stops : Bool} {related : State → State → Prop} {m : Program State Value}

theorem Keeps.of_always (always : ∀ state, related state (m state).2) : Keeps stops related m :=
  fun state _ => always state

variable [Std.Refl related]

theorem Keeps.pure (value : Value) : Keeps stops related (Pure.pure value) :=
  fun state _ => Std.Refl.refl state

theorem Keeps.stop : Keeps stops related (stop : Program State Value) :=
  fun state _ => Std.Refl.refl state

theorem Keeps.get : Keeps stops related get := fun state _ => Std.Refl.refl state

theorem Keeps.ofOption (value : Option Value) : Keeps stops related (ofOption value) := by
  cases value with
  | none => exact .stop
  | some value => exact .pure value

variable [IsTrans State related]

omit [Std.Refl related] in
theorem Keeps.bind {f : Value → Program State Other} (first : Keeps stops related m)
    (second : ∀ value, Keeps stops related (f value)) : Keeps stops related (m >>= f) := by
  intro state ends
  show related state (after (m state) f).2
  have ends' : (after (m state) f).1.isSome = true ∨ stops = true := ends
  have before := first state
  generalize m state = middle at before ends'
  obtain ⟨value, middle⟩ := middle
  cases value with
  | none =>
    rcases ends' with returns | always
    · cases returns
    · exact before (.inr always)
  | some value => exact trans_of related (before (.inl rfl)) (second value middle ends')

end

end Program

end Frobio
