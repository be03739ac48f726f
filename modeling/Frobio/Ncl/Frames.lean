/-
This file shows that the call frames are in balance: whenever `picolEval`, a command
function or the call of a proc returns, in whatever way, the frames are those it began
with, and the call of a proc has changed no variable of any of them.

The frame of a proc is pushed and dropped in `picolCommandCallProc` alone. What runs
between the two keeps the frames below the first one, so that the one that is dropped
is the one that was pushed.
-/

import Frobio.Ncl.Commands

namespace Frobio.Ncl

open Froblib Program

variable {World Value Other : Type}

/-- The first frame is the same, with its variables or others, and those below it are unchanged. -/
structure Balanced (x x' : Interp World) : Prop where
  parents : x'.parents = x.parents
  address : x'.callframe.address = x.callframe.address

instance harmless_balanced : Harmless (@Balanced World) where
  refl _ := ⟨rfl, rfl⟩
  trans _ _ _ first second :=
    ⟨second.parents.trans first.parents, second.address.trans first.address⟩
  quiet quiet := ⟨quiet.parents, quiet.address⟩

/-- A program that has dropped a frame when it returns. -/
def Drops (m : Picol World Value) : Prop :=
  ∀ x, (m x).1.isSome = true → x.parents = (m x).2.callframe :: (m x).2.parents

theorem drops_of_drop (value : Value) :
    Drops (picolDropCallFrame >>= fun _ => (pure value : Picol World Value)) := by
  intro x returns
  change x.parents = (after (picolDropCallFrame x) fun _ => pure value).2.callframe ::
    (after (picolDropCallFrame x) fun _ => pure value).2.parents
  have returns' : (after (picolDropCallFrame x) fun _ => pure value).1.isSome = true := returns
  rw [picolDropCallFrame] at returns' ⊢
  cases parents : x.parents with
  | nil =>
    rw [parents] at returns'
    cases returns'
  | cons parent parents => rfl

theorem Drops.of_keeps {m : Picol World Value} {f : Value → Picol World Other}
    (first : Keeps false Balanced m) (second : ∀ value, Drops (f value)) : Drops (m >>= f) := by
  intro x returns
  change x.parents = (after (m x) f).2.callframe :: (after (m x) f).2.parents
  have returns' : (after (m x) f).1.isSome = true := returns
  have before := first x
  generalize m x = middle at before returns'
  obtain ⟨value, middle⟩ := middle
  cases value with
  | none => cases returns'
  | some value =>
    rw [← (before (.inl rfl)).parents]
    exact second value middle returns'

theorem keeps_setVars {stops : Bool} {related : Interp World → Interp World → Prop}
    [Harmless related] (names vals : List CString) :
    Keeps stops related (setVars names vals : Picol World Unit) := by
  induction names generalizing vals with
  | nil => exact .pure _
  | cons name names inductionHypothesis =>
    cases vals with
    | nil => exact .pure _
    | cons val vals => exact (keeps_setVar _ _).bind fun _ => inductionHypothesis vals

section

variable {o : Outside World} {eval : CString → CString → Picol World Code} {rounds : Nat}
  (evals : ∀ t location, Keeps false Balanced (eval t location))

include evals

/-- The frame of a proc is dropped, whether it is called with the right number of arguments or
not, and however its body ends. -/
theorem callProc_restores (pd : Option (CString × CString)) (argv : List CString)
    (x : Interp World) (returns : (picolCommandCallProc o eval pd argv x).1.isSome = true) :
    (picolCommandCallProc o eval pd argv x).2.callframe = x.callframe ∧
      (picolCommandCallProc o eval pd argv x).2.parents = x.parents := by
  cases pd with
  | none => cases returns
  | some pd =>
    obtain ⟨alist, body⟩ := pd
    have called : ∃ m : Picol World Code, Drops m ∧
        picolCommandCallProc o eval (some (alist, body)) argv = pushCallFrame >>= fun _ => m := by
      refine ⟨_, ?_, rfl⟩
      refine Drops.of_keeps (keeps_split o alist) fun v => ?_
      dsimp only
      split
      · -- the number of arguments is wrong
        exact Drops.of_keeps (keeps_setResult _) fun _ => drops_of_drop _
      · refine Drops.of_keeps (keeps_setVars _ _) fun _ => ?_
        split
        · exact Drops.of_keeps (keeps_setVar _ _) fun _ =>
            Drops.of_keeps (evals _ _) fun _ => drops_of_drop _
        · exact Drops.of_keeps (evals _ _) fun _ => drops_of_drop _
    obtain ⟨m, drops, same⟩ := called
    rw [same] at returns ⊢
    have dropped := drops _ returns
    exact ⟨(List.cons.inj dropped).1.symm, (List.cons.inj dropped).2.symm⟩

theorem balanced_callProc (pd : Option (CString × CString)) (argv : List CString) :
    Keeps false Balanced (picolCommandCallProc o eval pd argv) := by
  intro x returns
  obtain ⟨callframe, parents⟩ := callProc_restores evals pd argv x
    (returns.resolve_right Bool.false_ne_true)
  exact ⟨parents, congrArg PicolCallFrame.address callframe⟩

theorem balanced_cmdFunc (pd : Option (CString × CString)) (argv : List CString)
    (func : PicolCmdFunc) : Keeps false Balanced (picolCmdFunc o eval rounds pd argv func) :=
  keeps_cmdFunc o argv evals rounds pd (balanced_callProc evals pd argv) func

theorem balanced_call (c : PicolCmd) (argv : List CString) :
    Keeps false Balanced (call o eval rounds c argv) := by
  have noted (dispatch : Dispatch) : Keeps false Balanced (noteDispatch dispatch : Picol World Unit) :=
    .of_always fun _ => ⟨rfl, rfl⟩
  rw [call]
  split
  · exact (noted _).bind fun _ => keeps_arityErr _
  · exact (noted _).bind fun _ => balanced_cmdFunc evals _ _ _

end

theorem balanced_picolEval (o : Outside World) (depth : Nat) (t location : CString) :
    Keeps false Balanced (picolEval o depth t location) :=
  keeps_picolEval o (fun _ evals => balanced_call evals) depth t location

/-- A machine without OS-9, that finds a NUL after every string. -/
def bareMachine : Outside Unit where
  signed := true
  os9 _ _ := (some ⟨1, 0, 0, []⟩, ())
  print _ _ := ()
  behind _ _ := ([], ())
  peek _ _ := 0
  poke _ _ _ := ()
  garbage _ := 0
  undefined _ _ _ := 0
  stringMatch _ _ := 0
  reMatch _ _ := 0

/-- A proc that calls itself with a wrong number of arguments, and leaves a loop of its own with an
error in a nested command. -/
def unbalanced : CString :=
  text "proc f a {catch {f 1 2}; set b $a; while 1 {set c [error $b]}}; set b 4; f 7"

end Frobio.Ncl
