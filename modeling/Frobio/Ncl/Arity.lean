/-
This file is about the gate in front of the command functions: which arguments
`picolEval` calls a function with that is registered with bounds.

The dispatches of an evaluation, returned or not, are in the state it stops in. Each of
them is as the tests in `call` make it, whatever was evaluated before.
-/

import Frobio.Ncl.Frames

namespace Frobio.Ncl

open Froblib Program

variable {World : Type}

/-- The number of arguments is within the bounds of the command. -/
def Dispatch.Within (d : Dispatch) : Prop :=
  d.cmd.minArgc ≤ d.argc ∧ (d.cmd.maxArgc = 0 ∨ d.argc ≤ d.cmd.maxArgc)

/-- The function was called only with a number of arguments within its bounds, and refused only
otherwise. -/
def Dispatch.Gated (d : Dispatch) : Prop := d.called = true ↔ d.Within

/-- Not more arguments than the greatest number, unless there are fewer than the least. -/
def Dispatch.Expected (d : Dispatch) : Prop :=
  d.cmd.maxArgc = 0 ∨ d.argc ≤ d.cmd.maxArgc ∨ d.argc < d.cmd.minArgc

instance (d : Dispatch) : Decidable d.Within := inferInstanceAs (Decidable (_ ∧ _))

instance (d : Dispatch) : Decidable d.Gated := inferInstanceAs (Decidable (_ ↔ _))

/-- What the source makes of a dispatch. -/
def Dispatch.AsCoded (d : Dispatch) : Prop := d.called = true ↔ d.cmd.minArgc ≤ d.argc

theorem Dispatch.AsCoded.gated_iff {d : Dispatch} (coded : d.AsCoded) : d.Gated ↔ d.Expected := by
  rw [AsCoded] at coded
  rw [Gated, coded, Within, Expected]
  omega

/-- What was dispatched since is as it is coded. -/
def Logged (x x' : Interp World) : Prop :=
  ∃ new, x'.dispatches = x.dispatches ++ new ∧ ∀ d ∈ new, d.AsCoded

instance harmless_logged : Harmless (@Logged World) where
  refl x := ⟨[], (List.append_nil _).symm, fun _ member => absurd member List.not_mem_nil⟩
  trans x y z := by
    rintro ⟨first, same, coded⟩ ⟨second, same', coded'⟩
    refine ⟨first ++ second, ?_, fun d member => ?_⟩
    · rw [same', same, List.append_assoc]
    · rcases List.mem_append.mp member with old | new
      · exact coded d old
      · exact coded' d new
  quiet quiet := ⟨[], quiet.dispatches.trans (List.append_nil _).symm,
    fun _ member => absurd member List.not_mem_nil⟩

theorem logged_noteDispatch {d : Dispatch} (coded : d.AsCoded) :
    Keeps true Logged (noteDispatch d : Picol World Unit) :=
  .of_always fun _ => ⟨[d], rfl, fun _ member => List.mem_singleton.mp member ▸ coded⟩

theorem logged_of_same {Value : Type} {m : Picol World Value}
    (same : ∀ x, (m x).2.dispatches = x.dispatches) : Keeps true Logged m :=
  .of_always fun x => ⟨[], (same x).trans (List.append_nil _).symm,
    fun _ member => absurd member List.not_mem_nil⟩

theorem logged_dropCallFrame : Keeps true Logged (picolDropCallFrame : Picol World Unit) := by
  refine logged_of_same fun x => ?_
  rw [picolDropCallFrame]
  split
  · rfl
  · rfl

section

variable {o : Outside World} {eval : CString → CString → Picol World Code} {rounds : Nat}
  (evals : ∀ t location, Keeps true Logged (eval t location))

include evals

theorem logged_callProc (pd : Option (CString × CString)) (argv : List CString) :
    Keeps true Logged (picolCommandCallProc o eval pd argv) := by
  cases pd with
  | none => exact .stop
  | some pd =>
    obtain ⟨alist, body⟩ := pd
    have pushed : Keeps true Logged (pushCallFrame : Picol World Unit) :=
      logged_of_same fun _ => rfl
    refine pushed.bind fun _ => (keeps_split o alist).bind fun v => ?_
    dsimp only
    split
    · exact (keeps_setResult _).bind fun _ => logged_dropCallFrame.bind fun _ => .pure _
    · refine (keeps_setVars _ _).bind fun _ => ?_
      split
      · exact (keeps_setVar _ _).bind fun _ =>
          (evals _ _).bind fun _ => logged_dropCallFrame.bind fun _ => .pure _
      · exact (evals _ _).bind fun _ => logged_dropCallFrame.bind fun _ => .pure _

theorem logged_call (c : PicolCmd) (argv : List CString) :
    Keeps true Logged (call o eval rounds c argv) := by
  rw [call]
  split
  · rename_i few
    have coded : (⟨c, argv.length, false⟩ : Dispatch).AsCoded :=
      iff_of_false Bool.false_ne_true (Nat.not_le.mpr few.2)
    exact (logged_noteDispatch coded).bind fun _ => keeps_arityErr _
  · rename_i enough
    have coded : (⟨c, argv.length, true⟩ : Dispatch).AsCoded := by
      refine iff_of_true rfl ?_
      show c.minArgc ≤ argv.length
      omega
    exact (logged_noteDispatch coded).bind fun _ =>
      keeps_cmdFunc o argv evals rounds _ (logged_callProc evals _ argv) _

end

/-- The gate that the bounds call for. -/
def gatedCall (o : Outside World) (eval : CString → CString → Picol World Code) (rounds : Nat)
    (c : PicolCmd) (argv : List CString) : Picol World Code :=
  if (⟨c, argv.length, true⟩ : Dispatch).Within then do
    noteDispatch ⟨c, argv.length, true⟩
    picolCmdFunc o eval rounds c.privdata argv c.func
  else do
    noteDispatch ⟨c, argv.length, false⟩
    picolArityErr (arg argv 0)

/-- The gate of the source either calls the function or reports the arity error. -/
theorem call_eq (o : Outside World) (eval : CString → CString → Picol World Code) (rounds : Nat)
    (c : PicolCmd) (argv : List CString) :
    call o eval rounds c argv =
      if c.minArgc ≤ argv.length then
        noteDispatch ⟨c, argv.length, true⟩ >>= fun _ =>
          picolCmdFunc o eval rounds c.privdata argv c.func
      else noteDispatch ⟨c, argv.length, false⟩ >>= fun _ => picolArityErr (arg argv 0) := by
  rw [call]
  by_cases enough : c.minArgc ≤ argv.length
  · have few : ¬(c.minArgc ≠ 0 ∧ argv.length < c.minArgc) := by omega
    rw [if_neg few, if_neg few, if_pos enough]
  · have few : c.minArgc ≠ 0 ∧ argv.length < c.minArgc := by omega
    rw [if_pos few, if_neg enough]

/-- Calling a function cannot be mistaken for refusing it: the dispatch stays on record. -/
theorem call_ne_refuse (o : Outside World) (eval : CString → CString → Picol World Code)
    (evals : ∀ t location, Keeps true Logged (eval t location)) (rounds : Nat)
    (c : PicolCmd) (argv : List CString) (x : Interp World) :
    (noteDispatch ⟨c, argv.length, true⟩ >>= fun _ =>
        picolCmdFunc o eval rounds c.privdata argv c.func) ≠
      (noteDispatch ⟨c, argv.length, false⟩ >>= fun _ => picolArityErr (arg argv 0)) := by
  intro same
  have dispatches := congrArg Interp.dispatches (congrArg Prod.snd (congrFun same x))
  obtain ⟨new, logged, -⟩ := keeps_cmdFunc o argv evals rounds c.privdata
    (logged_callProc evals _ argv) c.func
    { x with dispatches := x.dispatches ++ [⟨c, argv.length, true⟩] } (.inr rfl)
  have called := logged.symm.trans dispatches
  have refused : x.dispatches ++ [⟨c, argv.length, true⟩] ++ new =
      x.dispatches ++ [⟨c, argv.length, false⟩] := called
  rw [List.append_assoc, List.append_cancel_left_eq] at refused
  cases refused

/-- In every evaluation, returned or not: the dispatches are gated if and only if none has too many
arguments. And a single call of a command does what its bounds call for if and only if it has not
too many arguments. -/
theorem gated_iff_expected (o : Outside World) (depth : Nat) (t location : CString)
    (x : Interp World) :
    (∃ new, (picolEval o depth t location x).2.dispatches = x.dispatches ++ new ∧
      ((∀ d ∈ new, d.Gated) ↔ ∀ d ∈ new, d.Expected)) ∧
    ∀ rounds c argv, call o (picolEval o depth) rounds c argv =
      gatedCall o (picolEval o depth) rounds c argv ↔
        (⟨c, argv.length, true⟩ : Dispatch).Expected := by
  have evals (t location) : Keeps true Logged (picolEval o depth t location) :=
    keeps_picolEval o (fun _ evals => logged_call evals) depth t location
  refine ⟨?_, fun rounds c argv => ?_⟩
  · obtain ⟨new, same, coded⟩ := evals t location x (.inr rfl)
    exact ⟨new, same, forall₂_congr fun d member => (coded d member).gated_iff⟩
  · rw [call_eq, gatedCall]
    by_cases enough : c.minArgc ≤ argv.length
    · rw [if_pos enough]
      by_cases few : c.maxArgc = 0 ∨ argv.length ≤ c.maxArgc
      · rw [if_pos ⟨enough, few⟩]
        exact iff_of_true rfl (few.imp_right .inl)
      · rw [if_neg fun within => few within.2]
        refine iff_of_false (call_ne_refuse o _ evals rounds c argv x) ?_
        rintro (unbounded | few' | less)
        · exact few (.inl unbounded)
        · exact few (.inr few')
        · exact absurd less (Nat.not_lt.mpr enough)
    · rw [if_neg enough, if_neg fun within => enough within.1]
      exact iff_of_true rfl (.inr (.inr (Nat.not_le.mp enough)))

/-- `set` is called with three arguments after its name, though it is registered for two at
most. -/
theorem not_gated_setOfThree :
    (picolEval bareMachine 10 (text "set a b c") (text "t") (start ())).2.dispatches =
        [⟨builtin .set 2 3 "set", 4, true⟩] ∧
      ¬(⟨builtin .set 2 3 "set", 4, true⟩ : Dispatch).Gated := by
  decide +kernel

end Frobio.Ncl
