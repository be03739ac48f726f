/-
This file follows the strings that one call of `picolEval` of `ncl/ncl.c` allocates:
who has them, when they are freed, and which places of the argument vector are used.

A call goes from token to token, and what it does with one is a round. The evaluations
within it are calls of their own. `returns_of_picolEval` says that the rounds come to
what `picolEval` gives.
-/

import Mathlib.Data.List.Induction
import Frobio.Lib.Run
import Frobio.Ncl.Frames

namespace Frobio.Ncl

open Froblib Program Run

/-- A call of `picolEval` between two tokens. Its strings are numbered as they are allocated. -/
structure Evaluation (World : Type) where
  x : Interp World
  p : PicolParser
  argc : Nat
  /-- The vector: the numbers and the texts of its strings. -/
  argv : List (Nat × CString)
  /-- How many strings were allocated. -/
  allocated : Nat
  freed : List Nat
  /-- The indices outside of the vector that were read or freed. -/
  outside : List Nat
  retcode : Option Code

variable {World : Type}

namespace Evaluation

/-- The parser has found a token. -/
def found (f : Evaluation World) (p : PicolParser) : Evaluation World := { f with p }

/-- The interpreter has gone on. -/
def become (f : Evaluation World) (x : Interp World) : Evaluation World := { f with x }

def malloc (f : Evaluation World) : Evaluation World := { f with allocated := f.allocated + 1 }

def free (f : Evaluation World) (string : Nat) : Evaluation World :=
  { f with freed := f.freed ++ [string] }

/-- `for (j = 0; j < argc; j++) free(argv[j]); free(argv);` -/
def freeArgs (f : Evaluation World) : Evaluation World :=
  { f with
    freed := f.freed ++ (f.argv.take f.argc).map Prod.fst
    outside := f.outside ++ (List.range f.argc).drop f.argv.length
    argv := []
    argc := 0 }

/-- What is done at `err:`, where all paths end. -/
def finish (f : Evaluation World) (retcode : Code) : Evaluation World :=
  { f.freeArgs with retcode := some retcode }

/-- A string is a new argument, or is appended to the last one and freed. -/
def addArg (f : Evaluation World) (prevtype : PT) (string : Nat) (t : CString) :
    Evaluation World :=
  if prevtype = .sep ∨ prevtype = .eol then
    { f with argv := f.argv ++ [(string, t)], argc := f.argc + 1 }
  else
    match f.argv[f.argc - 1]? with
    | none => { f.free string with outside := f.outside ++ [f.argc - 1] }
    | some (last, s) =>
      { f.free string with argv := f.argv.set (f.argc - 1) (last, cat [s, t]) }

/-- The texts of the arguments. -/
def args (f : Evaluation World) : List CString := f.argv.map Prod.snd

end Evaluation

/-- There is no such command, but there is one called "unknown" to give it to. -/
def Unknown (commands : List PicolCmd) (name : CString) : Prop :=
  picolGetCommand commands name = none ∧ name ≠ text "unknown" ∧
    (picolGetCommand commands (text "unknown")).isSome = true

instance (commands : List PicolCmd) (name : CString) : Decidable (Unknown commands name) :=
  inferInstanceAs (Decidable (_ ∧ _))

/-- The count goes up with "unknown" in front of the arguments, and stays there. -/
def Evaluation.chosen (f : Evaluation World) : Evaluation World :=
  if Unknown f.x.commands (arg f.args 0) then { f with argc := f.argc + 1 } else f

/-- One round of the loop of `picolEval`, where the evaluations within it have this depth. A call
that is done has no further one. -/
def round (o : Outside World) (depth : Nat) (f : Evaluation World) : Option (Evaluation World) :=
  if f.retcode ≠ none then none
  else
    match picolGetToken f.p with
    | none => none
    | some p =>
      let prevtype := f.p.type
      let f := f.found p
      let t := cut p.token
      match p.type with
      | .eof => some (f.finish .ok)
      | .var =>
        -- the name is freed in any case
        let g := f.malloc.free f.allocated
        match picolGetVarFromRoot g.x.callframe.vars t with
        | none =>
          let result := snprintf BUF_SIZE [text "No such variable '", t, text "'"]
          some ((g.become { g.x with result }).finish .err)
        | some v => some (g.malloc.addArg prevtype g.allocated v.val)
      | .cmd =>
        match picolEval o depth t (text "[...]") f.x with
        | (none, _) => none
        | (some retcode, x) =>
          let g := (f.malloc.free f.allocated).become x
          if retcode ≠ .ok then some (g.finish retcode)
          else some (g.malloc.addArg prevtype g.allocated x.result)
      | .sep => some (f.malloc.free f.allocated)
      | .eol =>
        let g := f.malloc.free f.allocated
        if g.argc = 0 then some g.freeArgs
        else
          match command o (picolEval o depth) depth g.args g.x with
          | (none, _) => none
          | (some retcode, x) =>
            let g := g.chosen.become x
            if retcode ≠ .ok then some (g.finish retcode) else some g.freeArgs
      | .esc => some (f.malloc.addArg prevtype f.allocated t)
      | .str => some (f.malloc.addArg prevtype f.allocated t)

/-- Where `picolEval` of a text begins. -/
def enter (o : Outside World) (t : CString) (x : Interp World) : Evaluation World where
  x := { x with result := text "", world := (o.behind x.world t).2 }
  p := picolInitParser t (o.behind x.world t).1
  argc := 0
  argv := []
  allocated := 0
  freed := []
  outside := []
  retcode := none

/-- The action of a round has no choices. -/
def roundStep (o : Outside World) (depth : Nat) (f : Evaluation World) (_ : Unit) :
    Option (Evaluation World) := round o depth f

/-- No string is freed twice, none that was not allocated, every one when the call is done; and no
place outside of the vector was used. -/
structure Evaluation.Sound (f : Evaluation World) : Prop where
  inside : f.outside = []
  once : f.freed.Nodup
  own : ∀ string ∈ f.freed, string < f.allocated
  all : f.retcode ≠ none → ∀ string < f.allocated, string ∈ f.freed

/-- At the end of a command whose name is not known, with a command "unknown" to give it to. -/
def AtUnknown (f : Evaluation World) : Prop :=
  f.argc ≠ 0 ∧ (∃ p, picolGetToken f.p = some p ∧ p.type = .eol) ∧
    Unknown f.x.commands (arg f.args 0)

/-- No such command is given to "unknown" and comes back. -/
def Known (o : Outside World) (depth : Nat) (f : Evaluation World) (_ : Unit) : Prop :=
  AtUnknown f → round o depth f = none

/-! ### Who has the strings -/

namespace Evaluation

variable {f : Evaluation World}

/-- Every string that was allocated is freed, in the vector, or one of those in hand; and only
once. -/
def Owns (f : Evaluation World) (inHand : List Nat) : Prop :=
  ∀ string, (f.freed ++ (f.argv.map Prod.fst ++ inHand)).count string =
    if string < f.allocated then 1 else 0

/-- What holds between two tokens while all goes well. -/
structure Whole (f : Evaluation World) : Prop where
  counted : f.argc = f.argv.length
  inside : f.outside = []
  owns : f.Owns []
  /-- Behind a part of a word there is a word. -/
  word : f.p.type ≠ .sep → f.p.type ≠ .eol → f.retcode = none → f.argv ≠ []
  done : f.retcode ≠ none → f.argv = []

theorem Whole.sound (whole : f.Whole) : f.Sound := by
  have count : ∀ string, f.freed.count string + (f.argv.map Prod.fst).count string =
      if string < f.allocated then 1 else 0 := by
    intro string
    have owned := whole.owns string
    rwa [List.append_nil, List.count_append] at owned
  refine ⟨whole.inside, List.nodup_iff_count_le_one.mpr fun string => ?_, fun string member => ?_,
    fun ended string low => ?_⟩
  · have := count string
    split at this
    · omega
    · omega
  · have positive := List.count_pos_iff.mpr member
    have := count string
    by_contra high
    rw [if_neg high] at this
    omega
  · have := count string
    rw [whole.done ended, if_pos low] at this
    exact List.count_pos_iff.mp (by rw [List.map_nil, List.count_nil] at this; omega)

theorem Owns.malloc (owns : f.Owns []) : f.malloc.Owns [f.allocated] := by
  intro string
  have owned := owns string
  rw [List.append_nil] at owned
  show (f.freed ++ (f.argv.map Prod.fst ++ [f.allocated])).count string =
    if string < f.allocated + 1 then 1 else 0
  rw [← List.append_assoc, List.count_append, owned]
  by_cases new : string = f.allocated
  · rw [new, List.count_singleton_self, if_neg (Nat.lt_irrefl _), if_pos (Nat.lt_succ_self _)]
  · have other : [f.allocated].count string = 0 :=
      List.count_eq_zero.mpr fun member => new (List.mem_singleton.mp member)
    rw [other, Nat.add_zero]
    refine if_congr ?_ rfl rfl
    omega

theorem Owns.free {string : Nat} (owns : f.Owns [string]) : (f.free string).Owns [] := by
  intro other
  refine Eq.trans ?_ (owns other)
  show ((f.freed ++ [string]) ++ (f.argv.map Prod.fst ++ [])).count other = _
  simp only [List.count_append, List.count_nil]
  omega

theorem Owns.freeArgs (counted : f.argc = f.argv.length) (owns : f.Owns []) :
    f.freeArgs.Owns [] := by
  intro other
  refine Eq.trans ?_ (owns other)
  show ((f.freed ++ (f.argv.take f.argc).map Prod.fst) ++ ([] ++ [])).count other = _
  rw [counted, List.take_length, List.append_nil, List.append_nil, List.append_nil]

theorem freeArgs_outside (counted : f.argc = f.argv.length) :
    f.freeArgs.outside = f.outside := by
  show f.outside ++ (List.range f.argc).drop f.argv.length = f.outside
  rw [List.drop_of_length_le (by rw [List.length_range, counted]), List.append_nil]

theorem freeArgs_outside_of_more (more : f.argv.length < f.argc) :
    f.freeArgs.outside ≠ [] := by
  intro none
  have length := congrArg List.length none
  rw [show f.freeArgs.outside = f.outside ++ (List.range f.argc).drop f.argv.length from rfl,
    List.length_append, List.length_drop, List.length_range, List.length_nil] at length
  omega

/-- With a string in hand, and a word to append it to or none begun. -/
theorem addArg_kept (counted : f.argc = f.argv.length) {prevtype : PT} {string : Nat}
    (owns : f.Owns [string]) (word : prevtype ≠ .sep → prevtype ≠ .eol → f.argv ≠ [])
    (t : CString) :
    (f.addArg prevtype string t).argc = (f.addArg prevtype string t).argv.length ∧
      (f.addArg prevtype string t).outside = f.outside ∧
      (f.addArg prevtype string t).Owns [] ∧ (f.addArg prevtype string t).argv ≠ [] := by
  rw [addArg]
  split
  · refine ⟨?_, rfl, fun other => ?_, List.append_ne_nil_of_right_ne_nil _ (List.cons_ne_nil _ _)⟩
    · show f.argc + 1 = (f.argv ++ [(string, t)]).length
      rw [List.length_append, List.length_singleton, counted]
    · refine Eq.trans ?_ (owns other)
      show (f.freed ++ ((f.argv ++ [(string, t)]).map Prod.fst ++ [])).count other = _
      rw [List.map_append, List.append_nil]
      rfl
  · rename_i begun
    have some := word (fun sep => begun (.inl sep)) fun eol => begun (.inr eol)
    have positive : 0 < f.argv.length := List.length_pos_iff.mpr some
    have place : f.argc - 1 < f.argv.length := by omega
    rw [List.getElem?_eq_getElem place]
    dsimp only
    refine ⟨?_, rfl, ?_, ?_⟩
    · show f.argc = (f.argv.set _ _).length
      rw [List.length_set, counted]
    · have same : (f.argv.set (f.argc - 1) (f.argv[f.argc - 1].1,
          cat [f.argv[f.argc - 1].2, t])).map Prod.fst = f.argv.map Prod.fst := by
        rw [List.map_set]
        refine List.ext_getElem (List.length_set ..) fun i _ _ => ?_
        rw [List.getElem_set]
        split
        · rename_i equal
          subst equal
          rw [List.getElem_map]
        · rfl
      intro other
      have freed := Owns.free owns other
      show ((f.freed ++ [string]) ++ ((f.argv.set _ _).map Prod.fst ++ [])).count other = _
      rw [same]
      exact freed
    · intro none
      have length := congrArg List.length none
      rw [show List.length _ = f.argv.length from List.length_set .., List.length_nil] at length
      omega

/-- After a token of a word. -/
theorem whole_addArg (counted : f.argc = f.argv.length) (inside : f.outside = [])
    {prevtype : PT} {string : Nat} (owns : f.Owns [string])
    (word : prevtype ≠ .sep → prevtype ≠ .eol → f.argv ≠ []) (on : f.retcode = none)
    (t : CString) : (f.addArg prevtype string t).Whole := by
  obtain ⟨counted', same, owns', some⟩ := addArg_kept counted owns word t
  refine ⟨counted', same.trans inside, owns', fun _ _ _ => some, fun ended => absurd ?_ ended⟩
  rw [addArg]
  split
  · exact on
  · split
    · exact on
    · exact on

theorem whole_freeArgs (counted : f.argc = f.argv.length) (inside : f.outside = [])
    (owns : f.Owns []) (between : f.p.type = .sep ∨ f.p.type = .eol) : f.freeArgs.Whole where
  counted := rfl
  inside := (freeArgs_outside counted).trans inside
  owns := owns.freeArgs counted
  word := fun sep eol => (between.elim sep eol).elim
  done := fun _ => rfl

theorem whole_finish (counted : f.argc = f.argv.length) (inside : f.outside = [])
    (owns : f.Owns []) (retcode : Code) : (f.finish retcode).Whole where
  counted := rfl
  inside := (freeArgs_outside counted).trans inside
  owns := owns.freeArgs counted
  word := fun _ _ on => by cases on
  done := fun _ => rfl

end Evaluation

open Evaluation

/-! ### Rounds -/

section

variable {o : Outside World} {depth : Nat} {f g : Evaluation World} {p : PicolParser}

/-- After a token that is freed at once. -/
def Evaluation.spent (f : Evaluation World) (p : PicolParser) : Evaluation World :=
  (f.found p).malloc.free f.allocated

theorem round_of_eof (on : f.retcode = none) (token : picolGetToken f.p = some p)
    (kind : p.type = .eof) : round o depth f = some ((f.found p).finish .ok) := by
  rw [round, if_neg (Classical.not_not.mpr on), token]
  dsimp only
  rw [kind]

theorem round_of_sep (on : f.retcode = none) (token : picolGetToken f.p = some p)
    (kind : p.type = .sep) : round o depth f = some (f.spent p) := by
  rw [round, if_neg (Classical.not_not.mpr on), token]
  dsimp only
  rw [kind]
  rfl

theorem round_of_word (on : f.retcode = none) (token : picolGetToken f.p = some p)
    (kind : p.type = .esc ∨ p.type = .str) :
    round o depth f =
      some ((f.found p).malloc.addArg f.p.type f.allocated (cut p.token)) := by
  rw [round, if_neg (Classical.not_not.mpr on), token]
  dsimp only
  rcases kind with kind | kind
  · rw [kind]
    rfl
  · rw [kind]
    rfl

theorem round_of_var (on : f.retcode = none) (token : picolGetToken f.p = some p)
    (kind : p.type = .var) :
    round o depth f = some (match picolGetVarFromRoot f.x.callframe.vars (cut p.token) with
      | none => ((f.spent p).become { f.x with
          result := snprintf BUF_SIZE
            [text "No such variable '", cut p.token, text "'"] }).finish .err
      | some v => (f.spent p).malloc.addArg f.p.type (f.allocated + 1) v.val) := by
  rw [round, if_neg (Classical.not_not.mpr on), token]
  dsimp only
  rw [kind]
  dsimp only
  rw [show ((f.found p).malloc.free (f.found p).allocated).x = f.x from rfl]
  cases picolGetVarFromRoot f.x.callframe.vars (cut p.token) with
  | none => rfl
  | some v => rfl

theorem round_of_cmd (on : f.retcode = none) (token : picolGetToken f.p = some p)
    (kind : p.type = .cmd) :
    round o depth f = match picolEval o depth (cut p.token) (text "[...]") f.x with
      | (none, _) => none
      | (some retcode, x) => some (
        if retcode ≠ .ok then ((f.spent p).become x).finish retcode
        else ((f.spent p).become x).malloc.addArg f.p.type (f.allocated + 1) x.result) := by
  rw [round, if_neg (Classical.not_not.mpr on), token]
  dsimp only
  rw [kind]
  dsimp only
  rw [show (f.found p).x = f.x from rfl]
  cases picolEval o depth (cut p.token) (text "[...]") f.x with
  | mk retcode x =>
    cases retcode with
    | none => rfl
    | some retcode =>
      dsimp only
      split
      · rfl
      · rfl

theorem round_of_eol (on : f.retcode = none) (token : picolGetToken f.p = some p)
    (kind : p.type = .eol) :
    round o depth f =
      if f.argc = 0 then some (f.spent p).freeArgs
      else
        match command o (picolEval o depth) depth f.args f.x with
        | (none, _) => none
        | (some retcode, x) => some (
          if retcode ≠ .ok then ((f.spent p).chosen.become x).finish retcode
          else ((f.spent p).chosen.become x).freeArgs) := by
  rw [round, if_neg (Classical.not_not.mpr on), token]
  dsimp only
  rw [kind]
  dsimp only
  rw [show ((f.found p).malloc.free (f.found p).allocated).argc = f.argc from rfl,
    show ((f.found p).malloc.free (f.found p).allocated).x = f.x from rfl,
    show ((f.found p).malloc.free (f.found p).allocated).args = f.args from rfl]
  split
  · rfl
  · cases command o (picolEval o depth) depth f.args f.x with
    | mk retcode x =>
      cases retcode with
      | none => rfl
      | some retcode =>
        dsimp only
        split
        · rfl
        · rfl

/-- A round leaves all well, or has given an unknown command to "unknown". -/
theorem whole_of_round (whole : f.Whole) (gone : round o depth f = some g) :
    (¬AtUnknown f → g.Whole) ∧ (AtUnknown f → g.outside ≠ []) := by
  have on : f.retcode = none := by
    by_contra off
    rw [round, if_pos off] at gone
    cases gone
  cases token : picolGetToken f.p with
  | none =>
    rw [round, if_neg (Classical.not_not.mpr on), token] at gone
    cases gone
  | some p =>
    have word := fun sep eol => whole.word sep eol on
    have inHand : (f.found p).malloc.Owns [f.allocated] := whole.owns.malloc
    have freed : (f.spent p).Owns [] := inHand.free
    have inHand' : (f.spent p).malloc.Owns [f.allocated + 1] := freed.malloc
    -- a token of any other kind does not end a command
    have other (kind : p.type ≠ .eol) : ¬AtUnknown f := by
      rintro ⟨-, ⟨q, token', eol⟩, -⟩
      rw [token] at token'
      cases token'
      exact kind eol
    cases kind : p.type with
    | eof =>
      rw [round_of_eof on token kind] at gone
      cases gone
      refine ⟨fun _ => ?_, fun at_ => absurd at_ (other (by rw [kind]; decide))⟩
      exact whole_finish (f := f.found p) whole.counted whole.inside whole.owns .ok
    | var =>
      rw [round_of_var on token kind] at gone
      refine ⟨fun _ => ?_, fun at_ => absurd at_ (other (by rw [kind]; decide))⟩
      cases there : picolGetVarFromRoot f.x.callframe.vars (cut p.token) with
      | none =>
        rw [there] at gone
        cases gone
        exact whole_finish (f := (f.spent p).become { f.x with
          result := snprintf BUF_SIZE [text "No such variable '", cut p.token, text "'"] })
          whole.counted whole.inside freed .err
      | some v =>
        rw [there] at gone
        cases gone
        exact whole_addArg (f := (f.spent p).malloc) whole.counted whole.inside inHand' word on _
    | cmd =>
      rw [round_of_cmd on token kind] at gone
      refine ⟨fun _ => ?_, fun at_ => absurd at_ (other (by rw [kind]; decide))⟩
      split at gone
      · cases gone
      · rename_i retcode x evaluated
        cases gone
        split
        · exact whole_finish (f := (f.spent p).become x) whole.counted whole.inside freed retcode
        · exact whole_addArg (f := ((f.spent p).become x).malloc) whole.counted whole.inside
            inHand' word on _
    | sep =>
      rw [round_of_sep on token kind] at gone
      cases gone
      refine ⟨fun _ => ?_, fun at_ => absurd at_ (other (by rw [kind]; decide))⟩
      exact ⟨whole.counted, whole.inside, freed, fun sep => absurd kind sep, whole.done⟩
    | eol =>
      have between : (f.found p).p.type = .sep ∨ (f.found p).p.type = .eol := .inr kind
      rw [round_of_eol on token kind] at gone
      split at gone
      · rename_i empty
        cases gone
        refine ⟨fun _ => ?_, fun at_ => absurd empty at_.1⟩
        exact whole_freeArgs (f := f.spent p) whole.counted whole.inside freed between
      rename_i some
      split at gone
      · cases gone
      rename_i retcode x commanded
      cases gone
      by_cases unknown : Unknown f.x.commands (arg f.args 0)
      · have at_ : AtUnknown f := ⟨some, ⟨p, token, kind⟩, unknown⟩
        refine ⟨fun not => absurd at_ not, fun _ => ?_⟩
        have more : f.argv.length < f.argc + 1 := by
          have := whole.counted
          omega
        rw [show (f.spent p).chosen = { f.spent p with argc := f.argc + 1 } from if_pos unknown]
        split
        · exact freeArgs_outside_of_more more
        · exact freeArgs_outside_of_more more
      · have out : ¬AtUnknown f := fun at_ => unknown at_.2.2
        refine ⟨fun _ => ?_, fun at_ => absurd at_ out⟩
        rw [show (f.spent p).chosen = f.spent p from if_neg unknown]
        split
        · exact whole_finish (f := (f.spent p).become x) whole.counted whole.inside freed retcode
        · exact whole_freeArgs (f := (f.spent p).become x) whole.counted whole.inside freed between
    | esc =>
      rw [round_of_word on token (.inl kind)] at gone
      cases gone
      refine ⟨fun _ => ?_, fun at_ => absurd at_ (other (by rw [kind]; decide))⟩
      exact whole_addArg (f := (f.found p).malloc) whole.counted whole.inside inHand word on _
    | str =>
      rw [round_of_word on token (.inr kind)] at gone
      cases gone
      refine ⟨fun _ => ?_, fun at_ => absurd at_ (other (by rw [kind]; decide))⟩
      exact whole_addArg (f := (f.found p).malloc) whole.counted whole.inside inHand word on _

theorem whole_enter (o : Outside World) (t : CString) (x : Interp World) : (enter o t x).Whole where
  counted := rfl
  inside := rfl
  owns := fun _ => rfl
  word := fun _ eol => absurd rfl eol
  done := fun _ => rfl

/-- While a run is sound, all is well. -/
theorem whole_of_sound (start : f.Whole) {rounds : List Unit}
    (sound : ∀ first, first <+: rounds → ∀ g, run (roundStep o depth) f first = some g → g.Sound) :
    ∀ first, first <+: rounds → ∀ g, run (roundStep o depth) f first = some g → g.Whole := by
  intro first
  induction first using List.reverseRecOn with
  | nil =>
    intro _ g reached
    cases reached
    exact start
  | append_singleton before last inductionHypothesis =>
    intro within g reached
    obtain ⟨middle, there, step⟩ := run_append.mp reached
    obtain ⟨g', gone, here⟩ := run_cons_eq_some.mp step
    cases here
    have whole := inductionHypothesis ((List.prefix_append _ _).trans within) middle there
    by_cases at_ : AtUnknown middle
    · exact absurd (sound _ within g reached).inside ((whole_of_round whole gone).2 at_)
    · exact (whole_of_round whole gone).1 at_

end

/-- Whatever the text, the interpreter and what its commands do, and after however many tokens: in
a call of `picolEval` every string is freed once and no place outside of the vector is used, if and
only if no command that is not known is given to one called "unknown" and comes back. -/
theorem arguments_owned_iff (o : Outside World) (depth : Nat) (t : CString) (x : Interp World)
    (rounds : List Unit) :
    (∀ first, first <+: rounds →
        ∀ f, run (roundStep o depth) (enter o t x) first = some f → f.Sound) ↔
      Meets (roundStep o depth) (Known o depth) (enter o t x) rounds := by
  have well : (∀ first, first <+: rounds →
      ∀ f, run (roundStep o depth) (enter o t x) first = some f → f.Whole) ↔
        Meets (roundStep o depth) (Known o depth) (enter o t x) rounds := by
    refine forall_reached_iff_meets Whole (fun _ => True) (fun f _ g whole _ gone => ?_)
      (fun f _ _ _ stuck => ?_) (whole_enter o t x) (fun _ _ => trivial)
    swap
    · exact fun _ => stuck
    refine ⟨fun whole' at_ => ?_, fun known => (whole_of_round whole gone).1 fun at_ => ?_⟩
    · exact absurd whole'.inside ((whole_of_round whole gone).2 at_)
    · have stuck : roundStep o depth f () = none := known at_
      rw [stuck] at gone
      cases gone
  rw [← well]
  exact ⟨whole_of_sound (whole_enter o t x), fun whole first within f reached =>
    (whole first within f reached).sound⟩

/-! ### What the rounds come to -/

section

variable {o : Outside World} {depth : Nat} {f : Evaluation World} {p : PicolParser}

/-- What is next after a token, in the words of `token`. -/
def Evaluation.Follows (g : Evaluation World) (p : PicolParser) (x' : Interp World) : Next → Prop
  | .done retcode => g.retcode = some retcode ∧ g.x = x'
  | .go argv => g.retcode = none ∧ g.x = x' ∧ g.p = p ∧ g.argc = g.argv.length ∧ g.args = argv

theorem follows_addArg {x' : Interp World} (on : f.retcode = none) (state : f.x = x')
    (counted : f.argc = f.argv.length) {prevtype : PT} {t : CString} {string : Nat} {result : Next}
    {x'' : Interp World} (added : addToken prevtype t f.args x' = (some result, x'')) :
    (f.addArg prevtype string t).Follows f.p x'' result := by
  subst state
  rw [addToken] at added
  rw [addArg]
  by_cases new : prevtype = .sep ∨ prevtype = .eol
  · rw [if_pos new] at added ⊢
    cases added
    refine ⟨on, rfl, rfl, ?_, ?_⟩
    · show f.argc + 1 = (f.argv ++ [(string, t)]).length
      rw [List.length_append, List.length_singleton, counted]
    · show (f.argv ++ [(string, t)]).map Prod.snd = f.argv.map Prod.snd ++ [t]
      rw [List.map_append]
      rfl
  · rw [if_neg new] at added ⊢
    rcases List.eq_nil_or_concat f.argv with empty | ⟨before, ⟨number, s⟩, split⟩
    · rw [show f.args = [] by rw [args, empty]; rfl] at added
      cases added
    · have place : f.argc - 1 = before.length := by
        rw [counted, split, List.concat_eq_append, List.length_append, List.length_singleton,
          Nat.add_sub_cancel]
      rw [List.concat_eq_append] at split
      have words : f.args = before.map Prod.snd ++ [s] := by
        rw [args, split, List.map_append]
        rfl
      rw [words, List.getLast?_concat] at added
      cases added
      rw [place, split, List.getElem?_concat_length]
      refine ⟨on, rfl, rfl, ?_, ?_⟩
      · show f.argc = ((before ++ [(number, s)]).set before.length _).length
        rw [List.length_set, counted, split]
      · show ((before ++ [(number, s)]).set before.length (number, cat [s, t])).map Prod.snd =
          (before.map Prod.snd ++ [s]).dropLast ++ [cat [s, t]]
        rw [List.dropLast_concat, List.set_append_right _ _ (Nat.le_refl _), Nat.sub_self,
          List.map_append]
        rfl

theorem round_of_token (counted : f.argc = f.argv.length) (on : f.retcode = none)
    (found : picolGetToken f.p = some p) {result : Next} {x' : Interp World}
    (came : token o (picolEval o depth) depth f.p.type p f.args f.x = (some result, x')) :
    ∃ g, round o depth f = some g ∧ g.Follows p x' result := by
  rw [token] at came
  cases kind : p.type with
  | eof =>
    rw [kind] at came
    cases came
    exact ⟨_, round_of_eof on found kind, rfl, rfl⟩
  | var =>
    rw [kind] at came
    rw [round_of_var on found kind]
    refine ⟨_, rfl, ?_⟩
    have came : after (some (picolGetVarFromRoot f.x.callframe.vars (cut p.token)), f.x) _ =
      (some result, x') := came
    cases there : picolGetVarFromRoot f.x.callframe.vars (cut p.token) with
    | none =>
      rw [there] at came
      cases came
      exact ⟨rfl, rfl⟩
    | some v =>
      rw [there] at came
      exact follows_addArg (f := (f.spent p).malloc) on rfl counted came
  | cmd =>
    rw [kind] at came
    rw [round_of_cmd on found kind]
    have came : after (picolEval o depth (cut p.token) (text "[...]") f.x) _ =
      (some result, x') := came
    cases evaluated : picolEval o depth (cut p.token) (text "[...]") f.x with
    | mk retcode x =>
      rw [evaluated] at came
      cases retcode with
      | none => cases came
      | some retcode =>
        refine ⟨_, rfl, ?_⟩
        rw [after] at came
        by_cases okay : retcode = .ok
        · rw [if_neg (Classical.not_not.mpr okay)] at came ⊢
          exact follows_addArg (f := ((f.spent p).become x).malloc) on rfl counted came
        · rw [if_pos okay] at came ⊢
          cases came
          exact ⟨rfl, rfl⟩
  | sep =>
    rw [kind] at came
    cases came
    exact ⟨_, round_of_sep on found kind, on, rfl, rfl, counted, rfl⟩
  | eol =>
    rw [kind] at came
    rw [round_of_eol on found kind]
    have empty : f.args = [] ↔ f.argc = 0 := by
      rw [counted, List.length_eq_zero_iff]
      exact List.map_eq_nil_iff
    by_cases nothing : f.argc = 0
    · rw [if_pos (empty.mpr nothing)] at came
      cases came
      exact ⟨_, if_pos nothing, on, rfl, rfl, rfl, rfl⟩
    · rw [if_neg (fun nil => nothing (empty.mp nil))] at came
      rw [if_neg nothing]
      have came : after (command o (picolEval o depth) depth f.args f.x) _ =
        (some result, x') := came
      cases commanded : command o (picolEval o depth) depth f.args f.x with
      | mk retcode x =>
        rw [commanded] at came
        cases retcode with
        | none => cases came
        | some retcode =>
          refine ⟨_, rfl, ?_⟩
          have still : (f.spent p).chosen.retcode = none ∧ (f.spent p).chosen.p = p := by
            rw [chosen]
            split
            · exact ⟨on, rfl⟩
            · exact ⟨on, rfl⟩
          rw [after] at came
          by_cases okay : retcode = .ok
          · rw [if_neg (Classical.not_not.mpr okay)] at came ⊢
            cases came
            exact ⟨still.1, rfl, still.2, rfl, rfl⟩
          · rw [if_pos okay] at came ⊢
            cases came
            exact ⟨rfl, rfl⟩
  | esc =>
    rw [kind] at came
    exact ⟨_, round_of_word on found (.inl kind),
      follows_addArg (f := (f.found p).malloc) on rfl counted came⟩
  | str =>
    rw [kind] at came
    exact ⟨_, round_of_word on found (.inr kind),
      follows_addArg (f := (f.found p).malloc) on rfl counted came⟩

theorem returns_of_tokens (left : Nat) {f : Evaluation World} (counted : f.argc = f.argv.length)
    (on : f.retcode = none) {code : Code} {x' : Interp World}
    (returned : tokens o (picolEval o depth) depth left f.p f.args f.x = (some code, x')) :
    ∃ rounds g, run (roundStep o depth) f rounds = some g ∧ g.retcode = some code ∧ g.x = x' := by
  induction left generalizing f with
  | zero => cases returned
  | succ left inductionHypothesis =>
    have returned : after (ofOption (picolGetToken f.p) f.x) _ = (some code, x') := returned
    cases found : picolGetToken f.p with
    | none =>
      rw [found] at returned
      cases returned
    | some p =>
      rw [found] at returned
      have returned : after (token o (picolEval o depth) depth f.p.type p f.args f.x) _ =
        (some code, x') := returned
      cases came : token o (picolEval o depth) depth f.p.type p f.args f.x with
      | mk result x =>
        rw [came] at returned
        cases result with
        | none => cases returned
        | some result =>
          obtain ⟨g, gone, follows⟩ := round_of_token counted on found came
          cases result with
          | done retcode =>
            cases returned
            exact ⟨[()], g, run_cons_eq_some.mpr ⟨g, gone, rfl⟩, follows⟩
          | go argv =>
            obtain ⟨on', state, here, counted', args⟩ := follows
            have returned : tokens o (picolEval o depth) depth left p argv x = (some code, x') :=
              returned
            rw [← state, ← here, ← args] at returned
            obtain ⟨rounds, last, reached, ended⟩ := inductionHypothesis counted' on' returned
            exact ⟨() :: rounds, last, run_cons_eq_some.mpr ⟨g, gone, reached⟩, ended⟩

/-- The rounds of a call come to what `picolEval` gives. -/
theorem returns_of_picolEval {t location : CString} {x x' : Interp World} {code : Code}
    (returned : picolEval o (depth + 1) t location x = (some code, x')) :
    ∃ rounds g, run (roundStep o depth) (enter o t x) rounds = some g ∧ g.retcode = some code ∧
      x' = if code = .err then
        { g.x with result := cat [cat [g.x.result, text "; in "], location] } else g.x := by
  have returned : after (tokens o (picolEval o depth) depth depth (enter o t x).p
    (enter o t x).args (enter o t x).x) _ = (some code, x') := returned
  cases came : tokens o (picolEval o depth) depth depth (enter o t x).p (enter o t x).args
      (enter o t x).x with
  | mk retcode x₁ =>
    rw [came] at returned
    cases retcode with
    | none => cases returned
    | some retcode =>
      obtain ⟨rounds, g, reached, ended, state⟩ := returns_of_tokens depth rfl rfl came
      rw [after] at returned
      dsimp only at returned
      by_cases failed : retcode = .err
      · rw [if_pos failed] at returned
        cases returned
        exact ⟨rounds, g, reached, ended, by rw [if_pos failed, state]⟩
      · rw [if_neg failed] at returned
        cases returned
        exact ⟨rounds, g, reached, ended, by rw [if_neg failed, state]⟩

end

/-- The command `f`, which is not there, is given to one called "unknown", which is `list`: the
call frees a string behind the end of the vector. -/
theorem not_arguments_owned_unknown :
    ¬∀ first, first <+: [(), (), ()] → ∀ f,
      run (roundStep bareMachine 2) (enter bareMachine (text "f")
        { start () with commands := [builtin .list 0 0 "unknown"] }) first = some f → f.Sound := by
  intro sound
  have outside : ((run (roundStep bareMachine 2) (enter bareMachine (text "f")
      { start () with commands := [builtin .list 0 0 "unknown"] }) [(), ()]).map
      Evaluation.outside) = some [1] := by decide +kernel
  obtain ⟨f, reached, used⟩ := Option.map_eq_some_iff.mp outside
  have inside := (sound [(), ()] ⟨[()], rfl⟩ f reached).inside
  rw [used] at inside
  cases inside

end Frobio.Ncl
