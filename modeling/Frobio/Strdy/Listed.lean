/-
This file models `lemma/strdy/strdy.go` on the skip list that it uses, and proves that it is the store
on a map: it loads the same files, gives the same answers, and appends the same lines, whatever the
random numbers of the list are.
-/

import Frobio.Lib.Transcript
import Frobio.Skiplist.Runs
import Frobio.Skiplist.Types
import Frobio.Strdy.Store

namespace Frobio.Strdy.Listed

open Coms
open Skiplist (Sound Table stringType)
open Transcript (after map_eq_of_rel outputs rel_bind)

/-- The database, with its list. -/
structure DB where
  list : Skiplist.SkipList Text Nat Entry
  file : Text

/-! ### The functions -/

/-- `addLine`, with the random numbers that it comes upon. -/
def addLine (rand : Nat → Nat) (list : Skiplist.SkipList Text Nat Entry) (line : Text) :
    Option (Skiplist.SkipList Text Nat Entry) :=
  if ¬ascii "(" <+: line then some list
  else
    match splitN tab 6 line with
    | [before, key, timestamp, value, behind, _] =>
      if before ≠ ascii "(" ∨ behind ≠ ascii ")" then some list
      else do
        match ← list.getValue key with
        | none => return (← list.set rand key (.record ⟨key, timestamp, value⟩)).1
        | some (.record old) =>
          if timestamp < old.timestamp then return list
          return (← list.set rand key (.record ⟨key, timestamp, value⟩)).1
        | some (.bare _) => none
    | _ => some list

/-- The loop of `slurpFile`; `rand` are the random numbers for each line. -/
def addLines (rand : Nat → Nat → Nat) :
    Nat → Skiplist.SkipList Text Nat Entry → List Text → Option (Skiplist.SkipList Text Nat Entry)
  | _, list, [] => some list
  | i, list, line :: rest => do addLines rand (i + 1) (← addLine (rand i) list line) rest

/-- `Load` and `slurpFile`. -/
def load (rand : Nat → Nat → Nat) (file : Text) : Option DB := do
  let lines ← scanLines file
  return ⟨← addLines rand 0 (Skiplist.new stringType 48) lines, file⟩

def get (db : DB) (key : Text) : Option Text := do
  match ← db.list.getValue key with
  | none => return []
  | some (.record r) => return r.value
  | some (.bare _) => none

def set (rand : Nat → Nat) (db : DB) (key value comment ts : Text) : Option DB := do
  return ⟨(← db.list.set rand key (.bare value)).1,
    db.file ++ setLine key value comment ts ++ [newline]⟩

/-- A call, with the random numbers that it comes upon. A panic leaves the store as it is. -/
def step (db : DB) : (Nat → Nat) × Call → DB × Answer
  | (_, .get key) => (db, answer (get db key))
  | (rand, .set key value comment ts) =>
    match set rand db key value comment ts with
    | none => (db, .panic)
    | some db => (db, .nothing)

/-! ### What the list holds -/

/-- The list holds this map. -/
def Holds (list : Skiplist.SkipList Text Nat Entry) (map : SkipList) : Prop :=
  ∃ table : Table stringType.compare Entry, Sound stringType list table ∧ table.lookup = map

section

variable {list : Skiplist.SkipList Text Nat Entry} {map : SkipList}

theorem Holds.getValue (holds : Holds list map) (key : Text) : list.getValue key = some (map key) := by
  obtain ⟨table, sound, rfl⟩ := holds
  exact sound.getValue Skiplist.scores_stringType

theorem Holds.set (holds : Holds list map) (rand : Nat → Nat) (key : Text) (entry : Entry) :
    ∃ list' elem, list.set rand key entry = some (list', elem) ∧
      Holds list' (Function.update map key (some entry)) := by
  obtain ⟨table, sound, rfl⟩ := holds
  obtain ⟨list', sets, sound'⟩ := sound.set Skiplist.scores_stringType rand key entry
  refine ⟨list', _, sets, _, sound', funext fun other => ?_⟩
  rw [Table.lookup_set, Function.update_apply]
  simp only [Skiplist.compare_eq_eq]

theorem holds_new : Holds (Skiplist.new stringType 48) fun _ => none :=
  ⟨Table.empty _ _, Skiplist.sound_new (by decide), rfl⟩

/-- A line does the same to both, or stops both. -/
theorem addLine_holds (holds : Holds list map) (rand : Nat → Nat) (line : Text) :
    Option.Rel Holds (addLine rand list line) (Strdy.addLine map line) := by
  have sets : ∀ key entry, Option.Rel Holds (do return (← list.set rand key entry).1)
      (some (Function.update map key (some entry))) := by
    intro key entry
    obtain ⟨list', elem, sets, holds'⟩ := holds.set rand key entry
    rw [sets]
    exact .some holds'
  rw [addLine, Strdy.addLine]
  by_cases opens : ascii "(" <+: line
  swap
  · rw [if_pos opens, if_pos opens]
    exact .some holds
  rw [if_neg (not_not_intro opens), if_neg (not_not_intro opens)]
  rcases splitN tab 6 line with _ | ⟨before, _ | ⟨key, _ | ⟨timestamp, _ | ⟨value, _ | ⟨behind,
    _ | ⟨more, _ | ⟨extra, rest⟩⟩⟩⟩⟩⟩⟩
  -- only six fields are a record
  case cons.cons.cons.cons.cons.cons.nil =>
    dsimp only
    by_cases invalid : before ≠ ascii "(" ∨ behind ≠ ascii ")"
    · rw [if_pos invalid, if_pos invalid]
      exact .some holds
    rw [if_neg invalid, if_neg invalid, holds.getValue key]
    have record := sets key (.record ⟨key, timestamp, value⟩)
    cases held : map key with
    | none => exact record
    | some entry =>
      cases entry with
      | bare old => exact .none
      | record old =>
        by_cases obsolete : timestamp < old.timestamp
        · simp only [if_pos obsolete, Option.bind_eq_bind, Option.bind_some]
          exact .some holds
        · simp only [if_neg obsolete, Option.bind_eq_bind, Option.bind_some]
          exact record
  all_goals exact .some holds

theorem addLines_holds (holds : Holds list map) (rand : Nat → Nat → Nat) (i : Nat)
    (lines : List Text) :
    Option.Rel Holds (addLines rand i list lines) (lines.foldlM Strdy.addLine map) := by
  induction lines generalizing list map i with
  | nil => exact .some holds
  | cons line rest inductionHypothesis =>
    rw [addLines, List.foldlM_cons]
    exact rel_bind (addLine_holds holds (rand i) line) fun _ _ holds' =>
      inductionHypothesis holds' (i + 1)

end

/-- The database is the one with this map. -/
def Mirrors (db : DB) (mapped : Strdy.DB) : Prop :=
  Holds db.list mapped.list ∧ db.file = mapped.file

theorem load_mirrors (rand : Nat → Nat → Nat) (file : Text) :
    Option.Rel Mirrors (load rand file) (Strdy.load file) := by
  rw [load, Strdy.load]
  cases scanLines file with
  | none => exact .none
  | some lines =>
    simp only [Option.bind_eq_bind, Option.bind_some]
    exact rel_bind (addLines_holds holds_new rand 0 lines) fun _ _ holds => .some ⟨holds, rfl⟩

theorem step_mirrors {db : DB} {mapped : Strdy.DB} (mirrors : Mirrors db mapped)
    (rand : Nat → Nat) (call : Call) :
    (step db (rand, call)).2 = (Strdy.step mapped call).2 ∧
      Mirrors (step db (rand, call)).1 (Strdy.step mapped call).1 := by
  obtain ⟨holds, file⟩ := mirrors
  cases call with
  | get key =>
    refine ⟨?_, holds, file⟩
    show answer (get db key) = answer (Strdy.get mapped key)
    rw [get, holds.getValue key, Strdy.get]
    cases mapped.list key with
    | none => rfl
    | some entry => cases entry <;> rfl
  | set key value comment ts =>
    obtain ⟨list', elem, sets, holds'⟩ := holds.set rand key (.bare value)
    have made : set rand db key value comment ts =
        some ⟨list', db.file ++ setLine key value comment ts ++ [newline]⟩ := by
      rw [set, sets]
      rfl
    rw [step, made]
    refine ⟨rfl, holds', ?_⟩
    rw [file]
    rfl

theorem mirrors_outputs {db : DB} {mapped : Strdy.DB} (mirrors : Mirrors db mapped)
    (calls : List ((Nat → Nat) × Call)) :
    outputs step db calls = outputs Strdy.step mapped (calls.map Prod.snd) ∧
      (after step db calls).file = (after Strdy.step mapped (calls.map Prod.snd)).file := by
  induction calls generalizing db mapped with
  | nil => exact ⟨rfl, mirrors.2⟩
  | cons call rest inductionHypothesis =>
    obtain ⟨rand, call⟩ := call
    obtain ⟨answers, onward⟩ := step_mirrors mirrors rand call
    obtain ⟨later, file⟩ := inductionHypothesis onward
    exact ⟨congrArg₂ List.cons answers later, file⟩

/-- On its list, the database answers as it does with a map, and writes the same file. -/
theorem outputs_load (rand : Nat → Nat → Nat) (file : Text) (calls : List ((Nat → Nat) × Call)) :
    (load rand file).map (fun db => (outputs step db calls, (after step db calls).file)) =
      (Strdy.load file).map fun db => (outputs Strdy.step db (calls.map Prod.snd),
        (after Strdy.step db (calls.map Prod.snd)).file) :=
  map_eq_of_rel (load_mirrors rand file) fun _ _ mirrors =>
    Prod.ext (mirrors_outputs mirrors calls).1 (mirrors_outputs mirrors calls).2

end Frobio.Strdy.Listed
