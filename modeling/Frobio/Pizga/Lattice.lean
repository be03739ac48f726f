/-
This file holds `CanAccess1` against the policy it is for: who may write and who may read,
by the words of the cleaned path. The policy is kept for every principal and every path but
one: for the directory of all the homes there is no second word to look at.
-/

import Frobio.Pizga.Guard

namespace Frobio.Pizga

open Coms SlashPath Utf8

/-! ### The policy -/

/-- The words of a path after cleaning, in upper case. -/
def upperWords (table : UpperCase) (path : Text) : List Text :=
  (cleanWords (rooted path) (path.splitOn slash)).map (toUpper table)

/-- The path is the home of the principal, or below it. -/
def InHome (table : UpperCase) (prin path : Text) : Prop :=
  ∃ rest, upperWords table path = HOMES :: toUpper table prin :: rest

/-- The path is this top-level directory, or below it. -/
def InTree (table : UpperCase) (top path : Text) : Prop :=
  (upperWords table path).head? = some top

/-- What the principals are promised about a path. -/
structure Policy (table : UpperCase) (prin path : Text) : Prop where
  returns : ∀ toWrite, canAccess1 table prin path toWrite ≠ none
  writeAtHome : canAccess1 table prin path true = some true → InHome table prin path
  writeThenRead : canAccess1 table prin path true = some true →
    canAccess1 table prin path false = some true
  privateToOwner : ¬InTree table PUBLIC path → PRIVATE ∈ upperWords table path →
    canAccess1 table prin path false = some true → InHome table prin path
  restricted : prin = [] → InTree table RESTRICTED path →
    canAccess1 table prin path false ≠ some true

/-! ### The words of the code -/

variable {table : UpperCase} {prin path : Text}

/-- The code looks at the words of the cleaned path. Where there are none, for the root and for
the current directory, it looks at an empty word or at a dot. -/
theorem accessWords_cases (table : UpperCase) (path : Text) :
    accessWords table path = upperWords table path ∨
      upperWords table path = [] ∧
        (accessWords table path = [[]] ∨ accessWords table path = [dot]) := by
  have isClean := cleanWords_path path
  rw [accessWords, upperWords, clean]
  cases root : rooted path with
  | true =>
    rw [root] at isClean
    simp only [if_true]
    have split : (toUpper table (slash :: [slash].intercalate (cleanWords true
        (path.splitOn slash)))).splitOn slash =
        [] :: (toUpper table ([slash].intercalate (cleanWords true
          (path.splitOn slash)))).splitOn slash := by
      have front : toUpper table (slash :: [slash].intercalate (cleanWords true
          (path.splitOn slash))) = [] ++ slash :: toUpper table ([slash].intercalate
            (cleanWords true (path.splitOn slash))) := toUpper_append_slash [] _
      rw [front, List.splitOn_append_cons_self]
      rfl
    rw [split]
    by_cases empty : cleanWords true (path.splitOn slash) = []
    · rw [empty]
      exact .inr ⟨rfl, .inl rfl⟩
    · exact .inl (splitOn_toUpper_intercalate isClean.noSlash empty)
  | false =>
    rw [root] at isClean
    simp only [Bool.false_eq_true, if_false]
    by_cases empty : cleanWords false (path.splitOn slash) = []
    · rw [if_pos empty, empty]
      exact .inr ⟨rfl, .inr rfl⟩
    · rw [if_neg empty, splitOn_toUpper_intercalate isClean.noSlash empty]
      left
      cases found : cleanWords false (path.splitOn slash) with
      | nil => exact absurd found empty
      | cons first rest =>
        have nonempty : first ≠ [] := CleanWords.head_ne_nil (found ▸ isClean)
        cases upper : toUpper table first with
        | nil => exact absurd upper (toUpper_ne_nil nonempty)
        | cons byte more => rw [List.map_cons, upper]

theorem accessWords_ne_nil (table : UpperCase) (path : Text) : accessWords table path ≠ [] := by
  rw [accessWords]
  split
  · rename_i words split
    rintro rfl
    have joined : [slash].intercalate ((toUpper table (clean path)).splitOn slash) =
        toUpper table (clean path) := List.intercalate_splitOn slash
    rw [split, List.intercalate_singleton] at joined
    exact toUpper_ne_nil (clean_ne_nil path) joined.symm
  · exact List.splitOn_ne_nil _ _

/-! ### The decisions -/

/-- Only for want of a second word does the code panic. -/
theorem canAccess1_eq_none_iff (toWrite : Bool) :
    canAccess1 table prin path toWrite = none ↔ accessWords table path = [HOMES] := by
  have nonempty := accessWords_ne_nil table path
  rw [canAccess1]
  cases words : accessWords table path with
  | nil => exact absurd words nonempty
  | cons first rest =>
    rw [List.cons.injEq]
    by_cases alone : first = HOMES ∧ rest = []
    · exact iff_of_true (if_pos alone) alone
    · refine iff_of_false (fun panics => ?_) alone
      have decides := (if_neg alone).symm.trans panics
      revert decides
      repeat' split
      all_goals exact Option.some_ne_none _

/-- Who may write may read. -/
theorem read_of_write (writes : canAccess1 table prin path true = some true) :
    canAccess1 table prin path false = some true := by
  obtain ⟨rest, words⟩ := canAccess1_write.mp writes
  have own : HOMES = HOMES ∧
      (toUpper table prin :: rest).head? = some (toUpper table prin) := ⟨rfl, rfl⟩
  have more : ¬(HOMES = HOMES ∧ toUpper table prin :: rest = []) :=
    fun alone => List.cons_ne_nil _ _ alone.2
  rw [canAccess1, words]
  exact (if_neg more).trans (if_pos own)

/-- Outside of PUBLIC, what is private is for the owner of the home only. -/
theorem owner_of_private (outside : (accessWords table path).head? ≠ some PUBLIC)
    (hidden : PRIVATE ∈ accessWords table path)
    (reads : canAccess1 table prin path false = some true) :
    ∃ rest, accessWords table path = HOMES :: toUpper table prin :: rest := by
  rw [canAccess1] at reads
  cases words : accessWords table path with
  | nil =>
    rw [words] at reads
    cases reads
  | cons first rest =>
    rw [words] at reads hidden outside
    have notPublic : first ≠ PUBLIC := fun same => outside (congrArg some same)
    simp only [notPublic, hidden, not_true_eq_false, false_and, and_false, if_false] at reads
    by_cases alone : first = HOMES ∧ rest = []
    · rw [if_pos alone] at reads
      cases reads
    · rw [if_neg alone] at reads
      by_cases own : first = HOMES ∧ rest.head? = some (toUpper table prin)
      · obtain ⟨more, rfl⟩ := List.head?_eq_some_iff.mp own.2
        exact ⟨more, by rw [own.1]⟩
      · rw [if_neg own, ite_self] at reads
        cases reads

/-- Anyone without a name reads nothing under RESTRICTED. -/
theorem anonymous_restricted (inside : (accessWords table path).head? = some RESTRICTED) :
    canAccess1 table [] path false = some false := by
  obtain ⟨rest, words⟩ := List.head?_eq_some_iff.mp inside
  have notHomes : RESTRICTED ≠ HOMES := by decide
  have notPublic : RESTRICTED ≠ PUBLIC := by decide
  rw [canAccess1, words, toUpper_nil]
  simp only [notHomes, notPublic, false_and, if_false, true_and, if_true]

/-! ### The law -/

/-- The policy is kept but for the directory of the homes. -/
theorem policy_iff (table : UpperCase) (prin path : Text) :
    Policy table prin path ↔ upperWords table path ≠ [HOMES] := by
  have shape := accessWords_cases table path
  constructor
  · intro kept alone
    have words : accessWords table path = [HOMES] := by
      rcases shape with same | ⟨empty, -⟩
      · rw [same, alone]
      · rw [alone] at empty
        cases empty
    exact kept.returns false ((canAccess1_eq_none_iff false).mpr words)
  · intro notAlone
    have atHome : ∀ rest, accessWords table path = HOMES :: toUpper table prin :: rest →
        InHome table prin path := by
      intro rest words
      rcases shape with same | ⟨-, single | single⟩
      · exact ⟨rest, same ▸ words⟩
      · cases single.symm.trans words
      · cases single.symm.trans words
    refine ⟨fun toWrite panics => ?_, fun writes => ?_, read_of_write, ?_, ?_⟩
    · have words := (canAccess1_eq_none_iff toWrite).mp panics
      rcases shape with same | ⟨-, single | single⟩
      · exact notAlone (same.symm.trans words)
      · exact absurd (single.symm.trans words) (by decide)
      · exact absurd (single.symm.trans words) (by decide)
    · obtain ⟨rest, words⟩ := canAccess1_write.mp writes
      exact atHome rest words
    · intro outside hidden reads
      rcases shape with same | ⟨empty, -⟩
      · rw [InTree, ← same] at outside
        rw [← same] at hidden
        obtain ⟨rest, words⟩ := owner_of_private outside hidden reads
        exact atHome rest words
      · rw [empty] at hidden
        cases hidden
    · rintro rfl inside reads
      rcases shape with same | ⟨empty, -⟩
      · rw [InTree, ← same] at inside
        rw [anonymous_restricted inside] at reads
        cases reads
      · rw [InTree, empty] at inside
        cases inside

/-- The server panics when anyone asks for the homes. -/
theorem not_policy_homes : ¬Policy plainUpper (ascii "strick") (ascii "/Homes") := by
  intro kept
  exact kept.returns false (by decide +kernel)

end Frobio.Pizga
