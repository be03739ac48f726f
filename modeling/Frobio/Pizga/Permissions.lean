/-
This file models `lemma/permissions.go`: which principal may read or write which path of
the tree. The anonymous principal has the empty name.
-/

import Frobio.Coms.Quint
import Frobio.Lib.Utf8

namespace Frobio.Pizga

open Coms SlashPath Utf8

def HOMES : Text := ascii "HOMES"
def PUBLIC : Text := ascii "PUBLIC"
def PRIVATE : Text := ascii "PRIVATE"
def RESTRICTED : Text := ascii "RESTRICTED"

/-- The words `CanAccess1` looks at. -/
def accessWords (table : UpperCase) (path : Text) : List Text :=
  match (toUpper table (clean path)).splitOn slash with
  | [] :: words => words
  | words => words

/-- `CanAccess1`. `none` is a panic: there is no word after the first. -/
def canAccess1 (table : UpperCase) (prin path : Text) (toWrite : Bool) : Option Bool :=
  let prin := toUpper table prin
  let words := accessWords table path
  match words with
  | [] => none
  | first :: rest =>
    if first = HOMES ∧ rest = [] then none
    -- can read or write under their home
    else if first = HOMES ∧ rest.head? = some prin then some true
    -- anyone can read under /public
    else if first = PUBLIC ∧ toWrite = false then some true
    -- anonymous cannot read or write /restricted
    else if first = RESTRICTED ∧ prin = [] then some false
    else if PUBLIC ∈ words ∧ PRIVATE ∉ words ∧ toWrite = false then some true
    -- not private, so readable by all except anon
    else if prin ≠ [] ∧ PRIVATE ∉ words ∧ toWrite = false then some true
    else some false

/-- `CanAccess`: one of the principals can. -/
def canAccess (table : UpperCase) : List Text → Text → Bool → Option Bool
  | [], _, _ => some false
  | prin :: principals, path, toWrite =>
    match canAccess1 table prin path toWrite with
    | none => none
    | some true => some true
    | some false => canAccess table principals path toWrite

/-! ### Clean paths -/

variable {table : UpperCase}

theorem accessWords_below {names : List Text} (each : ∀ name ∈ names, Name name)
    (some : names ≠ []) (isClean : clean (below names) = below names) :
    accessWords table (below names) = names.map (toUpper table) := by
  have noSlash : ∀ name ∈ names, slash ∉ name := fun name member => (each name member).2.2.2
  have split : (toUpper table (below names)).splitOn slash = [] :: names.map (toUpper table) := by
    have upper : toUpper table (below names) =
        [] ++ slash :: toUpper table ([slash].intercalate names) :=
      toUpper_append_slash [] _
    rw [upper, List.splitOn_append_cons_self, splitOn_toUpper_intercalate noSlash some]
    rfl
  rw [accessWords, isClean, split]

/-- Only under their own home does anyone write. -/
theorem canAccess1_write {prin path : Text} :
    canAccess1 table prin path true = some true ↔
      ∃ rest, accessWords table path = HOMES :: toUpper table prin :: rest := by
  rw [canAccess1]
  cases accessWords table path with
  | nil => exact iff_of_false nofun fun ⟨rest, same⟩ => nomatch same
  | cons first others =>
    simp only [Bool.true_eq_false, and_false, if_false, ite_self]
    by_cases alone : first = HOMES ∧ others = []
    · rw [if_pos alone, alone.2]
      exact iff_of_false nofun fun ⟨rest, same⟩ => nomatch same
    · rw [if_neg alone]
      by_cases own : first = HOMES ∧ others.head? = some (toUpper table prin)
      · rw [if_pos own]
        obtain ⟨rest, rfl⟩ := List.head?_eq_some_iff.mp own.2
        exact iff_of_true rfl ⟨rest, by rw [own.1]⟩
      · rw [if_neg own]
        refine iff_of_false (by decide) fun ⟨rest, same⟩ => own ?_
        obtain ⟨rfl, rfl⟩ := List.cons.inj same
        exact ⟨rfl, rfl⟩

end Frobio.Pizga
