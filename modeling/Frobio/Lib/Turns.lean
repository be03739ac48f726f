/-
This file is about a table whose slots are filled in turn, going round when the last slot
has been filled: what is found in a slot is the last item that was put there.
-/

import Mathlib.Data.List.Induction
import Mathlib.Data.List.Nodup
import Mathlib.Data.Nat.ModEq
import Mathlib.Logic.Function.Basic

namespace Frobio.Turns

variable {α : Type}

/-- Put items into the slots of a table in turn. -/
def fill (size : Nat) (table : Nat → Option α) (next : Nat) : List α → Nat → Option α
  | [] => table
  | item :: rest => fill size (Function.update table (next % size) (some item)) (next + 1) rest

section

variable {size : Nat} {table : Nat → Option α} {next next' : Nat}

theorem fill_append (first second : List α) :
    fill size table next (first ++ second) =
      fill size (fill size table next first) (next + first.length) second := by
  induction first generalizing table next with
  | nil => rfl
  | cons item rest inductionHypothesis =>
    show fill size (Function.update table (next % size) (some item)) (next + 1) (rest ++ second) = _
    rw [inductionHypothesis, List.length_cons, Nat.add_assoc, Nat.add_comm 1]
    rfl

theorem fill_concat (first : List α) (last : α) :
    fill size table next (first ++ [last]) =
      Function.update (fill size table next first) ((next + first.length) % size) (some last) :=
  fill_append first [last]

/-- Only the slot where it begins matters. -/
theorem fill_congr (same : next % size = next' % size) (items : List α) :
    fill size table next items = fill size table next' items := by
  induction items using List.reverseRecOn with
  | nil => rfl
  | append_singleton items last inductionHypothesis =>
    rw [fill_concat, fill_concat, inductionHypothesis, Nat.add_mod, same, ← Nat.add_mod]

/-- A slot that an item was put into has the last of those that belong there. -/
theorem exists_fill {items : List α} {i : Nat} (inside : i < items.length) :
    ∃ j item, items[j]? = some item ∧ j % size = i % size ∧
      fill size table next items ((next + i) % size) = some item := by
  induction items using List.reverseRecOn with
  | nil => exact absurd inside (Nat.not_lt_zero i)
  | append_singleton items last inductionHypothesis =>
    rw [fill_concat]
    by_cases here : (next + i) % size = (next + items.length) % size
    · refine ⟨items.length, last, List.getElem?_concat_length, ?_, ?_⟩
      · exact Nat.ModEq.add_left_cancel' next here.symm
      · rw [here, Function.update_self]
    · have before : i < items.length := by
        rw [List.length_append, List.length_singleton] at inside
        refine Nat.lt_of_le_of_ne (Nat.lt_succ_iff.mp inside) fun same => here ?_
        rw [same]
      obtain ⟨j, item, found, turn, filled⟩ := inductionHypothesis before
      refine ⟨j, item, ?_, turn, ?_⟩
      · rw [List.getElem?_append_left (List.getElem?_eq_some_iff.mp found).1, found]
      · rw [Function.update_of_ne here, filled]

end

/-- As many items as there are slots have slots of their own, and more have not. -/
theorem nodup_slots {size : Nat} (some : 0 < size) (next count : Nat) :
    ((List.range count).map fun i => (next + i) % size).Nodup ↔ count ≤ size := by
  constructor
  · intro apart
    by_contra more
    have same := List.inj_on_of_nodup_map apart (List.mem_range.mpr (by omega : 0 < count))
      (List.mem_range.mpr (by omega : size < count)) (by rw [Nat.add_zero, Nat.add_mod_right])
    omega
  · intro fits
    refine (List.nodup_map_iff_inj_on List.nodup_range).mpr ?_
    intro i member j member' same
    have turn : i % size = j % size := Nat.ModEq.add_left_cancel' next same
    rw [List.mem_range] at member member'
    rwa [Nat.mod_eq_of_lt (by omega), Nat.mod_eq_of_lt (by omega)] at turn

end Frobio.Turns
