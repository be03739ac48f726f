/-
This file is about reading a list up to a delimiter: `upTo` is the shortest beginning that ends
with it, or all of the list where it does not occur.
-/

import Mathlib.Data.List.Basic
import Mathlib.Tactic

namespace Frobio.Delimited

variable {Cell : Type} [DecidableEq Cell]

/-- The cells up to the first delimiter, with it. -/
def upTo (delimiter : Cell) : List Cell → List Cell
  | [] => []
  | cell :: rest => if cell = delimiter then [cell] else cell :: upTo delimiter rest

/-- It ends with the delimiter, which it has nowhere else. -/
def EndsAt (delimiter : Cell) (l : List Cell) : Prop :=
  l.getLast? = some delimiter ∧ delimiter ∉ l.dropLast

instance (delimiter : Cell) (l : List Cell) : Decidable (EndsAt delimiter l) :=
  inferInstanceAs (Decidable (_ ∧ _))

variable {delimiter other : Cell} {l front back : List Cell}

theorem upTo_cons_self (rest : List Cell) : upTo delimiter (delimiter :: rest) = [delimiter] :=
  if_pos rfl

theorem upTo_cons_of_ne {cell : Cell} (apart : cell ≠ delimiter) (rest : List Cell) :
    upTo delimiter (cell :: rest) = cell :: upTo delimiter rest := if_neg apart

theorem upTo_eq_nil_iff : upTo delimiter l = [] ↔ l = [] := by
  cases l with
  | nil => exact ⟨fun _ => rfl, fun _ => rfl⟩
  | cons cell rest =>
    refine ⟨fun empty => ?_, fun empty => absurd empty (List.cons_ne_nil _ _)⟩
    rw [upTo] at empty
    split at empty
    · exact absurd empty (List.cons_ne_nil _ _)
    · exact absurd empty (List.cons_ne_nil _ _)

theorem upTo_first (delimiter : Cell) (l : List Cell) : upTo delimiter l <+: l := by
  induction l with
  | nil => exact List.prefix_refl _
  | cons cell rest inductionHypothesis =>
    rw [upTo]
    split
    · exact ⟨rest, rfl⟩
    · exact (List.prefix_cons_inj cell).mpr inductionHypothesis

theorem upTo_take (delimiter : Cell) (l : List Cell) (limit : Nat) :
    upTo delimiter (l.take limit) = (upTo delimiter l).take limit := by
  induction l generalizing limit with
  | nil => rw [List.take_nil, upTo, List.take_nil]
  | cons cell rest inductionHypothesis =>
    cases limit with
    | zero => rfl
    | succ limit =>
      rw [List.take_succ_cons, upTo, upTo]
      split
      · rw [List.take_succ_cons, List.take_nil]
      · rw [List.take_succ_cons, inductionHypothesis]

theorem upTo_append_of_mem (member : delimiter ∈ front) (back : List Cell) :
    upTo delimiter (front ++ back) = upTo delimiter front := by
  induction front with
  | nil => exact absurd member List.not_mem_nil
  | cons cell rest inductionHypothesis =>
    rw [List.cons_append]
    by_cases here : cell = delimiter
    · rw [here, upTo_cons_self, upTo_cons_self]
    · have later := (List.mem_cons.mp member).resolve_left (Ne.symm here)
      rw [upTo_cons_of_ne here, upTo_cons_of_ne here, inductionHypothesis later]

theorem upTo_append_of_not_mem (absent : delimiter ∉ front) (back : List Cell) :
    upTo delimiter (front ++ back) = front ++ upTo delimiter back := by
  induction front with
  | nil => rfl
  | cons cell rest inductionHypothesis =>
    have apart : cell ≠ delimiter := fun same => absent (same ▸ List.mem_cons_self)
    rw [List.cons_append, upTo_cons_of_ne apart,
      inductionHypothesis fun later => absent (List.mem_cons_of_mem _ later), List.cons_append]

theorem upTo_of_not_mem (absent : delimiter ∉ l) : upTo delimiter l = l := by
  have all := upTo_append_of_not_mem absent []
  rw [List.append_nil] at all
  exact all.trans (List.append_nil l)

theorem dropLast_cons_of_ne_nil (cell : Cell) (more : l ≠ []) :
    (cell :: l).dropLast = cell :: l.dropLast := by
  obtain ⟨next, rest, rfl⟩ := List.exists_cons_of_ne_nil more
  rfl

theorem getLast?_cons_of_ne_nil (cell : Cell) (more : l ≠ []) :
    (cell :: l).getLast? = l.getLast? := by
  obtain ⟨next, rest, rfl⟩ := List.exists_cons_of_ne_nil more
  rfl

/-- What is read up to the delimiter ends with it. -/
theorem endsAt_upTo (member : delimiter ∈ l) : EndsAt delimiter (upTo delimiter l) := by
  induction l with
  | nil => exact absurd member List.not_mem_nil
  | cons cell rest inductionHypothesis =>
    by_cases here : cell = delimiter
    · rw [here, upTo_cons_self]
      exact ⟨rfl, List.not_mem_nil⟩
    · have later := (List.mem_cons.mp member).resolve_left (Ne.symm here)
      obtain ⟨last, nowhere⟩ := inductionHypothesis later
      have more : upTo delimiter rest ≠ [] := fun empty =>
        List.ne_nil_of_mem later (upTo_eq_nil_iff.mp empty)
      rw [upTo_cons_of_ne here]
      refine ⟨(getLast?_cons_of_ne_nil cell more).trans last, ?_⟩
      rw [dropLast_cons_of_ne_nil cell more]
      exact fun found => (List.mem_cons.mp found).elim (Ne.symm here) nowhere

theorem EndsAt.mem (ends : EndsAt delimiter l) : delimiter ∈ l := List.mem_of_getLast? ends.1

/-- A beginning that ends with the delimiter, and has it nowhere else, is the shortest one. -/
theorem EndsAt.eq_upTo (ends : EndsAt delimiter front) (begins : front <+: l) :
    front = upTo delimiter l := by
  obtain ⟨back, rfl⟩ := begins
  rw [upTo_append_of_mem ends.mem]
  obtain ⟨init, rfl⟩ := List.getLast?_eq_some_iff.mp ends.1
  have absent := ends.2
  rw [List.dropLast_concat] at absent
  rw [upTo_append_of_not_mem absent, upTo_cons_self]

theorem upTo_upTo (delimiter : Cell) (l : List Cell) :
    upTo delimiter (upTo delimiter l) = upTo delimiter l := by
  by_cases member : delimiter ∈ l
  · exact ((endsAt_upTo member).eq_upTo (List.prefix_refl _)).symm
  · rw [upTo_of_not_mem member, upTo_of_not_mem member]

theorem upTo_eq_self_iff : upTo delimiter l = l ↔ delimiter ∉ l.dropLast := by
  refine ⟨fun all => ?_, fun absent => ?_⟩
  · by_cases member : delimiter ∈ l
    · rw [← all]
      exact (endsAt_upTo member).2
    · exact fun found => member (List.dropLast_subset l found)
  · by_cases empty : l = []
    · rw [empty]
      rfl
    · have split := List.dropLast_append_getLast empty
      rw [← split, upTo_append_of_not_mem absent]
      refine congrArg (l.dropLast ++ ·) ?_
      rw [upTo]
      exact ite_self _

/-- Two delimiters read the same only where they read everything. -/
theorem upTo_eq_upTo_iff (apart : delimiter ≠ other) :
    upTo delimiter l = upTo other l ↔ upTo delimiter l = l ∧ upTo other l = l := by
  refine ⟨fun same => ?_, fun both => both.1.trans both.2.symm⟩
  by_cases member : delimiter ∈ l
  · have last := (endsAt_upTo member).1
    rw [same] at last
    have absent : other ∉ l := by
      intro found
      have last' := (endsAt_upTo found).1
      rw [last] at last'
      exact apart (Option.some.inj last')
    have all := upTo_of_not_mem absent
    exact ⟨same.trans all, all⟩
  · have all := upTo_of_not_mem member
    exact ⟨all, same.symm.trans all⟩

end Frobio.Delimited
