/-
This file is about files as an operating system keeps them: a list of bytes that
is read and written at an offset.

A read past the end is short, and a write past the end leaves a gap that reads as
`fill`. So a file is best described by what is found at each position, the
position past the end included: `getD_writeAt` says what a write changes there
and what it leaves alone, and the other facts follow from it and from the length.
-/

import Mathlib.Data.List.Basic
import Mathlib.Tactic

namespace Frobio.Positional

variable {α : Type}

/-- At most `count` elements, from the offset on. -/
def readAt (offset count : Nat) (file : List α) : List α := (file.drop offset).take count

/-- Store the data at the offset. Nothing at all is no reason to extend a file. -/
def writeAt (fill : α) (offset : Nat) (data file : List α) : List α :=
  match data with
  | [] => file
  | _ :: _ =>
    file.take offset ++ List.replicate (offset - file.length) fill ++ data ++
      file.drop (offset + data.length)

theorem length_readAt (offset count : Nat) (file : List α) :
    (readAt offset count file).length = min count (file.length - offset) := by
  rw [readAt, List.length_take, List.length_drop]

@[simp] theorem writeAt_nil (fill : α) (offset : Nat) (file : List α) :
    writeAt fill offset [] file = file := rfl

theorem writeAt_of_ne_nil (fill : α) (offset : Nat) {data : List α} (file : List α)
    (some : data ≠ []) : writeAt fill offset data file =
      file.take offset ++ List.replicate (offset - file.length) fill ++ data ++
        file.drop (offset + data.length) := by
  cases data with
  | nil => exact absurd rfl some
  | cons => rfl

theorem length_writeAt (fill : α) (offset : Nat) {data : List α} (file : List α)
    (some : data ≠ []) :
    (writeAt fill offset data file).length = max file.length (offset + data.length) := by
  rw [writeAt_of_ne_nil fill offset file some]
  simp only [List.length_append, List.length_take, List.length_replicate, List.length_drop]
  omega

/-- A write never makes a file shorter. -/
theorem length_le_writeAt (fill : α) (offset : Nat) (data file : List α) :
    file.length ≤ (writeAt fill offset data file).length := by
  by_cases empty : data = []
  · rw [empty, writeAt_nil]
  · rw [length_writeAt fill offset file empty]
    exact Nat.le_max_left _ _

/-! ### Position by position -/

theorem getD_readAt (fill : α) (offset count : Nat) (file : List α) (position : Nat) :
    (readAt offset count file).getD position fill =
      if position < count then file.getD (offset + position) fill else fill := by
  simp only [readAt, List.getD_eq_getElem?_getD, List.getElem?_take, List.getElem?_drop]
  split <;> rfl

/-- A write changes the positions it covers and no other, the positions past the end included. -/
theorem getD_writeAt (fill : α) (offset : Nat) (data file : List α) (position : Nat) :
    (writeAt fill offset data file).getD position fill =
      if offset ≤ position ∧ position < offset + data.length then
        data.getD (position - offset) fill
      else file.getD position fill := by
  by_cases empty : data = []
  · subst empty
    rw [writeAt_nil, if_neg (by rw [List.length_nil]; omega)]
  rw [writeAt_of_ne_nil fill offset file empty]
  have before : (file.take offset ++ List.replicate (offset - file.length) fill).length =
      offset := by
    simp only [List.length_append, List.length_take, List.length_replicate]
    omega
  simp only [List.getD_eq_getElem?_getD]
  by_cases early : position < offset
  · rw [if_neg (by omega), List.append_assoc, List.getElem?_append_left (by omega)]
    by_cases inside : position < file.length
    · rw [List.getElem?_append_left (by rw [List.length_take]; omega), List.getElem?_take,
        if_pos early]
    · rw [List.getElem?_append_right (by rw [List.length_take]; omega), List.getElem?_replicate,
        List.getElem?_eq_none (by omega)]
      split <;> rfl
  · by_cases covered : position < offset + data.length
    · rw [if_pos ⟨by omega, covered⟩, List.getElem?_append_left
        (by rw [List.length_append, before]; omega), List.getElem?_append_right (by omega), before]
    · rw [if_neg (by omega), List.getElem?_append_right (by rw [List.length_append, before]; omega),
        List.length_append, before, List.getElem?_drop]
      congr 2
      omega

/-- What was written is read back. -/
theorem readAt_writeAt (fill : α) (offset : Nat) (data file : List α) :
    readAt offset data.length (writeAt fill offset data file) = data := by
  cases data with
  | nil => rfl
  | cons first rest =>
    have before : (file.take offset ++ List.replicate (offset - file.length) fill).length =
        offset := by
      simp only [List.length_append, List.length_take, List.length_replicate]
      omega
    rw [readAt, writeAt_of_ne_nil fill offset file (by simp), List.append_assoc,
      List.drop_left' before, List.take_left]

/-! ### Writes inside a file -/

/-- A write that does not extend the file. -/
theorem writeAt_of_inside (fill : α) {offset : Nat} {data file : List α}
    (inside : offset + data.length ≤ file.length) :
    writeAt fill offset data file = file.take offset ++ (data ++ file.drop (offset + data.length)) := by
  cases data with
  | nil =>
    rw [writeAt_nil, List.nil_append, List.length_nil, Nat.add_zero, List.take_append_drop]
  | cons first rest =>
    rw [writeAt_of_ne_nil fill offset file (List.cons_ne_nil first rest),
      Nat.sub_eq_zero_of_le (by omega), List.replicate_zero, List.append_nil, List.append_assoc]

theorem getElem?_writeAt_of_apart (fill : α) {offset position : Nat} {data file : List α}
    (inside : offset + data.length ≤ file.length)
    (apart : position < offset ∨ offset + data.length ≤ position) :
    (writeAt fill offset data file)[position]? = file[position]? := by
  have before : (file.take offset).length = offset := by
    rw [List.length_take]
    omega
  rw [writeAt_of_inside fill inside]
  rcases apart with early | late
  · rw [List.getElem?_append_left (by omega), List.getElem?_take, if_pos early]
  · rw [List.getElem?_append_right (by omega), before, List.getElem?_append_right (by omega),
      List.getElem?_drop]
    congr 1
    omega

/-- Reading elsewhere than what was written. -/
theorem readAt_writeAt_of_apart (fill : α) {offset other count : Nat} {data file : List α}
    (inside : offset + data.length ≤ file.length)
    (apart : other + count ≤ offset ∨ offset + data.length ≤ other) :
    readAt other count (writeAt fill offset data file) = readAt other count file := by
  refine List.ext_getElem? fun i => ?_
  simp only [readAt, List.getElem?_take, List.getElem?_drop]
  by_cases near : i < count
  · rw [if_pos near, if_pos near]
    exact getElem?_writeAt_of_apart fill inside (by omega)
  · rw [if_neg near, if_neg near]

end Frobio.Positional
