/-
This file is about a memory that is read and written in runs of cells: `load` reads
some cells from an address on, and `store` replaces them.

A memory is a function from addresses, so that what a store leaves alone is a
statement about single addresses, and what it changes one about the run it writes.
-/

import Mathlib.Data.List.Basic
import Mathlib.Tactic

namespace Frobio.Memory

variable {Cell : Type}

/-- The cells from the address on. -/
def load (memory : Nat → Cell) (address count : Nat) : List Cell :=
  (List.range count).map fun i => memory (address + i)

/-- Replace the cells from the address on. -/
def store (memory : Nat → Cell) (address : Nat) (data : List Cell) : Nat → Cell := fun a =>
  if address ≤ a then data.getD (a - address) (memory a) else memory a

@[simp] theorem length_load (memory : Nat → Cell) (address count : Nat) :
    (load memory address count).length = count := by
  rw [load, List.length_map, List.length_range]

@[simp] theorem load_zero (memory : Nat → Cell) (address : Nat) : load memory address 0 = [] := rfl

theorem getElem?_load (memory : Nat → Cell) (address : Nat) {count i : Nat} (inside : i < count) :
    (load memory address count)[i]? = some (memory (address + i)) := by
  rw [load, List.getElem?_map, List.getElem?_range inside, Option.map_some]

/-- Cells that are the same one by one load the same. -/
theorem load_congr {first second : Nat → Cell} {address address' count : Nat}
    (same : ∀ i < count, first (address + i) = second (address' + i)) :
    load first address count = load second address' count := by
  rw [load, load]
  refine List.map_congr_left fun i member => ?_
  exact same i (List.mem_range.mp member)

theorem load_add (memory : Nat → Cell) (address first second : Nat) :
    load memory address (first + second) =
      load memory address first ++ load memory (address + first) second := by
  rw [load, List.range_add, List.map_append, List.map_map, load, load]
  refine congrArg _ (List.map_congr_left fun i _ => ?_)
  rw [Function.comp_apply, Nat.add_assoc]

theorem load_succ (memory : Nat → Cell) (address count : Nat) :
    load memory address (count + 1) = memory address :: load memory (address + 1) count := by
  rw [Nat.add_comm, load_add]
  rfl

theorem take_load (memory : Nat → Cell) (address : Nat) {count n : Nat} (fits : n ≤ count) :
    (load memory address count).take n = load memory address n := by
  obtain ⟨more, rfl⟩ := Nat.exists_eq_add_of_le fits
  rw [load_add, List.take_left' (length_load ..)]

theorem store_apply_of_lt (memory : Nat → Cell) {address i : Nat} {data : List Cell}
    (inside : i < data.length) : store memory address data (address + i) = data[i] := by
  rw [store, if_pos (Nat.le_add_right _ _), Nat.add_sub_cancel_left,
    List.getD_eq_getElem?_getD, List.getElem?_eq_getElem inside, Option.getD_some]

theorem store_apply_of_before (memory : Nat → Cell) {address a : Nat} (data : List Cell)
    (before : a < address) : store memory address data a = memory a :=
  if_neg (Nat.not_le.mpr before)

theorem store_apply_of_after (memory : Nat → Cell) {address a : Nat} {data : List Cell}
    (after : address + data.length ≤ a) : store memory address data a = memory a := by
  rw [store]
  split
  · rw [List.getD_eq_getElem?_getD, List.getElem?_eq_none (by omega), Option.getD_none]
  · rfl

@[simp] theorem store_nil (memory : Nat → Cell) (address : Nat) :
    store memory address [] = memory := by
  funext a
  rw [store]
  split
  · rfl
  · rfl

/-- A store in two pieces. -/
theorem store_append (memory : Nat → Cell) (address : Nat) (first second : List Cell) :
    store (store memory address first) (address + first.length) second =
      store memory address (first ++ second) := by
  funext a
  by_cases before : a < address
  · rw [store_apply_of_before _ _ before, store_apply_of_before _ _ (by omega),
      store_apply_of_before _ _ before]
  by_cases low : a < address + first.length
  · obtain ⟨i, rfl⟩ := Nat.exists_eq_add_of_le (Nat.not_lt.mp before)
    have inside : i < first.length := by omega
    rw [store_apply_of_before _ _ low, store_apply_of_lt _ inside,
      store_apply_of_lt _ (by rw [List.length_append]; omega), List.getElem_append_left inside]
  by_cases high : a < address + first.length + second.length
  · obtain ⟨i, rfl⟩ := Nat.exists_eq_add_of_le (Nat.not_lt.mp low)
    have inside : i < second.length := by omega
    rw [store_apply_of_lt _ inside, Nat.add_assoc,
      store_apply_of_lt _ (by rw [List.length_append]; omega),
      List.getElem_append_right (Nat.le_add_right _ _)]
    simp
  · rw [store_apply_of_after _ (by omega), store_apply_of_after _ (by omega),
      store_apply_of_after _ (by rw [List.length_append]; omega)]

theorem load_store_self (memory : Nat → Cell) (address : Nat) (data : List Cell) :
    load (store memory address data) address data.length = data := by
  refine List.ext_getElem (length_load ..) fun i _ inside => ?_
  simp only [load]
  rw [List.getElem_map, List.getElem_range, store_apply_of_lt _ inside]

/-- A store leaves the runs alone that it does not touch. -/
theorem load_store_of_apart (memory : Nat → Cell) {address other count : Nat} {data : List Cell}
    (apart : other + count ≤ address ∨ address + data.length ≤ other) :
    load (store memory address data) other count = load memory other count := by
  refine load_congr fun i inside => ?_
  rcases apart with before | after
  · exact store_apply_of_before _ _ (by omega)
  · exact store_apply_of_after _ (by omega)

/-! ### Flags -/

/-- A flag is set in what two registers have together if it is set in one of them. -/
theorem or_and_bits (first second mask : UInt8) :
    (first ||| second) &&& mask = (first &&& mask) ||| (second &&& mask) :=
  UInt8.toBitVec_inj.mp BitVec.and_or_distrib_right

end Frobio.Memory
