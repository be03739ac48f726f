/-
This file is about a ring of cells in a memory, at addresses `base` to
`base + size - 1`. Positions on the ring are counted without end, and the cell of a
position is the one at its remainder by `size`.

`put` writes a run of cells as a program does, in one piece, or in two if the run
reaches the end of the ring, and `get` reads one the same way. `get_eq_window` and
`put_apply` say what they mean position by position, and the rest is about positions.
-/

import Frobio.Lib.Memory

namespace Frobio.Ring

open Memory

variable {Cell : Type}

/-- The cells of `count` positions from `start` on. -/
def window (base size : Nat) (memory : Nat → Cell) (start count : Nat) : List Cell :=
  (List.range count).map fun i => memory (base + (start + i) % size)

/-- Read `count` cells from the offset `begin` of the ring on. -/
def get (base size : Nat) (memory : Nat → Cell) (start count : Nat) : List Cell :=
  if size ≤ start + count then
    load memory (base + start) (size - start) ++ load memory base (count - (size - start))
  else load memory (base + start) count

/-- Write the cells from the offset `begin` of the ring on. -/
def put (base size : Nat) (memory : Nat → Cell) (start : Nat) (data : List Cell) : Nat → Cell :=
  if size ≤ start + data.length then
    store (store memory (base + start) (data.take (size - start))) base (data.drop (size - start))
  else store memory (base + start) data

section

variable {base size : Nat} {memory : Nat → Cell}

@[simp] theorem length_window (start count : Nat) :
    (window base size memory start count).length = count := by
  rw [window, List.length_map, List.length_range]

@[simp] theorem window_zero (start : Nat) : window base size memory start 0 = [] := rfl

theorem window_congr {memory' : Nat → Cell} {start start' count : Nat}
    (same : ∀ i < count, memory (base + (start + i) % size) = memory' (base + (start' + i) % size)) :
    window base size memory start count = window base size memory' start' count := by
  rw [window, window]
  exact List.map_congr_left fun i member => same i (List.mem_range.mp member)

/-- Only the remainder of a position counts. -/
theorem window_mod {start start' : Nat} (count : Nat) (same : start % size = start' % size) :
    window base size memory start count = window base size memory start' count := by
  refine window_congr fun i _ => ?_
  rw [Nat.add_mod, same, ← Nat.add_mod]

theorem window_add (start first second : Nat) :
    window base size memory start (first + second) =
      window base size memory start first ++ window base size memory (start + first) second := by
  rw [window, List.range_add, List.map_append, List.map_map, window, window]
  refine congrArg _ (List.map_congr_left fun i _ => ?_)
  rw [Function.comp_apply, Nat.add_assoc]

/-- Up to the end of the ring, a run is read as it stands in the memory. -/
theorem get_eq_load {start count : Nat} (inside : start + count ≤ size) :
    get base size memory start count = load memory (base + start) count := by
  rw [get]
  split
  · rename_i wraps
    obtain rfl : count = size - start := by omega
    rw [Nat.sub_self, load_zero, List.append_nil]
  · rfl

theorem put_eq_store {start : Nat} {data : List Cell} (inside : start + data.length ≤ size) :
    put base size memory start data = store memory (base + start) data := by
  rw [put]
  split
  · rename_i wraps
    rw [List.take_of_length_le (by omega), List.drop_of_length_le (by omega), store_nil]
  · rfl

theorem get_eq_window {start count : Nat} (inside : start < size) (fits : count ≤ size) :
    get base size memory start count = window base size memory start count := by
  rw [get]
  split
  · rename_i wraps
    have split : count = (size - start) + (count - (size - start)) := by omega
    conv_rhs => rw [split, window_add]
    refine congrArg₂ _ (List.map_congr_left fun i member => ?_)
      (List.map_congr_left fun i member => ?_)
    · have below := List.mem_range.mp member
      rw [Nat.mod_eq_of_lt (by omega), Nat.add_assoc]
    · have below := List.mem_range.mp member
      rw [show start + (size - start) + i = i + size by omega, Nat.add_mod_right,
        Nat.mod_eq_of_lt (by omega)]
  · rename_i straight
    refine List.map_congr_left fun i member => ?_
    have below := List.mem_range.mp member
    rw [Nat.mod_eq_of_lt (by omega), Nat.add_assoc]

/-- Before the write's first position and after its last, within one round, nothing changes. -/
theorem put_apply_of_le {start i : Nat} {data : List Cell} (inside : start < size)
    (after : data.length ≤ i) (round : i < size) :
    put base size memory start data (base + (start + i) % size) =
      memory (base + (start + i) % size) := by
  rw [put]
  split
  · rename_i wraps
    have offset : (start + i) % size = start + i - size := by
      rw [Nat.mod_eq_sub_mod (by omega), Nat.mod_eq_of_lt (by omega)]
    rw [offset, store_apply_of_after _ (by rw [List.length_drop]; omega),
      store_apply_of_before _ _ (by omega)]
  · rename_i straight
    by_cases past : size ≤ start + i
    · have offset : (start + i) % size = start + i - size := by
        rw [Nat.mod_eq_sub_mod past, Nat.mod_eq_of_lt (by omega)]
      rw [offset, store_apply_of_before _ _ (by omega)]
    · rw [Nat.mod_eq_of_lt (by omega), store_apply_of_after _ (by omega)]

theorem put_apply_of_lt {start i : Nat} {data : List Cell} (inside : start < size)
    (fits : data.length ≤ size) (here : i < data.length) :
    put base size memory start data (base + (start + i) % size) = data[i] := by
  rw [put]
  split
  · rename_i wraps
    by_cases past : size ≤ start + i
    · have offset : (start + i) % size = i - (size - start) := by
        rw [Nat.mod_eq_sub_mod past, Nat.mod_eq_of_lt (by omega)]
        omega
      rw [offset, store_apply_of_lt _ (by rw [List.length_drop]; omega), List.getElem_drop]
      congr 1
      omega
    · have low : i < (data.take (size - start)).length := by
        rw [List.length_take]
        omega
      rw [Nat.mod_eq_of_lt (by omega),
        store_apply_of_after _ (by rw [List.length_drop]; omega), ← Nat.add_assoc,
        store_apply_of_lt _ low, List.getElem_take]
  · rename_i straight
    rw [Nat.mod_eq_of_lt (by omega), ← Nat.add_assoc, store_apply_of_lt _ here]

/-- Nothing changes outside of the ring. -/
theorem put_apply_of_outside {start a : Nat} {data : List Cell} (inside : start < size)
    (fits : data.length ≤ size) (outside : a < base ∨ base + size ≤ a) :
    put base size memory start data a = memory a := by
  rw [put]
  split
  · rename_i wraps
    rcases outside with before | after
    · rw [store_apply_of_before _ _ before, store_apply_of_before _ _ (by omega)]
    · rw [store_apply_of_after _ (by rw [List.length_drop]; omega),
        store_apply_of_after _ (by rw [List.length_take]; omega)]
  · rename_i straight
    rcases outside with before | after
    · exact store_apply_of_before _ _ (by omega)
    · exact store_apply_of_after _ (by omega)

/-- What was put is in the window it was put in. -/
theorem window_put_self {start : Nat} {data : List Cell} (inside : start < size)
    (fits : data.length ≤ size) :
    window base size (put base size memory start data) start data.length = data := by
  refine List.ext_getElem (length_window ..) fun i _ here => ?_
  simp only [window]
  rw [List.getElem_map, List.getElem_range, put_apply_of_lt inside fits here]

/-- A put after a window, within one round from its start, leaves the window alone. -/
theorem window_put_of_before {start count : Nat} {data : List Cell} (sized : 0 < size)
    (round : count + data.length ≤ size) :
    window base size (put base size memory ((start + count) % size) data) start count =
      window base size memory start count := by
  refine window_congr fun i here => ?_
  have same : (start + i) % size = ((start + count) % size + (i + (size - count))) % size := by
    rw [Nat.mod_add_mod, show start + count + (i + (size - count)) = start + i + size by omega,
      Nat.add_mod_right]
  rw [same]
  exact put_apply_of_le (Nat.mod_lt _ sized) (by omega) (by omega)

/-- A ring that the put is outside of keeps its windows. -/
theorem window_put_of_apart {other start start' count : Nat} {data : List Cell} (sized : 0 < size)
    (inside : start < size) (fits : data.length ≤ size)
    (apart : other + size ≤ base ∨ base + size ≤ other) :
    window other size (put base size memory start data) start' count =
      window other size memory start' count := by
  refine window_congr fun i _ => ?_
  have below := Nat.mod_lt (start' + i) sized
  refine put_apply_of_outside inside fits ?_
  omega

/-- Every address of the ring is some positions after any other. -/
theorem exists_position {start a : Nat} (inside : start < size) (low : base ≤ a)
    (high : a < base + size) : ∃ i < size, a = base + (start + i) % size := by
  refine ⟨(a - base + (size - start)) % size, Nat.mod_lt _ (by omega), ?_⟩
  rw [Nat.add_mod_mod, show start + (a - base + (size - start)) = a - base + size by omega,
    Nat.add_mod_right, Nat.mod_eq_of_lt (by omega)]
  omega

/-- A put in two pieces. -/
theorem put_append {start : Nat} {first second : List Cell} (inside : start < size)
    (fits : first.length + second.length ≤ size) :
    put base size (put base size memory start first) ((start + first.length) % size) second =
      put base size memory start (first ++ second) := by
  have sized : 0 < size := by omega
  have inside' := Nat.mod_lt (start + first.length) sized
  have all : (first ++ second).length = first.length + second.length := List.length_append
  funext a
  by_cases ring : base ≤ a ∧ a < base + size
  · obtain ⟨i, round, rfl⟩ := exists_position inside ring.1 ring.2
    by_cases early : i < first.length
    · have later : (start + i) % size =
          ((start + first.length) % size + (i + (size - first.length))) % size := by
        rw [Nat.mod_add_mod, show start + first.length + (i + (size - first.length)) =
          start + i + size by omega, Nat.add_mod_right]
      rw [put_apply_of_lt inside (by omega) (by omega), List.getElem_append_left early, later,
        put_apply_of_le inside' (by omega) (by omega), ← later,
        put_apply_of_lt inside (by omega) early]
    · have later : (start + i) % size =
          ((start + first.length) % size + (i - first.length)) % size := by
        rw [Nat.mod_add_mod, show start + first.length + (i - first.length) = start + i by omega]
      by_cases here : i - first.length < second.length
      · rw [put_apply_of_lt inside (by omega) (by omega),
          List.getElem_append_right (Nat.not_lt.mp early), later,
          put_apply_of_lt inside' (by omega) here]
      · have untouched : put base size memory start (first ++ second) (base + (start + i) % size) =
            memory (base + (start + i) % size) := put_apply_of_le inside (by omega) round
        rw [untouched, later, put_apply_of_le inside' (by omega) (by omega), ← later,
          put_apply_of_le inside (by omega) round]
  · have outside : a < base ∨ base + size ≤ a := by omega
    rw [put_apply_of_outside inside (by omega) outside,
      put_apply_of_outside inside' (by omega) outside,
      put_apply_of_outside inside (by omega) outside]

end

end Frobio.Ring
