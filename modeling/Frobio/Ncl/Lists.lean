/-
This file models the lists of `ncl/ncl.c`: `FormList` makes one of some strings,
`lappend` appends to one, and `SplitList` takes one apart.

A list is a string. `FormList` encodes one string after the other, so that appending
to the list of some strings gives the list of those strings and the appended ones.
-/

import Frobio.Froblib.Buf

namespace Frobio.Ncl

open Froblib

/-! ### The functions -/

def formList (signed : Bool) (argv : List CString) : CString :=
  bufFinish (argv.foldl (bufAppElemS signed) [])

/-- The value `picolCommandListAppend` gives the variable that had this value. -/
def listAppend (signed : Bool) (val : CString) (items : List CString) : CString :=
  bufFinish (items.foldl (bufAppElemS signed) val.bytes)

/-- The loop of `SplitList` that skips white space. -/
def skipWhite (signed : Bool) : List UInt8 → Option (List UInt8)
  | [] => none
  | c :: s => if c ≠ 0 ∧ char signed c ≤ 32 then skipWhite signed s else some (c :: s)

/-- The loop of `SplitList`. The pointer `s` that is tested after white space is never NULL. -/
def splitLoop (signed : Bool) : Nat → List UInt8 → Option (List CString)
  | 0, _ => none
  | rounds + 1, s =>
    match s with
    | [] => none
    | c :: _ =>
      if c = 0 then some []
      else
        (skipWhite signed s).bind fun s =>
          (elemLen signed s).bind fun (_, endP) =>
            (elemDecode signed s).bind fun elem =>
              (splitLoop signed rounds endP).map (elem :: ·)

/-- A round goes over a byte, and there is one round more if the string ends in white space. -/
def splitList (signed : Bool) (s : List UInt8) : Option (List CString) :=
  splitLoop signed (s.length + 1) s

/-! ### Lists of strings -/

section

variable {signed : Bool}

/-- Strings as they are encoded after others. -/
def spaced (signed : Bool) (xs : List CString) : List UInt8 :=
  xs.flatMap fun x => 32 :: element signed x

theorem spaced_cons (x : CString) (xs : List CString) :
    spaced signed (x :: xs) = 32 :: (element signed x ++ spaced signed xs) :=
  List.flatMap_cons

theorem foldl_bufAppElemS (xs : List CString) {p : Buf} (some : p ≠ []) :
    xs.foldl (bufAppElemS signed) p = p ++ spaced signed xs := by
  induction xs generalizing p with
  | nil => exact (List.append_nil p).symm
  | cons x xs inductionHypothesis =>
    rw [List.foldl_cons, bufAppElemS_eq, if_neg some, inductionHypothesis,
      spaced_cons, List.append_assoc, List.append_assoc]
    · rfl
    · exact List.append_ne_nil_of_left_ne_nil (List.append_ne_nil_of_left_ne_nil some _) _

/-- All the elements, with a space between any two. -/
theorem foldl_bufAppElemS_cons (x : CString) (xs : List CString) :
    (x :: xs).foldl (bufAppElemS signed) [] = element signed x ++ spaced signed xs := by
  rw [List.foldl_cons, bufAppElemS_eq, if_pos rfl, List.nil_append,
    foldl_bufAppElemS xs (element_ne_nil x)]

theorem zero_not_mem_spaced (xs : List CString) : 0 ∉ spaced signed xs := by
  rw [spaced, List.mem_flatMap]
  rintro ⟨x, -, member⟩
  rcases List.mem_cons.mp member with wrong | member
  · exact absurd wrong (by decide)
  · exact zero_not_mem_element x member

theorem bytes_formList (xs : List CString) :
    (formList signed xs).bytes = xs.foldl (bufAppElemS signed) [] := by
  refine bytes_cut ?_
  cases xs with
  | nil => exact List.not_mem_nil
  | cons x xs =>
    rw [foldl_bufAppElemS_cons, List.mem_append, not_or]
    exact ⟨zero_not_mem_element x, zero_not_mem_spaced xs⟩

/-- Appending to the list of some strings gives the list of those strings and the others. -/
theorem listAppend_formList (xs items : List CString) :
    listAppend signed (formList signed xs) items = formList signed (xs ++ items) := by
  rw [listAppend, bytes_formList, ← List.foldl_append]
  rfl

theorem skipWhite_element (x : CString) (rest : List UInt8) :
    skipWhite signed (element signed x ++ rest) = some (element signed x ++ rest) := by
  obtain ⟨c, later, cons, above, -⟩ := @element_first signed x
  rw [cons, List.cons_append, skipWhite]
  exact if_neg fun white => absurd white.2 (by omega)

/-- One round over an element, with white space before it or not. -/
theorem splitLoop_element {rounds : Nat} (x : CString) {s : List UInt8} {c : UInt8}
    {rest : List UInt8} (stops : ¬char signed c > 32) (nonempty : s.head? ≠ some 0 ∧ s ≠ [])
    (skips : skipWhite signed s = some (element signed x ++ c :: rest)) :
    splitLoop signed (rounds + 1) s = (splitLoop signed rounds (c :: rest)).map (x :: ·) := by
  obtain ⟨⟨n, length⟩, decoded⟩ := @elem_element signed x _ stops rest
  obtain ⟨first, later, rfl⟩ := List.exists_cons_of_ne_nil nonempty.2
  have nonzero : first ≠ 0 := fun zero => nonempty.1 (zero ▸ rfl)
  rw [splitLoop]
  dsimp only
  rw [if_neg nonzero, skips, Option.bind_some, length, Option.bind_some, decoded,
    Option.bind_some]

/-- After an element comes the space before the next one, or the end. -/
theorem spaced_stops (xs : List CString) (rest : List UInt8) :
    ∃ c later, spaced signed xs ++ 0 :: rest = c :: later ∧ ¬char signed c > 32 := by
  cases xs with
  | nil =>
    refine ⟨0, rest, rfl, ?_⟩
    cases signed <;> decide
  | cons x xs =>
    refine ⟨32, _, rfl, ?_⟩
    cases signed <;> decide

theorem splitLoop_spaced (xs : List CString) (rest : List UInt8) {rounds : Nat}
    (enough : xs.length < rounds) :
    splitLoop signed rounds (spaced signed xs ++ 0 :: rest) = some xs := by
  induction xs generalizing rounds with
  | nil =>
    obtain ⟨rounds, rfl⟩ := Nat.exists_eq_add_of_lt enough
    rfl
  | cons x xs inductionHypothesis =>
    rw [List.length_cons] at enough
    obtain ⟨rounds, rfl⟩ : ∃ more, rounds = more + 1 := ⟨rounds - 1, by omega⟩
    obtain ⟨c, later, after, stops⟩ := @spaced_stops signed xs rest
    have skips : skipWhite signed (spaced signed (x :: xs) ++ 0 :: rest) =
        some (element signed x ++ c :: later) := by
      rw [spaced_cons, List.cons_append, List.append_assoc, after, skipWhite, if_pos, skipWhite_element]
      cases signed <;> decide
    rw [splitLoop_element x stops ⟨?_, ?_⟩ skips, ← after, inductionHypothesis (by omega)]
    · rfl
    · exact fun wrong => absurd (Option.some_inj.mp wrong) (by decide)
    · exact List.cons_ne_nil _ _

theorem length_le_spaced (xs : List CString) : xs.length ≤ (spaced signed xs).length := by
  induction xs with
  | nil => exact Nat.le_refl 0
  | cons x xs inductionHypothesis =>
    rw [spaced_cons, List.length_cons, List.length_cons, List.length_append]
    omega

theorem splitList_memory_formList (xs : List CString) (rest : List UInt8) :
    splitList signed ((formList signed xs).memory rest) = some xs := by
  rw [splitList, CString.memory, bytes_formList]
  cases xs with
  | nil => rfl
  | cons x xs =>
    rw [foldl_bufAppElemS_cons, List.append_assoc]
    obtain ⟨c, later, after, stops⟩ := @spaced_stops signed xs rest
    obtain ⟨first, later', cons, -, nonzero⟩ := @element_first signed x
    rw [after]
    rw [splitLoop_element x stops ⟨?_, ?_⟩ (skipWhite_element x _), ← after, splitLoop_spaced]
    · rfl
    · have least := @length_le_spaced signed xs
      rw [List.length_append, List.length_append, List.length_cons]
      omega
    · rw [cons]
      exact fun wrong => nonzero (Option.some_inj.mp wrong)
    · rw [cons]
      exact List.cons_ne_nil _ _

/-- Whatever the strings, and signed or not: the list of the strings splits into them, and with
another string appended it splits into them and the other one. -/
theorem splitList_formList (signed : Bool) (xs : List CString) (x : CString)
    (rest : List UInt8) :
    splitList signed ((formList signed xs).memory rest) = some xs ∧
      splitList signed ((listAppend signed (formList signed xs) [x]).memory rest) =
        some (xs ++ [x]) := by
  refine ⟨splitList_memory_formList xs rest, ?_⟩
  rw [listAppend_formList]
  exact splitList_memory_formList (xs ++ [x]) rest

end

end Frobio.Ncl
