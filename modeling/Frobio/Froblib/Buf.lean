/-
This file models `froblib/buf.c`: buffers that strings and list items accumulate in,
how an item of a list is encoded, and how it is decoded.

A `const char *` is the memory from the pointer on, so that what a function reads
past the NUL of a string is visible: it is what the memory holds there. A function is
`none` when the memory ends before it does. Whether `char` is signed is a parameter.
-/

import Mathlib.Data.List.TakeWhile
import Mathlib.Data.UInt
import Mathlib.Tactic

namespace Frobio.Froblib

/-! ### Strings -/

/-- The bytes of a string, without the NUL at their end. -/
structure CString where
  bytes : List UInt8
  noNul : 0 ∉ bytes
  deriving DecidableEq

/-- A string in memory, and what comes after it. -/
def CString.memory (s : CString) (rest : List UInt8) : List UInt8 := s.bytes ++ 0 :: rest

/-- The string at the beginning of some bytes. -/
def cut (bytes : List UInt8) : CString where
  bytes := bytes.takeWhile (· != 0)
  noNul member := bne_iff_ne.mp (List.mem_takeWhile_imp (p := (· != 0)) member) rfl

@[ext] theorem CString.ext {s t : CString} (same : s.bytes = t.bytes) : s = t := by
  cases s
  cases t
  cases same
  rfl

/-- Bytes without a NUL are a string as they are. -/
theorem bytes_cut {bytes : List UInt8} (noNul : 0 ∉ bytes) : (cut bytes).bytes = bytes := by
  refine List.takeWhile_eq_self_iff.mpr fun c member => bne_iff_ne.mpr ?_
  rintro rfl
  exact noNul member

/-- The value of a `char`. -/
def char (signed : Bool) (c : UInt8) : Int :=
  if signed ∧ 128 ≤ c.toNat then c.toNat - 256 else c.toNat

/-! ### Buffers -/

/-- The bytes `p->s[0 .. p->n]`. -/
abbrev Buf : Type := List UInt8

def bufAppC (p : Buf) (c : UInt8) : Buf := p ++ [c]

def bufAppS (p : Buf) (s : CString) : Buf := p ++ s.bytes

/-- `BufFinish` and `BufTake`. -/
def bufFinish (p : Buf) : CString := cut p

/-! ### Appending elements -/

/-- A byte that stands in an element only after a backslash. -/
def special (signed : Bool) (c : UInt8) : Bool :=
  char signed c ≤ 32 || char signed c > 122 || c == 92

def bufAppElemC (signed : Bool) (p : Buf) (c : UInt8) : Buf :=
  if special signed c then p ++ [92, c] else p ++ [c]

def bufAppElemS (signed : Bool) (p : Buf) (s : CString) : Buf :=
  -- add a space before the next element, unless the buffer is empty
  let p := if p.length ≠ 0 then bufAppC p 32 else p
  let clean := s.bytes.all fun c => !special signed c
  if clean ∧ s.bytes ≠ [] then s.bytes.foldl bufAppC p
  else bufAppC (s.bytes.foldl (bufAppElemC signed) (bufAppC p 123)) 125

/-! ### Decoding elements -/

/-- The loop of `ElemLen` over an element in braces: the length, and the end. -/
def elemLenBraced : List UInt8 → Option (Nat × List UInt8)
  | [] => none
  | c :: s =>
    if c = 0 then some (0, c :: s)
    else if c = 125 then some (0, s)
    else if c = 92 then
      match s with
      | [] => none
      | _ :: s => (elemLenBraced s).map fun (n, endP) => (n + 2, endP)
    else (elemLenBraced s).map fun (n, endP) => (n + 1, endP)

/-- The loop of `ElemDecode` over an element in braces. -/
def elemDecodeBraced : List UInt8 → Option Buf
  | [] => none
  | c :: s =>
    if c = 0 then some []
    else if c = 125 then some []
    else if c = 92 then
      match s with
      | [] => none
      | c :: s => (elemDecodeBraced s).map (c :: ·)
    else (elemDecodeBraced s).map (c :: ·)

/-- The loop `while (*t > ' ') ++t`: the bytes it goes over, and the end. -/
def bare (signed : Bool) : List UInt8 → Option (Buf × List UInt8)
  | [] => none
  | c :: t =>
    if char signed c > 32 then (bare signed t).map fun (bytes, endP) => (c :: bytes, endP)
    else some ([], c :: t)

/-- The length of the decoded element, and the end of it. -/
def elemLen (signed : Bool) (s : List UInt8) : Option (Nat × List UInt8) :=
  if s.head? = some 123 then elemLenBraced s.tail
  else (bare signed s).map fun (bytes, endP) => (bytes.length, endP)

def elemDecode (signed : Bool) (s : List UInt8) : Option CString :=
  if s.head? = some 123 then (elemDecodeBraced s.tail).map bufFinish
  else (bare signed s).map fun (bytes, _) => bufFinish bytes

/-! ### An encoded element -/

/-- The bytes of an element in braces. -/
def escaped (signed : Bool) (s : List UInt8) : List UInt8 :=
  s.flatMap fun c => if special signed c then [92, c] else [c]

/-- What `BufAppElemS` appends after the space. -/
def element (signed : Bool) (s : CString) : List UInt8 :=
  if s.bytes.all (fun c => !special signed c) ∧ s.bytes ≠ [] then s.bytes
  else 123 :: (escaped signed s.bytes ++ [125])

section

variable {signed : Bool}

theorem foldl_bufAppC (s : List UInt8) (p : Buf) : s.foldl bufAppC p = p ++ s := by
  induction s generalizing p with
  | nil => exact (List.append_nil p).symm
  | cons c s inductionHypothesis =>
    rw [List.foldl_cons, inductionHypothesis, bufAppC, List.append_assoc]
    rfl

theorem escaped_cons (c : UInt8) (s : List UInt8) :
    escaped signed (c :: s) =
      (if special signed c then [92, c] else [c]) ++ escaped signed s :=
  List.flatMap_cons

theorem foldl_bufAppElemC (s : List UInt8) (p : Buf) :
    s.foldl (bufAppElemC signed) p = p ++ escaped signed s := by
  induction s generalizing p with
  | nil => exact (List.append_nil p).symm
  | cons c s inductionHypothesis =>
    rw [List.foldl_cons, inductionHypothesis, bufAppElemC, escaped_cons]
    split
    · rw [List.append_assoc]
    · rw [List.append_assoc]

theorem bufAppElemS_eq (p : Buf) (s : CString) :
    bufAppElemS signed p s = (if p = [] then [] else p ++ [32]) ++ element signed s := by
  have before : (if p.length ≠ 0 then bufAppC p 32 else p) = if p = [] then [] else p ++ [32] := by
    cases p with
    | nil => rfl
    | cons => rfl
  simp only [bufAppElemS, element, before]
  split
  · exact foldl_bufAppC _ _
  · rw [foldl_bufAppElemC, bufAppC, bufAppC, List.append_assoc, List.append_assoc]
    rfl

theorem element_ne_nil (s : CString) : element signed s ≠ [] := by
  rw [element]
  split
  · rename_i clean
    exact clean.2
  · exact List.cons_ne_nil _ _

/-- Signed or not, a byte that is not special is one of those from `!` to `z`. -/
theorem plain_of_special_eq_false {c : UInt8} (plain : special signed c = false) :
    char signed c > 32 ∧ c ≠ 0 ∧ c ≠ 123 ∧ c ≠ 125 ∧ c ≠ 92 := by
  simp only [special, Bool.or_eq_false_iff, decide_eq_false_iff_not, beq_eq_false_iff_ne] at plain
  obtain ⟨⟨above, below⟩, noBackslash⟩ := plain
  refine ⟨by omega, ?_, ?_, ?_, noBackslash⟩
  · rintro rfl
    cases signed <;> exact above (by decide)
  · rintro rfl
    cases signed <;> exact below (by decide)
  · rintro rfl
    cases signed <;> exact below (by decide)

theorem zero_not_mem_element (s : CString) : 0 ∉ element signed s := by
  rw [element]
  split
  · exact s.noNul
  · intro member
    rw [List.mem_cons, List.mem_append, List.mem_singleton, escaped, List.mem_flatMap] at member
    rcases member with wrong | ⟨c, inside, member⟩ | wrong
    · exact absurd wrong (by decide)
    · have nonzero : c ≠ 0 := fun zero => s.noNul (zero ▸ inside)
      split at member
      · rcases List.mem_cons.mp member with wrong | member
        · exact absurd wrong (by decide)
        · exact nonzero (List.mem_singleton.mp member).symm
      · exact nonzero (List.mem_singleton.mp member).symm
    · exact absurd wrong (by decide)

theorem elemLenBraced_brace (s : List UInt8) : elemLenBraced (125 :: s) = some (0, s) := by
  rw [elemLenBraced.eq_def]
  rfl

theorem elemLenBraced_backslash (c : UInt8) (s : List UInt8) :
    elemLenBraced (92 :: c :: s) = (elemLenBraced s).map fun (n, endP) => (n + 2, endP) := by
  rw [elemLenBraced.eq_def]
  rfl

theorem elemLenBraced_plain {c : UInt8} (nonzero : c ≠ 0) (noBrace : c ≠ 125)
    (noBackslash : c ≠ 92) (s : List UInt8) :
    elemLenBraced (c :: s) = (elemLenBraced s).map fun (n, endP) => (n + 1, endP) := by
  rw [elemLenBraced.eq_def]
  dsimp only
  rw [if_neg nonzero, if_neg noBrace, if_neg noBackslash]

theorem elemDecodeBraced_brace (s : List UInt8) : elemDecodeBraced (125 :: s) = some [] := by
  rw [elemDecodeBraced.eq_def]
  rfl

theorem elemDecodeBraced_backslash (c : UInt8) (s : List UInt8) :
    elemDecodeBraced (92 :: c :: s) = (elemDecodeBraced s).map (c :: ·) := by
  rw [elemDecodeBraced.eq_def]
  rfl

theorem elemDecodeBraced_plain {c : UInt8} (nonzero : c ≠ 0) (noBrace : c ≠ 125)
    (noBackslash : c ≠ 92) (s : List UInt8) :
    elemDecodeBraced (c :: s) = (elemDecodeBraced s).map (c :: ·) := by
  rw [elemDecodeBraced.eq_def]
  dsimp only
  rw [if_neg nonzero, if_neg noBrace, if_neg noBackslash]

/-- Both loops go over the bytes in braces to the closing one, and the second gives them back. -/
theorem braced_escaped {s : List UInt8} (noNul : 0 ∉ s) (rest : List UInt8) :
    (∃ n, elemLenBraced (escaped signed s ++ 125 :: rest) = some (n, rest)) ∧
      elemDecodeBraced (escaped signed s ++ 125 :: rest) = some s := by
  induction s with
  | nil => exact ⟨⟨0, elemLenBraced_brace rest⟩, elemDecodeBraced_brace rest⟩
  | cons c s inductionHypothesis =>
    rw [List.mem_cons, not_or] at noNul
    obtain ⟨⟨n, length⟩, decoded⟩ := inductionHypothesis noNul.2
    rw [escaped_cons, List.append_assoc]
    by_cases escape : special signed c = true
    · rw [if_pos escape, List.cons_append, List.singleton_append, elemLenBraced_backslash,
        elemDecodeBraced_backslash, length, decoded]
      exact ⟨⟨n + 2, rfl⟩, rfl⟩
    · rw [if_neg escape, List.singleton_append]
      obtain ⟨-, nonzero, -, noBrace, noBackslash⟩ :=
        plain_of_special_eq_false (Bool.eq_false_iff.mpr escape)
      rw [elemLenBraced_plain nonzero noBrace noBackslash,
        elemDecodeBraced_plain nonzero noBrace noBackslash, length, decoded]
      exact ⟨⟨n + 1, rfl⟩, rfl⟩

theorem bare_append {s : List UInt8} (plain : ∀ c ∈ s, char signed c > 32) {c : UInt8}
    (stops : ¬char signed c > 32) (rest : List UInt8) :
    bare signed (s ++ c :: rest) = some (s, c :: rest) := by
  induction s with
  | nil =>
    rw [List.nil_append, bare]
    exact if_neg stops
  | cons first s inductionHypothesis =>
    rw [List.cons_append, bare, if_pos (plain first List.mem_cons_self),
      inductionHypothesis fun c member => plain c (List.mem_cons_of_mem _ member)]
    rfl

/-- An encoded element is decoded, if white space or the end of the string comes after it. -/
theorem elem_element (s : CString) {c : UInt8} (stops : ¬char signed c > 32)
    (rest : List UInt8) :
    (∃ n, elemLen signed (element signed s ++ c :: rest) = some (n, c :: rest)) ∧
      elemDecode signed (element signed s ++ c :: rest) = some s := by
  rw [element]
  split
  · rename_i clean
    obtain ⟨clean, some⟩ := clean
    have plain : ∀ c ∈ s.bytes, special signed c = false := fun c member => by
      have := List.all_eq_true.mp clean c member
      rwa [Bool.not_eq_true'] at this
    have first : (s.bytes ++ c :: rest).head? ≠ Option.some 123 := by
      obtain ⟨first, later, cons⟩ := List.exists_cons_of_ne_nil some
      have noBrace := (plain_of_special_eq_false (plain first (by
        rw [cons]
        exact List.mem_cons_self))).2.2.1
      rw [cons]
      exact fun same => noBrace (Option.some_inj.mp same)
    have whole := bare_append (fun c member => (plain_of_special_eq_false (plain c member)).1)
      stops rest
    rw [elemLen, elemDecode, if_neg first, if_neg first, whole]
    exact ⟨⟨_, rfl⟩, congrArg Option.some (CString.ext (bytes_cut s.noNul))⟩
  · rw [List.cons_append, List.append_assoc, List.singleton_append]
    obtain ⟨length, decoded⟩ := braced_escaped s.noNul (c :: rest)
    refine ⟨length, ?_⟩
    show (elemDecodeBraced (escaped signed s.bytes ++ 125 :: c :: rest)).map bufFinish = _
    rw [decoded]
    exact congrArg Option.some (CString.ext (bytes_cut s.noNul))

/-- An encoded element does not begin with white space, and is not at the end of a string. -/
theorem element_first (s : CString) :
    ∃ c later, element signed s = c :: later ∧ char signed c > 32 ∧ c ≠ 0 := by
  rw [element]
  split
  · rename_i clean
    obtain ⟨first, later, cons⟩ := List.exists_cons_of_ne_nil clean.2
    have plain : special signed first = false := by
      have := List.all_eq_true.mp clean.1 first (by rw [cons]; exact List.mem_cons_self)
      rwa [Bool.not_eq_true'] at this
    obtain ⟨above, nonzero, -⟩ := plain_of_special_eq_false plain
    exact ⟨first, later, cons, above, nonzero⟩
  · refine ⟨123, _, rfl, ?_, by decide⟩
    cases signed <;> decide

end

end Frobio.Froblib
