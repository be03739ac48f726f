/-
This file is about what `SplitList`, `ElemLen` and `ElemDecode` read. The two scanners of an
element agree on where it ends, in any memory. They stay within a string unless it ends in
the backslash of an element in braces: then both go on behind the NUL.

A string is at the end of the memory here, so that reading behind its NUL is no result.
-/

import Frobio.Ncl.Frames

namespace Frobio.Ncl

open Froblib

/-! ### Where `ElemDecode` stops -/

/-- The loop of `ElemDecode` over an element in braces: what it writes, and where it stops. -/
def decodeBraced : List UInt8 → Option (Buf × List UInt8)
  | [] => none
  | c :: s =>
    if c = 0 then some ([], c :: s)
    else if c = 125 then some ([], s)
    else if c = 92 then
      match s with
      | [] => none
      | c :: s => (decodeBraced s).map fun (bytes, endP) => (c :: bytes, endP)
    else (decodeBraced s).map fun (bytes, endP) => (c :: bytes, endP)

/-- What `ElemDecode` writes, and where it stops. -/
def decodeElem (signed : Bool) (s : List UInt8) : Option (Buf × List UInt8) :=
  if s.head? = some 123 then decodeBraced s.tail else bare signed s

theorem elemDecodeBraced_eq : (s : List UInt8) →
    elemDecodeBraced s = (decodeBraced s).map Prod.fst
  | [] => rfl
  | [c] => by
    rw [elemDecodeBraced.eq_def, decodeBraced.eq_def]
    dsimp only
    split
    · rfl
    · split
      · rfl
      · split <;> rfl
  | c :: d :: s => by
    have one := elemDecodeBraced_eq (d :: s)
    have two := elemDecodeBraced_eq s
    rw [elemDecodeBraced.eq_def, decodeBraced.eq_def]
    dsimp only
    split
    · rfl
    · split
      · rfl
      · split
        · rw [two, Option.map_map, Option.map_map]
          rfl
        · rw [one, Option.map_map, Option.map_map]
          rfl

theorem elemDecode_eq (signed : Bool) (s : List UInt8) :
    elemDecode signed s = (decodeElem signed s).map fun scan => bufFinish scan.1 := by
  rw [elemDecode, decodeElem]
  split
  · rw [elemDecodeBraced_eq, Option.map_map]
    rfl
  · rfl

/-- The scanners stop at the same place, or neither stops; and what is written is no longer than
the length that was reported. -/
def Agree : Option (Nat × List UInt8) → Option (Buf × List UInt8) → Prop
  | none, none => True
  | some (n, endP), some (bytes, endP') => endP = endP' ∧ bytes.length ≤ n
  | _, _ => False

theorem Agree.map {length : Option (Nat × List UInt8)} {decoded : Option (Buf × List UInt8)}
    (agree : Agree length decoded) (c : UInt8) {more : Nat} (one : 1 ≤ more) :
    Agree (length.map fun (n, endP) => (n + more, endP))
      (decoded.map fun (bytes, endP) => (c :: bytes, endP)) := by
  match length, decoded, agree with
  | none, none, _ => trivial
  | some (n, endP), some (bytes, endP'), ⟨same, fits⟩ =>
    refine ⟨same, ?_⟩
    rw [List.length_cons]
    omega

theorem agree_braced : (s : List UInt8) → Agree (elemLenBraced s) (decodeBraced s)
  | [] => trivial
  | [c] => by
    rw [elemLenBraced.eq_def, decodeBraced.eq_def]
    dsimp only
    split
    · exact ⟨rfl, Nat.le_refl _⟩
    · split
      · exact ⟨rfl, Nat.le_refl _⟩
      · split
        · trivial
        · exact Agree.map (agree_braced []) c (Nat.le_refl 1)
  | c :: d :: s => by
    have one := agree_braced (d :: s)
    have two := agree_braced s
    rw [elemLenBraced.eq_def, decodeBraced.eq_def]
    dsimp only
    split
    · exact ⟨rfl, Nat.le_refl _⟩
    · split
      · exact ⟨rfl, Nat.le_refl _⟩
      · split
        · exact two.map d (by decide)
        · exact one.map c (Nat.le_refl 1)

theorem agree_elem (signed : Bool) (s : List UInt8) :
    Agree (elemLen signed s) (decodeElem signed s) := by
  rw [elemLen, decodeElem]
  split
  · exact agree_braced s.tail
  · cases bare signed s with
    | none => trivial
    | some scan => exact ⟨rfl, Nat.le_refl _⟩

/-! ### What the scanners go through -/

inductive Mode
  | between
  | bare
  | braced
  | escaped
  deriving DecidableEq

/-- The string ends in the backslash of an element in braces that is not closed. -/
def dangles (signed : Bool) : Mode → List UInt8 → Bool
  | mode, [] => mode == .escaped
  | .between, c :: s =>
    dangles signed (if char signed c ≤ 32 then .between else if c = 123 then .braced else .bare) s
  | .bare, c :: s => dangles signed (if char signed c > 32 then .bare else .between) s
  | .braced, c :: s =>
    dangles signed (if c = 125 then .between else if c = 92 then .escaped else .braced) s
  | .escaped, _ :: s => dangles signed .braced s

section

variable {signed : Bool}

/-- An element in braces ends within the string, or it dangles. -/
theorem elemLenBraced_cases : (s : List UInt8) → 0 ∉ s →
    (elemLenBraced (s ++ [0]) = none ∧ dangles signed .braced s = true) ∨
      ∃ n rest, elemLenBraced (s ++ [0]) = some (n, rest ++ [0]) ∧ rest <:+ s ∧
        dangles signed .braced s = dangles signed .between rest
  | [], _ => .inr ⟨0, [], rfl, List.suffix_rfl, rfl⟩
  | c :: s, noNul => by
    rw [List.mem_cons, not_or] at noNul
    have nonzero : c ≠ 0 := fun same => noNul.1 same.symm
    by_cases closes : c = 125
    · subst closes
      exact .inr ⟨0, s, elemLenBraced_brace _, List.suffix_cons 125 s, rfl⟩
    by_cases escapes : c = 92
    · subst escapes
      match s, noNul.2 with
      | [], _ => exact .inl ⟨rfl, rfl⟩
      | d :: s, noNul =>
        rw [List.mem_cons, not_or] at noNul
        have step : dangles signed .braced (92 :: d :: s) = dangles signed .braced s := rfl
        rw [List.cons_append, List.cons_append, elemLenBraced_backslash, step]
        rcases elemLenBraced_cases s noNul.2 with ⟨none, dangling⟩ | ⟨n, rest, some, suffix, same⟩
        · exact .inl ⟨by rw [none]; rfl, dangling⟩
        · refine .inr ⟨n + 2, rest, by rw [some]; rfl, ?_, same⟩
          exact (suffix.trans (List.suffix_cons d s)).trans (List.suffix_cons 92 _)
    · have step : dangles signed .braced (c :: s) = dangles signed .braced s := by
        rw [dangles, if_neg closes, if_neg escapes]
      rw [List.cons_append, elemLenBraced_plain nonzero closes escapes, step]
      rcases elemLenBraced_cases s noNul.2 with ⟨none, dangling⟩ | ⟨n, rest, some, suffix, same⟩
      · exact .inl ⟨by rw [none]; rfl, dangling⟩
      · exact .inr ⟨n + 1, rest, by rw [some]; rfl, suffix.trans (List.suffix_cons c s), same⟩

/-- A bare element ends within the string. -/
theorem bare_cases {s : List UInt8} (noNul : 0 ∉ s) :
    ∃ bytes rest, bare signed (s ++ [0]) = some (bytes, rest ++ [0]) ∧ rest <:+ s ∧
      dangles signed .bare s = dangles signed .between rest := by
  induction s with
  | nil => exact ⟨[], [], if_neg (by cases signed <;> decide), List.suffix_rfl, rfl⟩
  | cons c s inductionHypothesis =>
    rw [List.mem_cons, not_or] at noNul
    rw [List.cons_append, bare, dangles]
    by_cases above : char signed c > 32
    · obtain ⟨bytes, rest, scanned, suffix, same⟩ := inductionHypothesis noNul.2
      rw [if_pos above, if_pos above, scanned]
      exact ⟨c :: bytes, rest, rfl, suffix.trans (List.suffix_cons c s), same⟩
    · rw [if_neg above, if_neg above]
      refine ⟨[], c :: s, rfl, List.suffix_rfl, ?_⟩
      rw [dangles, if_pos (not_lt.mp above)]

/-- After white space comes an element, or the end. -/
theorem skipWhite_cases {s : List UInt8} (noNul : 0 ∉ s) :
    ∃ rest, skipWhite signed (s ++ [0]) = some (rest ++ [0]) ∧ rest <:+ s ∧
      (∀ c ∈ rest.head?, char signed c > 32) ∧
      dangles signed .between s = dangles signed .between rest := by
  induction s with
  | nil => exact ⟨[], rfl, List.suffix_rfl, fun _ none => (by cases none), rfl⟩
  | cons c s inductionHypothesis =>
    rw [List.mem_cons, not_or] at noNul
    rw [List.cons_append, skipWhite]
    by_cases white : char signed c ≤ 32
    · obtain ⟨rest, skipped, suffix, visible, same⟩ := inductionHypothesis noNul.2
      rw [if_pos ⟨fun zero => noNul.1 zero.symm, white⟩, dangles, if_pos white]
      exact ⟨rest, skipped, suffix.trans (List.suffix_cons c s), visible, same⟩
    · rw [if_neg fun both => white both.2]
      refine ⟨c :: s, rfl, List.suffix_rfl, fun first head => ?_, rfl⟩
      rw [List.head?_cons, Option.mem_some] at head
      exact head ▸ not_le.mp white

/-- An element ends within the string, or it dangles; and something of it is gone over, if it does
not begin at the end. -/
theorem elemLen_cases {s : List UInt8} (noNul : 0 ∉ s)
    (visible : ∀ c ∈ s.head?, char signed c > 32) :
    (elemLen signed (s ++ [0]) = none ∧ dangles signed .between s = true) ∨
      ∃ n rest, elemLen signed (s ++ [0]) = some (n, rest ++ [0]) ∧ rest <:+ s.tail ∧
        dangles signed .between s = dangles signed .between rest := by
  cases s with
  | nil =>
    refine .inr ⟨0, [], ?_, List.suffix_rfl, rfl⟩
    cases signed <;> rfl
  | cons c s =>
    have above : ¬char signed c ≤ 32 := not_le.mpr (visible c rfl)
    rw [List.mem_cons, not_or] at noNul
    rw [elemLen, List.cons_append, List.head?_cons, dangles, if_neg above]
    by_cases brace : c = 123
    · rw [if_pos (congrArg some brace), if_pos brace]
      exact elemLenBraced_cases s noNul.2
    · obtain ⟨bytes, rest, scanned, suffix, same⟩ := @bare_cases signed s noNul.2
      rw [if_neg fun wrong => brace (Option.some_inj.mp wrong), if_neg brace, bare,
        if_pos (not_le.mp above), scanned]
      exact .inr ⟨_, rest, rfl, suffix, same⟩

theorem elemDecode_isSome (s : List UInt8) :
    (elemDecode signed s).isSome = (elemLen signed s).isSome := by
  have agree := agree_elem signed s
  rw [elemDecode_eq, Option.isSome_map]
  cases length : elemLen signed s with
  | none =>
    cases decoded : decodeElem signed s with
    | none => rfl
    | some scan =>
      rw [length, decoded] at agree
      exact agree.elim
  | some scan =>
    cases decoded : decodeElem signed s with
    | none =>
      rw [length, decoded] at agree
      exact agree.elim
    | some scan' => rfl

/-- The rounds over a string come to its end just when it does not dangle. -/
theorem isSome_splitLoop {rounds : Nat} {s : List UInt8} (noNul : 0 ∉ s)
    (enough : s.length < rounds) :
    (splitLoop signed rounds (s ++ [0])).isSome = !dangles signed .between s := by
  induction rounds generalizing s with
  | zero => exact absurd enough (Nat.not_lt_zero _)
  | succ rounds inductionHypothesis =>
    cases s with
    | nil => rfl
    | cons c s =>
      have nonzero : c ≠ 0 := fun zero => noNul (zero ▸ List.mem_cons_self)
      obtain ⟨start, skipped, suffix, visible, same⟩ := @skipWhite_cases signed _ noNul
      have noNul' : 0 ∉ start := fun member => noNul (suffix.subset member)
      rw [List.cons_append] at skipped ⊢
      rw [splitLoop, same]
      dsimp only
      rw [if_neg nonzero, skipped, Option.bind_some]
      have both := @elemDecode_isSome signed (start ++ [0])
      rcases elemLen_cases noNul' visible with ⟨none, dangling⟩ | ⟨n, rest, some, suffix', same'⟩
      · rw [none, dangling]
        rfl
      · rw [some] at both ⊢
        obtain ⟨elem, decoded⟩ := Option.isSome_iff_exists.mp both
        rw [Option.bind_some, decoded, Option.bind_some, Option.isSome_map, same']
        refine inductionHypothesis (fun member => noNul' ?_) ?_
        · exact List.mem_of_mem_tail (suffix'.subset member)
        · have shorter := suffix'.length_le
          have shorter' := suffix.length_le
          rw [List.length_tail] at shorter
          rw [List.length_cons] at enough shorter'
          omega

/-- Nothing behind the NUL of the string is read, the scanners of its first element agree, and what
is written fits. -/
def ScansSafely (signed : Bool) (s : CString) : Prop :=
  (splitList signed (s.memory [])).isSome ∧
    ∃ n bytes endP, elemLen signed (s.memory []) = some (n, endP) ∧
      decodeElem signed (s.memory []) = some (bytes, endP) ∧ bytes.length ≤ n

/-- A string is scanned safely just when it does not dangle. In any memory the two scanners agree,
and what `ElemDecode` gives is what it writes. -/
theorem scansSafely_iff (signed : Bool) (s : CString) :
    (ScansSafely signed s ↔ dangles signed .between s.bytes = false) ∧
      ∀ memory, Agree (elemLen signed memory) (decodeElem signed memory) ∧
        elemDecode signed memory = (decodeElem signed memory).map fun scan => bufFinish scan.1 := by
  refine ⟨?_, fun memory => ⟨agree_elem signed memory, elemDecode_eq signed memory⟩⟩
  have splits : (splitList signed (s.memory [])).isSome = !dangles signed .between s.bytes := by
    refine isSome_splitLoop s.noNul ?_
    rw [CString.memory, List.length_append]
    omega
  rw [ScansSafely, splits, Bool.not_eq_true']
  refine and_iff_left_of_imp fun safe => ?_
  have agree := agree_elem signed (s.memory [])
  have ends : (elemLen signed (s.memory [])).isSome := by
    by_cases visible : ∀ c ∈ s.bytes.head?, char signed c > 32
    · rcases elemLen_cases s.noNul visible with ⟨-, dangling⟩ | ⟨n, rest, some, -⟩
      · rw [safe] at dangling
        cases dangling
      · rw [CString.memory, some]
        rfl
    · -- the scanner of a bare element stops at once
      push Not at visible
      obtain ⟨c, head, white⟩ := visible
      obtain ⟨rest, cons⟩ := List.head?_eq_some_iff.mp head
      have noBrace : c ≠ 123 := by
        rintro rfl
        cases signed <;> exact absurd white (by decide)
      rw [CString.memory, cons, List.cons_append, elemLen, List.head?_cons,
        if_neg fun wrong => noBrace (Option.some_inj.mp wrong), bare, if_neg (not_lt.mpr white)]
      rfl
  obtain ⟨⟨n, endP⟩, length⟩ := Option.isSome_iff_exists.mp ends
  rw [length] at agree ⊢
  cases decoded : decodeElem signed (s.memory []) with
  | none =>
    rw [decoded] at agree
    exact agree.elim
  | some scan =>
    obtain ⟨bytes, endP'⟩ := scan
    rw [decoded] at agree
    obtain ⟨rfl, fits⟩ := agree
    exact ⟨n, bytes, endP, rfl, rfl, fits⟩

end

/-- `{a\`, and then the NUL. -/
theorem not_scansSafely_backslash : ¬ScansSafely true ⟨[123, 97, 92], by decide⟩ := by
  rintro ⟨split, -⟩
  revert split
  decide +kernel

end Frobio.Ncl
