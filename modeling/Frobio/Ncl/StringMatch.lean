/-
This file models `ncl/match.c`: `Tcl_StringMatch` tells whether a string matches a pattern.

The string is the bytes that are left of it, and the pattern is the memory from the pointer on, with
the NUL at the end of the pattern and what comes after it. Where the code reads past what is known
of the memory, or a loop needs more rounds, the result is `none`.

`Piece` says what patterns are for: a pattern is made of pieces, and each piece has a language. A
set that is not closed is none of these, as the code goes on behind the end of the pattern then.
-/

import Frobio.Lib.Matching
import Frobio.Froblib.Buf

namespace Frobio.Ncl

open Froblib (char)
open Matching

/-! ### The function -/

/-- The loop of `*`, which calls for each postfix of the string. -/
def anyPostfix (f : List UInt8 → Option Bool) : List UInt8 → Option Bool
  | [] => f []
  | c :: string => do
    if ← f (c :: string) then return true
    anyPostfix f string

/-- The loop over the characters that are acceptable: where it breaks, or that it returns. -/
def findRange (signed : Bool) (c : UInt8) : List UInt8 → Option (Option (List UInt8))
  | [] => none
  | p :: 45 :: c2 :: pattern =>
    if p = 93 ∨ p = 0 then some none
    else if p = c then some (some (p :: 45 :: c2 :: pattern))
    else if c2 = 0 then some none
    else if (char signed p ≤ char signed c ∧ char signed c ≤ char signed c2) ∨
        (char signed c ≤ char signed p ∧ char signed c2 ≤ char signed c) then
      some (some (p :: 45 :: c2 :: pattern))
    else findRange signed c pattern
  | p :: pattern =>
    if p = 93 ∨ p = 0 then some none
    else if p = c then some (some (p :: pattern))
    else if pattern.head? = some 45 then none
    else findRange signed c pattern

/-- `while ((*pattern != ']') && (*pattern != 0))`. -/
def skipRange : List UInt8 → Option (List UInt8)
  | [] => none
  | p :: pattern => if p = 93 ∨ p = 0 then some (p :: pattern) else skipRange pattern

def matchLoop (signed : Bool) : Nat → List UInt8 → List UInt8 → Option Bool
  | 0, _, _ => none
  | rounds + 1, string, pattern => do
    let p ← pattern.head?
    if p = 0 then return string.isEmpty
    if p = 42 then
      if (← pattern.tail.head?) = 0 then return true
      anyPostfix (fun string => matchLoop signed rounds string pattern.tail) string
    else
      match string with
      | [] => return false
      | c :: string =>
        if p = 63 then matchLoop signed rounds string pattern.tail
        else if p = 91 then
          match ← findRange signed c pattern.tail with
          | none => return false
          | some pattern => matchLoop signed rounds string (← skipRange pattern).tail
        else if p = 92 then
          let p ← pattern.tail.head?
          if p = 0 then return false
          if p = c then matchLoop signed rounds string pattern.tail.tail else return false
        else if p = c then matchLoop signed rounds string pattern.tail
        else return false

/-- A round goes over a piece of the pattern. -/
def Tcl_StringMatch (signed : Bool) (string pattern : List UInt8) : Option Bool :=
  matchLoop signed (pattern.length + 1) string pattern

namespace StringMatch

/-! ### What a pattern is for -/

/-- One acceptable character, or a range of them. -/
inductive Item
  | single (c : UInt8)
  | range (first last : UInt8)

namespace Item

def bytes : Item → List UInt8
  | single c => [c]
  | range first last => [first, 45, last]

/-- The bytes of an item can be told from those that end a set or make a range. -/
def Plain (c : UInt8) : Prop := c ≠ 0 ∧ c ≠ 45 ∧ c ≠ 93

def Valid : Item → Prop
  | single c => Plain c
  | range first last => Plain first ∧ Plain last

/-- A range is from either end to the other. -/
def Has (signed : Bool) (c : UInt8) : Item → Prop
  | single d => c = d
  | range first last => c = first ∨
      (char signed first ≤ char signed c ∧ char signed c ≤ char signed last) ∨
      (char signed c ≤ char signed first ∧ char signed last ≤ char signed c)

end Item

inductive Piece
  | star
  | any
  /-- A set, which can begin with a hyphen. -/
  | set (hyphen : Bool) (items : List Item)
  | plain (c : UInt8)
  | escaped (c : UInt8)

namespace Piece

def setBytes (hyphen : Bool) (items : List Item) : List UInt8 :=
  (if hyphen then [45] else []) ++ items.flatMap Item.bytes

def bytes : Piece → List UInt8
  | star => [42]
  | any => [63]
  | set hyphen items => 91 :: setBytes hyphen items ++ [93]
  | plain c => [c]
  | escaped c => [92, c]

def Valid : Piece → Prop
  | star => True
  | any => True
  | set _ items => ∀ item ∈ items, item.Valid
  | plain c => c ≠ 0 ∧ c ≠ 42 ∧ c ≠ 63 ∧ c ≠ 91 ∧ c ≠ 92
  | escaped c => c ≠ 0

open Computability in
def language (signed : Bool) : Piece → Language UInt8
  | star => (letters fun _ => True)∗
  | any => letters fun _ => True
  | set hyphen items =>
    letters fun c => hyphen = true ∧ c = 45 ∨ ∃ item ∈ items, item.Has signed c
  | plain c => letters (· = c)
  | escaped c => letters (· = c)

end Piece

/-- The words that a pattern is for. -/
def language (signed : Bool) (pieces : List Piece) : Language UInt8 :=
  (pieces.map (Piece.language signed)).prod

def bytes (pieces : List Piece) : List UInt8 := pieces.flatMap Piece.bytes

section

variable {signed : Bool} {f : List UInt8 → Option Bool} {K : List UInt8 → Prop}

open Computability in
theorem decides_anyPostfix (decides : Decides f K) :
    Decides (anyPostfix f) (Follows (letters fun _ => True)∗ K) := by
  have letter : DecidesLetter (fun _ : UInt8 => some true) fun _ => True :=
    fun _ => ⟨true, rfl, iff_of_true rfl trivial⟩
  exact decides_kstar decides letter rfl fun _ _ => rfl

/-! ### Sets -/

theorem skipRange_items {items : List Item} (valid : ∀ item ∈ items, item.Valid)
    (behind : List UInt8) :
    skipRange (items.flatMap Item.bytes ++ 93 :: behind) = some (93 :: behind) := by
  have skip : ∀ {c : UInt8} {rest : List UInt8}, Item.Plain c →
      skipRange (c :: rest) = skipRange rest := by
    intro c rest plain
    rw [skipRange, if_neg fun both => both.elim plain.2.2 plain.1]
  induction items with
  | nil => rfl
  | cons item items inductionHypothesis =>
    obtain ⟨first, rest⟩ := List.forall_mem_cons.mp valid
    rw [List.flatMap_cons, List.append_assoc]
    cases item with
    | single c => exact (skip first).trans (inductionHypothesis rest)
    | range a b =>
      have hyphen : ∀ rest : List UInt8, skipRange (45 :: rest) = skipRange rest := fun rest => rfl
      have others := inductionHypothesis rest
      exact (skip first.1).trans ((hyphen _).trans ((skip first.2).trans others))

/-- The head of what follows an item is not a hyphen. -/
theorem head_items {items : List Item} (valid : ∀ item ∈ items, item.Valid) (behind : List UInt8) :
    ∃ c rest, items.flatMap Item.bytes ++ 93 :: behind = c :: rest ∧ c ≠ 45 := by
  cases items with
  | nil => exact ⟨93, behind, rfl, by decide⟩
  | cons item items =>
    have first := valid item List.mem_cons_self
    cases item with
    | single c => exact ⟨c, _, rfl, first.2.1⟩
    | range a b => exact ⟨a, _, rfl, first.1.2.1⟩

theorem findRange_of_ne {c p d : UInt8} {rest : List UInt8} (apart : d ≠ 45) :
    findRange signed c (p :: d :: rest) =
      if p = 93 ∨ p = 0 then some none
      else if p = c then some (some (p :: d :: rest)) else findRange signed c (d :: rest) := by
  rw [findRange]
  · rw [List.head?_cons]
    simp only [Option.some_inj, if_neg apart]
  · rintro c2 pattern same
    exact apart (List.cons.inj same).1

theorem findRange_closed (c : UInt8) (behind : List UInt8) :
    findRange signed c (93 :: behind) = some none := by
  rw [findRange.eq_def]
  split
  · rename_i same
    cases same
  · rename_i same
    obtain ⟨rfl, -⟩ := List.cons.inj same
    exact if_pos (.inl rfl)
  · rename_i same
    obtain ⟨rfl, -⟩ := List.cons.inj same
    exact if_pos (.inl rfl)

/-- The set breaks the loop for its own characters, and then is skipped. -/
theorem findRange_items (signed : Bool) (c : UInt8) {items : List Item}
    (valid : ∀ item ∈ items, item.Valid) (behind : List UInt8) :
    ((∃ item ∈ items, item.Has signed c) ∧ ∃ rest,
      findRange signed c (items.flatMap Item.bytes ++ 93 :: behind) = some (some rest) ∧
        skipRange rest = some (93 :: behind)) ∨
    (¬∃ item ∈ items, item.Has signed c) ∧
      findRange signed c (items.flatMap Item.bytes ++ 93 :: behind) = some none := by
  induction items with
  | nil => exact .inr ⟨by simp, findRange_closed c behind⟩
  | cons item items inductionHypothesis =>
    obtain ⟨first, rest⟩ := List.forall_mem_cons.mp valid
    have skips := skipRange_items valid behind
    obtain ⟨d, more, next, apart⟩ := head_items rest behind
    have later := inductionHypothesis rest
    simp only [List.exists_mem_cons_iff]
    rw [List.flatMap_cons, List.append_assoc] at skips ⊢
    rw [next] at skips later ⊢
    cases item with
    | single p =>
      have inside : ¬(p = 93 ∨ p = 0) := fun both => both.elim first.2.2 first.1
      have step : findRange signed c ([p] ++ d :: more) =
          if p = c then some (some (p :: d :: more)) else findRange signed c (d :: more) := by
        rw [List.singleton_append, findRange_of_ne apart, if_neg inside]
      rw [Item.bytes, step]
      by_cases same : p = c
      · rw [if_pos same]
        exact .inl ⟨.inl same.symm, _, rfl, skips⟩
      · rw [if_neg same]
        have other : ¬Item.Has signed c (.single p) := fun is => same is.symm
        rw [or_iff_right other]
        exact later
    | range a b =>
      have inside : ¬(a = 93 ∨ a = 0) := fun both => both.elim first.1.2.2 first.1.1
      rw [Item.bytes, List.cons_append, List.cons_append, List.singleton_append, findRange,
        if_neg inside, if_neg first.2.1]
      by_cases same : a = c
      · rw [if_pos same]
        exact .inl ⟨.inl (.inl same.symm), _, rfl, skips⟩
      rw [if_neg same]
      by_cases between : (char signed a ≤ char signed c ∧ char signed c ≤ char signed b) ∨
          (char signed c ≤ char signed a ∧ char signed b ≤ char signed c)
      · rw [if_pos between]
        exact .inl ⟨.inl (.inr between), _, rfl, skips⟩
      · rw [if_neg between]
        have other : ¬Item.Has signed c (.range a b) := fun is =>
          is.elim (fun first => same first.symm) between
        rw [or_iff_right other]
        exact later

/-- The loop over a set, with the hyphen at its beginning. -/
theorem findRange_set (signed : Bool) (c : UInt8) (hyphen : Bool) {items : List Item}
    (valid : ∀ item ∈ items, item.Valid) (behind : List UInt8) :
    ((hyphen = true ∧ c = 45 ∨ ∃ item ∈ items, item.Has signed c) ∧ ∃ rest,
      findRange signed c (Piece.setBytes hyphen items ++ 93 :: behind) = some (some rest) ∧
        skipRange rest = some (93 :: behind)) ∨
    (¬(hyphen = true ∧ c = 45 ∨ ∃ item ∈ items, item.Has signed c) ∧
      findRange signed c (Piece.setBytes hyphen items ++ 93 :: behind) = some none) := by
  have plain := findRange_items signed c valid behind
  have skips := skipRange_items valid behind
  cases hyphen with
  | false => simpa [Piece.setBytes] using plain
  | true =>
    obtain ⟨d, more, next, apart⟩ := head_items valid behind
    rw [Piece.setBytes, if_pos rfl, List.append_assoc, List.singleton_append]
    rw [next] at plain skips ⊢
    rw [findRange_of_ne apart, if_neg (by decide)]
    by_cases same : c = 45
    · rw [if_pos same.symm]
      exact .inl ⟨.inl ⟨rfl, same⟩, _, rfl, skips⟩
    · rw [if_neg (Ne.symm same)]
      simpa [same] using plain

/-! ### Patterns -/

theorem matchLoop_nil {rounds : Nat} {p : UInt8} (more : p ≠ 0) (notStar : p ≠ 42)
    (pattern : List UInt8) : matchLoop signed (rounds + 1) [] (p :: pattern) = some false := by
  rw [matchLoop, List.head?_cons, Option.bind_eq_bind, Option.bind_some, if_neg more,
    if_neg notStar]
  rfl

theorem matchLoop_plain {rounds : Nat} {p c : UInt8} (valid : (Piece.plain p).Valid)
    (string pattern : List UInt8) : matchLoop signed (rounds + 1) (c :: string) (p :: pattern) =
      if p = c then matchLoop signed rounds string pattern else some false := by
  obtain ⟨notEnd, notStar, notAny, notSet, notEscape⟩ := valid
  rw [matchLoop, List.head?_cons, Option.bind_eq_bind, Option.bind_some, if_neg notEnd,
    if_neg notStar]
  dsimp only
  rw [if_neg notAny, if_neg notSet, if_neg notEscape]
  rfl

theorem matchLoop_set {rounds : Nat} {c p : UInt8} {string pattern rest behind : List UInt8}
    (found : findRange signed c pattern = some (some rest))
    (skips : skipRange rest = some (p :: behind)) :
    matchLoop signed (rounds + 1) (c :: string) (91 :: pattern) =
      matchLoop signed rounds string behind := by
  show (findRange signed c pattern).bind _ = _
  rw [found]
  show (skipRange rest).bind _ = _
  rw [skips]
  rfl

theorem matchLoop_not_set {rounds : Nat} {c : UInt8} {string pattern : List UInt8}
    (found : findRange signed c pattern = some none) :
    matchLoop signed (rounds + 1) (c :: string) (91 :: pattern) = some false := by
  show (findRange signed c pattern).bind _ = _
  rw [found]
  rfl

theorem head_bytes {piece : Piece} (valid : piece.Valid) (pattern : List UInt8) :
    ∃ p rest, piece.bytes ++ pattern = p :: rest ∧ p ≠ 0 := by
  cases piece with
  | star => exact ⟨42, pattern, rfl, by decide⟩
  | any => exact ⟨63, pattern, rfl, by decide⟩
  | set hyphen items => exact ⟨91, _, rfl, by decide⟩
  | plain p => exact ⟨p, pattern, rfl, valid.1⟩
  | escaped p => exact ⟨92, p :: pattern, rfl, by decide⟩

/-- What the pieces of a pattern are tested for, one after the other. -/
theorem matchLoop_decides {pieces : List Piece} (valid : ∀ piece ∈ pieces, piece.Valid)
    (behind : List UInt8) {rounds : Nat} (enough : pieces.length < rounds) :
    Decides (fun string => matchLoop signed rounds string (bytes pieces ++ 0 :: behind))
      (Follows (language signed pieces) (· = [])) := by
  induction pieces generalizing rounds with
  | nil =>
    obtain ⟨rounds, rfl⟩ := Nat.exists_eq_succ_of_ne_zero (Nat.ne_of_gt enough)
    intro text
    refine ⟨text.isEmpty, rfl, ?_⟩
    rw [language, List.map_nil, List.prod_nil, follows_one, List.isEmpty_iff]
  | cons piece pieces inductionHypothesis =>
    obtain ⟨first, rest⟩ := List.forall_mem_cons.mp valid
    obtain ⟨rounds, rfl⟩ := Nat.exists_eq_succ_of_ne_zero (Nat.ne_of_gt (Nat.zero_lt_of_lt enough))
    have later := inductionHypothesis rest (Nat.lt_of_succ_lt_succ enough)
    refine Decides.congr ?_ fun _ => follows_mul.symm
    rw [bytes, List.flatMap_cons, ← bytes, List.append_assoc]
    cases piece with
    | star =>
      cases pieces with
      | nil =>
        intro text
        refine ⟨true, rfl, iff_of_true rfl (follows_all ?_ text)⟩
        exact follows_one.mpr rfl
      | cons next pieces =>
        obtain ⟨p, more, is, notEnd⟩ := head_bytes (rest next List.mem_cons_self)
          (bytes pieces ++ 0 :: behind)
        have place : bytes (next :: pieces) ++ 0 :: behind = p :: more := by
          rw [bytes, List.flatMap_cons, ← bytes, List.append_assoc, is]
        rw [place] at later ⊢
        have step : ∀ string, matchLoop signed (rounds + 1) string (42 :: p :: more) =
            anyPostfix (fun string => matchLoop signed rounds string (p :: more)) string :=
          fun string => if_neg notEnd
        intro text
        obtain ⟨answer, found, right⟩ := decides_anyPostfix later text
        exact ⟨answer, (step text).trans found, right⟩
    | any =>
      exact decides_letters later rfl fun c text => .inl ⟨trivial, rfl⟩
    | set hyphen items =>
      have place : (Piece.set hyphen items).bytes ++ (bytes pieces ++ 0 :: behind) =
          91 :: (Piece.setBytes hyphen items ++ 93 :: (bytes pieces ++ 0 :: behind)) := by
        simp [Piece.bytes]
      rw [place]
      refine decides_letters later rfl fun c text => ?_
      rcases findRange_set signed c hyphen first (bytes pieces ++ 0 :: behind) with
        ⟨has, rest, found, skips⟩ | ⟨not, found⟩
      · exact .inl ⟨has, matchLoop_set found skips⟩
      · exact .inr ⟨not, matchLoop_not_set found⟩
    | plain p =>
      refine decides_letters later (matchLoop_nil first.1 first.2.1 _) fun c text => ?_
      have step : matchLoop signed (rounds + 1) (c :: text)
          (p :: (bytes pieces ++ 0 :: behind)) = _ := matchLoop_plain first text _
      by_cases same : p = c
      · exact .inl ⟨same.symm, step.trans (if_pos same)⟩
      · exact .inr ⟨Ne.symm same, step.trans (if_neg same)⟩
    | escaped p =>
      refine decides_letters later rfl fun c text => ?_
      have step : matchLoop signed (rounds + 1) (c :: text)
          (92 :: p :: (bytes pieces ++ 0 :: behind)) =
          if p = 0 then some false
          else if p = c then matchLoop signed rounds text (bytes pieces ++ 0 :: behind)
          else some false := rfl
      rw [if_neg first] at step
      by_cases same : p = c
      · exact .inl ⟨same.symm, step.trans (if_pos same)⟩
      · exact .inr ⟨Ne.symm same, step.trans (if_neg same)⟩

theorem length_le_bytes {pieces : List Piece} (valid : ∀ piece ∈ pieces, piece.Valid) :
    pieces.length ≤ (bytes pieces).length := by
  induction pieces with
  | nil => exact Nat.zero_le _
  | cons piece pieces inductionHypothesis =>
    obtain ⟨first, rest⟩ := List.forall_mem_cons.mp valid
    obtain ⟨p, more, is, -⟩ := head_bytes first (bytes pieces)
    have later := inductionHypothesis rest
    have whole : bytes (piece :: pieces) = piece.bytes ++ bytes pieces := List.flatMap_cons
    have some' : 0 < piece.bytes.length := by
      cases piece <;> simp [Piece.bytes]
    rw [whole, List.length_append, List.length_cons]
    omega

/-- A string matches a pattern just when it is a word of its language. -/
theorem Tcl_StringMatch_iff (signed : Bool) {pieces : List Piece}
    (valid : ∀ piece ∈ pieces, piece.Valid) (string behind : List UInt8) :
    ∃ answer, Tcl_StringMatch signed string (bytes pieces ++ 0 :: behind) = some answer ∧
      (answer = true ↔ string ∈ language signed pieces) := by
  have enough : pieces.length < (bytes pieces ++ 0 :: behind).length + 1 := by
    have := length_le_bytes valid
    rw [List.length_append]
    omega
  obtain ⟨answer, found, right⟩ := matchLoop_decides valid behind enough string
  exact ⟨answer, found, right.trans mem_iff_follows.symm⟩

end

/-- The pattern `*[-b-d]\?x`. -/
def samplePieces : List Piece :=
  [.star, .set true [.range 98 100], .escaped 63, .plain 120]

/-- Behind what `*` is for, a letter of the set, a question mark and the last letter are left. -/
theorem Tcl_StringMatch_samplePieces :
    bytes samplePieces = [42, 91, 45, 98, 45, 100, 93, 92, 63, 120] ∧
    ∃ answer, Tcl_StringMatch true [97, 99, 45, 63, 120] (bytes samplePieces ++ 0 :: [255]) =
        some answer ∧
      (answer = true ↔ [97, 99, 45, 63, 120] ∈ language true samplePieces) := by
  refine ⟨rfl, Tcl_StringMatch_iff true ?_ _ [255]⟩
  simp [samplePieces, Piece.Valid, Item.Valid, Item.Plain]

end StringMatch

end Frobio.Ncl
