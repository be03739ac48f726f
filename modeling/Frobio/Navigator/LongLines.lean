/-
This file models `ContinueLongLines` of `lemma/ui.go`, which breaks the lines that are wider than
the screen, with a mark on both sides of each break, and shows that what it puts on the screen fits,
and that the lines are read back from it.

The next piece of a line starts with the mark. So a piece takes at least `w - 2` bytes off the
line, and the loop ends just because that is more than none.
-/

import Frobio.Lib.Loop
import Frobio.Lib.SlashPath

namespace Frobio.LongLines

open Loop
open SlashPath (Text)

/-- The backslash. -/
def mark : UInt8 := 92

/-- `w - 1`, of a `uint`. -/
def pred (w : Nat) : Nat := (w + (2 ^ 64 - 1)) % 2 ^ 64

/-- `line[:k]` and `line[k:]`. -/
def cut (line : Text) (k : Nat) : Option (Text × Text) :=
  if k ≤ line.length then some (line.take k, line.drop k) else none

/-- The result so far, and what is left of the line. -/
abbrev Breaking := List Text × Text

def tooLong (w : Nat) (state : Breaking) : Bool := w < state.2.length

def breakOff (w : Nat) (state : Breaking) : Option Breaking :=
  (cut state.2 (pred w)).map fun parts =>
    (state.1 ++ [parts.1 ++ [mark]],
      if 0 < parts.2.length then [mark] ++ parts.2 else parts.2)

def lastPiece (state : Breaking) : List Text :=
  if 0 < state.2.length then state.1 ++ [state.2] else state.1

/-- `none` if a slice is out of range, or the loop does not end in as many rounds. -/
def continueLine (rounds w : Nat) (result : List Text) (line : Text) : Option (List Text) :=
  if line.length = 0 then some (result ++ [[]])
  else (whileLoop (tooLong w) (breakOff w) rounds (result, line)).map lastPiece

def ContinueLongLines (rounds w : Nat) (lines : List Text) : Option (List Text) :=
  lines.foldlM (continueLine rounds w) []

/-- The pieces are the line, once the marks and the breaks between them are removed. -/
inductive Unbroken : List Text → Text → Prop
  | last (line : Text) : Unbroken [line] line
  | next (front : Text) {piece line : Text} {rest : List Text}
      (after : Unbroken (piece :: rest) line) :
      Unbroken ((front ++ [mark]) :: ([mark] ++ piece) :: rest) (front ++ line)

/-- The pieces are those of one line only. -/
theorem Unbroken.unique {pieces : List Text} {line other : Text} (first : Unbroken pieces line)
    (second : Unbroken pieces other) : line = other := by
  induction first generalizing other with
  | last line =>
    cases second
    rfl
  | @next front piece line rest after inductionHypothesis =>
    generalize equal : (front ++ [mark]) :: ([mark] ++ piece) :: rest = pieces at second
    cases second with
    | last => cases equal
    | @next front' piece' line' rest' after' =>
      obtain ⟨same, others⟩ := List.cons.inj equal
      obtain ⟨samePiece, rfl⟩ := List.cons.inj others
      obtain rfl := List.append_cancel_left samePiece
      rw [List.append_cancel_right same, inductionHypothesis after']

/-! ### One line -/

variable {w : Nat}

theorem pred_eq (some : 0 < w) (bounded : w < 2 ^ 64) : pred w = w - 1 := by
  unfold pred
  omega

/-- What a round does to a line of which all but the mark at the start is still to be shown. -/
theorem breakOff_eq (wide : 2 < w) (bounded : w < 2 ^ 64) (result : List Text)
    {before line : Text} (short : before.length ≤ 1) (long : w < (before ++ line).length) :
    breakOff w (result, before ++ line) =
      some (result ++ [before ++ (line.take (w - 1 - before.length) ++ [mark])],
        [mark] ++ line.drop (w - 1 - before.length)) := by
  rw [List.length_append] at long
  have inRange : w - 1 ≤ (before ++ line).length := by
    rw [List.length_append]
    omega
  have more : 0 < (line.drop (w - 1 - before.length)).length := by
    rw [List.length_drop]
    omega
  have front : (before ++ line).take (w - 1) = before ++ line.take (w - 1 - before.length) := by
    rw [List.take_append, List.take_of_length_le (by omega)]
  have back : (before ++ line).drop (w - 1) = line.drop (w - 1 - before.length) := by
    rw [List.drop_append, List.drop_of_length_le (by omega), List.nil_append]
  rw [breakOff, pred_eq (by omega) bounded, cut, if_pos inRange, front, back, Option.map_some,
    if_pos more, List.append_assoc]

/-- The loop goes on until the rest of the line fits behind the mark. -/
theorem exists_pieces (wide : 2 < w) (bounded : w < 2 ^ 64) {rounds : Nat} (result : List Text)
    {before line : Text} (short : before.length ≤ 1) (more : line ≠ [])
    (enough : line.length ≤ rounds) : ∃ piece rest,
      (whileLoop (tooLong w) (breakOff w) rounds (result, before ++ line)).map lastPiece =
        some (result ++ (before ++ piece) :: rest) ∧
      Unbroken (piece :: rest) line ∧
      ∀ shown ∈ (before ++ piece) :: rest, shown.length ≤ w := by
  have positive : 0 < line.length := List.length_pos_iff.mpr more
  induction rounds generalizing result before line with
  | zero => omega
  | succ rounds inductionHypothesis =>
    by_cases fits : (before ++ line).length ≤ w
    · have stops : tooLong w (result, before ++ line) = false := decide_eq_false (not_lt.mpr fits)
      have shows : 0 < (before ++ line).length := by
        rw [List.length_append]
        omega
      refine ⟨line, [], ?_, .last line, ?_⟩
      · rw [whileLoop_of_not _ stops, Option.map_some, lastPiece, if_pos shows]
      · intro shown member
        rw [List.mem_singleton.mp member]
        exact fits
    · have goes : tooLong w (result, before ++ line) = true := decide_eq_true (not_le.mp fits)
      rw [List.length_append] at fits
      have left : line.drop (w - 1 - before.length) ≠ [] :=
        List.ne_nil_of_length_pos (by rw [List.length_drop]; omega)
      obtain ⟨piece, rest, reached, unbroken, fit⟩ := inductionHypothesis
        (result ++ [before ++ (line.take (w - 1 - before.length) ++ [mark])])
        (show ([mark] : Text).length ≤ 1 from le_rfl) left (by rw [List.length_drop]; omega)
        (List.length_pos_iff.mpr left)
      refine ⟨line.take (w - 1 - before.length) ++ [mark], ([mark] ++ piece) :: rest, ?_, ?_, ?_⟩
      · rw [whileLoop, if_pos goes,
          breakOff_eq wide bounded result short (by rw [List.length_append]; omega),
          Option.bind_some, reached, List.append_assoc]
        rfl
      · have whole := Unbroken.next (line.take (w - 1 - before.length)) unbroken
        rwa [List.take_append_drop] at whole
      · intro shown member
        rcases List.mem_cons.mp member with rfl | inRest
        · rw [List.length_append, List.length_append, List.length_take, List.length_singleton]
          omega
        · exact fit shown inRest

theorem exists_continueLine (wide : 2 < w) (bounded : w < 2 ^ 64) {rounds : Nat}
    (result : List Text) {line : Text} (enough : line.length ≤ rounds) : ∃ pieces,
      continueLine rounds w result line = some (result ++ pieces) ∧ Unbroken pieces line ∧
      ∀ shown ∈ pieces, shown.length ≤ w := by
  by_cases more : line = []
  · subst more
    refine ⟨[[]], rfl, .last [], ?_⟩
    intro shown member
    rw [List.mem_singleton.mp member]
    exact Nat.zero_le w
  · obtain ⟨piece, rest, reached, unbroken, fit⟩ := exists_pieces wide bounded result
      (show ([] : Text).length ≤ 1 from Nat.zero_le 1) more enough
    refine ⟨piece :: rest, ?_, unbroken, fit⟩
    rw [continueLine, if_neg (mt List.length_eq_zero_iff.mp more)]
    exact reached

/-! ### All lines -/

theorem exists_groups (wide : 2 < w) (bounded : w < 2 ^ 64) {rounds : Nat} (result : List Text)
    {lines : List Text} (enough : ∀ line ∈ lines, line.length ≤ rounds) : ∃ groups,
      lines.foldlM (continueLine rounds w) result = some (result ++ groups.flatten) ∧
      List.Forall₂ Unbroken groups lines ∧ ∀ shown ∈ groups.flatten, shown.length ≤ w := by
  induction lines generalizing result with
  | nil =>
    refine ⟨[], ?_, .nil, fun shown member => absurd member List.not_mem_nil⟩
    rw [List.flatten_nil, List.append_nil]
    rfl
  | cons line lines inductionHypothesis =>
    obtain ⟨pieces, continued, unbroken, fit⟩ :=
      exists_continueLine wide bounded result (enough line List.mem_cons_self)
    obtain ⟨groups, reached, others, fits⟩ := inductionHypothesis (result ++ pieces)
      fun other member => enough other (List.mem_cons_of_mem _ member)
    refine ⟨pieces :: groups, ?_, .cons unbroken others, ?_⟩
    · rw [List.foldlM_cons, continued, List.flatten_cons, ← List.append_assoc]
      exact reached
    · intro shown member
      rw [List.flatten_cons] at member
      rcases List.mem_append.mp member with first | later
      · exact fit shown first
      · exact fits shown later

/-- On every screen that is wider than two columns, the lines are broken in finite time, what is
shown fits on the screen, and it is the lines in their order, once the marks and the breaks that
were added are removed. -/
theorem lines_continued (wide : 2 < w) (bounded : w < 2 ^ 64) (lines : List Text) :
    ∃ rounds result, ContinueLongLines rounds w lines = some result ∧
      (∀ shown ∈ result, shown.length ≤ w) ∧
      ∃ groups, result = groups.flatten ∧ List.Forall₂ Unbroken groups lines := by
  have enough : ∀ line ∈ lines, line.length ≤ (lines.map List.length).sum :=
    fun line member => List.le_sum_of_mem (List.mem_map_of_mem member)
  obtain ⟨groups, reached, unbroken, fit⟩ := exists_groups wide bounded [] enough
  exact ⟨_, groups.flatten, reached, fit, groups, rfl, unbroken⟩

theorem lines_continued_threeColumns :
    ∃ rounds result, ContinueLongLines rounds 3 [[97, 98, 99, 100, 101], [], [97, 98, 99]] =
        some result ∧
      (∀ shown ∈ result, shown.length ≤ 3) ∧
      ∃ groups, result = groups.flatten ∧
        List.Forall₂ Unbroken groups [[97, 98, 99, 100, 101], [], [97, 98, 99]] :=
  lines_continued (by decide) (by decide) _

/-- On three columns, "abcde" is shown as "ab\", "\c\", "\de". -/
example : ContinueLongLines 5 3 [[97, 98, 99, 100, 101], [], [97, 98, 99]] =
    some [[97, 98, 92], [92, 99, 92], [92, 100, 101], [], [97, 98, 99]] := by
  decide

end Frobio.LongLines
