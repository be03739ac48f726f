/-
This file models the helper `insert-gap-in-asm`, which breaks an assembly file into pieces at
labels, and puts as many of the pieces before a gap as fit, a filler over the gap, and the other
pieces behind it.

The pieces are in a table under their labels, and the last piece is in it a second time, under the
name `-LAST`. So a label that is given twice loses a piece, and a file that is not broken at all has
one piece for the first and the last. Where the first piece ends behind the gap, nothing fits, and
the filler begins there.
-/

import Mathlib.Data.List.Nodup
import Mathlib.Data.List.Perm.Subperm
import Mathlib.Tactic
import Frobio.Coms.Quint
import Frobio.Lib.Loop

namespace Frobio.InsertGap

open Coms Loop

abbrev Text := List UInt8

/-! ### Reading the assembly file -/

def isBlank (b : UInt8) : Bool := b = 32 ∨ b = 9

/-- A letter, a digit or a dot. -/
def isNameByte (b : UInt8) : Bool :=
  (65 ≤ b ∧ b ≤ 90) ∨ (97 ≤ b ∧ b ≤ 122) ∨ (48 ≤ b ∧ b ≤ 57) ∨ b = 46

def isLabelByte (b : UInt8) : Bool := isNameByte b ∨ b = 95

/-- What is behind the blanks of a line, if it begins with any. -/
def afterBlanks (line : Text) : Option Text :=
  if line.takeWhile isBlank = [] then none else some (line.dropWhile isBlank)

/-- `^[ \t]+[.]area[ \t]+([A-Za-z0-9.]+)$` -/
def MatchArea (line : Text) : Bool :=
  (afterBlanks line).any fun rest => (ascii ".area").isPrefixOf rest &&
    (afterBlanks (rest.drop 5)).any fun name => name ≠ [] && name.all isNameByte

/-- `^[ \t]+([.]area|[.]globl|[.]ascii|jmp|rts|puls.*pc).*` -/
def MatchJump (line : Text) : Bool :=
  (afterBlanks line).any fun rest =>
    (ascii ".area").isPrefixOf rest || (ascii ".globl").isPrefixOf rest ||
      (ascii ".ascii").isPrefixOf rest || (ascii "jmp").isPrefixOf rest ||
      (ascii "rts").isPrefixOf rest ||
      ((ascii "puls").isPrefixOf rest && (rest.drop 4).tails.any (ascii "pc").isPrefixOf)

/-- The label of `^(_[A-Za-z0-9_.]+)([: ].*|$)`. -/
def MatchLabel (line : Text) : Option Text :=
  match line with
  | 95 :: rest =>
    let behind := (rest.dropWhile isLabelByte).head?
    if rest.takeWhile isLabelByte ≠ [] ∧ (behind = none ∨ behind = some 58 ∨ behind = some 32) then
      some (95 :: rest.takeWhile isLabelByte)
    else none
  | _ => none

structure Piece where
  name : Text
  lines : List Text
  next : Text
  deriving DecidableEq

/-- The variables of `SlurpAsm`, and the pieces before the one that lines are added to. -/
structure Slurping where
  wasJump : Bool
  gotText : Bool
  done : List Piece
  p : Piece

/-- The line, or the one that takes the place of an `.area` line. -/
def rewritten (line : Text) : Text := if MatchArea line then ascii "  .area .text" else line

def slurpLine (s : Slurping) (line : Text) : Slurping :=
  let gotText := s.gotText || MatchArea line
  let line := rewritten line
  match if gotText ∧ s.wasJump then MatchLabel line else none with
  | some label =>
    ⟨MatchJump line, gotText, s.done ++ [{ s.p with next := label }], ⟨label, [line], []⟩⟩
  | none => ⟨MatchJump line, gotText, s.done, { s.p with lines := s.p.lines ++ [line] }⟩

def slurp (lines : List Text) : Slurping :=
  lines.foldl slurpLine ⟨false, false, [], ⟨ascii "-FIRST", [], []⟩⟩

/-- The piece at the end, after its name was changed. -/
def Slurping.last (s : Slurping) : Piece := { s.p with name := ascii "-LAST" }

def Slurping.pieces (s : Slurping) : List Piece := s.done ++ [s.last]

/-- The labels that the file is broken at. -/
def Slurping.labels (s : Slurping) : List Text := s.done.tail.map Piece.name ++ [s.p.name]

/-- `Pieces`: the name under which a piece is found, and the piece. -/
abbrev Table := List (Text × Piece)

def Table.set (table : Table) (key : Text) (p : Piece) : Table :=
  table.filter (fun entry => entry.1 ≠ key) ++ [(key, p)]

def Table.get (table : Table) (key : Text) : Option Piece :=
  (table.find? fun entry => entry.1 = key).map Prod.snd

/-- `Pieces`, as `SlurpAsm` leaves it. -/
def Slurping.table (s : Slurping) : Table :=
  ((s.done.foldl (fun table p => Table.set table p.name p) []).set s.p.name s.last).set
    (ascii "-LAST") s.last

/-! ### Writing it again -/

/-- Is it the first or the last piece? -/
def isSpecial (p : Piece) : Bool := (ascii "-").isPrefixOf p.name

section
variable (symbols : Text → Nat)

/-- `p.size`. The address is zero for a label that the map file does not have. -/
def size (p : Piece) : Int := symbols p.next - symbols p.name

/-- `sort.Strings` -/
def sorted (names : List Text) : List Text :=
  names.mergeSort fun first second => !second.lex first fun a b => a.toNat < b.toNat

def isCandidate (used : List Text) (wanted : Int) (p : Piece) : Bool :=
  p.name ≠ ascii "_main" ∧ ¬isSpecial p ∧ ¬used.contains p.name ∧ 0 < symbols p.name ∧
    0 < symbols p.next ∧ size symbols p ≤ wanted

def bigger (biggest : Option Piece) (p : Piece) : Option Piece :=
  match biggest with
  | none => some p
  | some q => if size symbols q < size symbols p then some p else some q

def ChooseBiggestPieceNotExceeding (table : Table) (used : List Text) (wanted : Int) :
    Option Piece :=
  let temp := sorted
    ((table.filter fun entry => isCandidate symbols used wanted entry.2).map fun entry =>
      entry.2.name)
  (temp.filterMap table.get).foldl (bigger symbols) none

/-- The variables of the first loop of `Rearrange`: `chosen` are the pieces it emits, which are
those that are marked as used. -/
structure Filling where
  place : Int
  chosen : List Piece

def Filling.used (f : Filling) : List Text := f.chosen.map Piece.name

def Filling.choice (table : Table) (gap : Int) (f : Filling) : Option Piece :=
  ChooseBiggestPieceNotExceeding symbols table f.used (gap - f.place)

/-- The pieces that are not used, in the order of their names. -/
def others (table : Table) (f : Filling) : List Piece :=
  (sorted ((table.filter fun entry =>
    ¬isSpecial entry.2 ∧ ¬f.used.contains entry.2.name).map fun entry =>
      entry.2.name)).filterMap table.get

/-- What is written: the pieces, and `fill $FF,` with a count. -/
inductive Written
  | piece (p : Piece)
  | filling (count : Int)

/-- `none` if the loop does not end in as many rounds, or a piece is missing. -/
def Rearrange (rounds : Nat) (gap gapSize : Int) (table : Table) : Option (List Written) :=
  (table.get (ascii "-FIRST")).bind fun first =>
  (whileLoop (fun f => (Filling.choice symbols table gap f).isSome)
    (fun f => (Filling.choice symbols table gap f).map fun p =>
      ⟨f.place + size symbols p, f.chosen ++ [p]⟩) rounds ⟨symbols first.next, []⟩).bind fun f =>
  (table.get (ascii "-LAST")).map fun last =>
    .piece first :: f.chosen.map .piece ++ [.filling (gap - f.place + gapSize)] ++
      (others table f).map .piece ++ [.piece last]

/-! ### What it should do -/

/-- The pieces have as many bytes as the map says, where it knows both ends. -/
def Right (bytes : Piece → Nat) (pieces : List Piece) : Prop :=
  ∀ p ∈ pieces, ¬isSpecial p → 0 < symbols p.name → 0 < symbols p.next →
    size symbols p = bytes p

/-- Every line is written once, the pieces as they are, with the first piece in front and the last
one at the end; and if the map is right, the filler goes from the gap, or before it, to its end. -/
def Rearranges (gap gapSize : Int) (lines : List Text) : Prop :=
  let pieces := (slurp lines).pieces
  pieces.flatMap Piece.lines = lines.map rewritten ∧
  ∃ rounds first chosen count rest last,
    Rearrange symbols rounds gap gapSize (slurp lines).table =
      some (.piece first :: chosen.map .piece ++ [.filling count] ++ rest.map .piece ++
        [.piece last]) ∧
    (first :: chosen ++ rest ++ [last]).Perm pieces ∧
    pieces.head? = some first ∧ pieces.getLast? = some last ∧
    ∀ bytes, Right symbols bytes pieces →
      symbols first.next + (((chosen.map bytes).sum : Nat) : Int) ≤ gap ∧
      symbols first.next + (((chosen.map bytes).sum : Nat) : Int) + count = gap + gapSize

/-- The file is broken at least once, at labels that are different, and the first piece does not
reach into the gap, unless the map is wrong. -/
def Breakable (gap : Int) (lines : List Text) : Prop :=
  let s := slurp lines
  s.done ≠ [] ∧ s.labels.Nodup ∧
    ((∃ bytes, Right symbols bytes s.pieces) →
      ∀ first ∈ s.done.head?, (symbols first.next : Int) ≤ gap)

end

/-! ### The table -/

theorem mem_set {table : Table} {key : Text} {p : Piece} {entry : Text × Piece} :
    entry ∈ table.set key p ↔ (entry ∈ table ∧ entry.1 ≠ key) ∨ entry = (key, p) := by
  rw [Table.set, List.mem_append, List.mem_filter, List.mem_singleton, decide_eq_true_eq]

/-- Each name is once in the table, and a piece in the middle is under its own. -/
structure Proper (table : Table) : Prop where
  nodup : (table.map Prod.fst).Nodup
  own : ∀ entry ∈ table, ¬isSpecial entry.2 → entry.1 = entry.2.name

section
variable {table : Table} (proper : Proper table)
include proper

theorem Proper.set {key : Text} {p : Piece} (own : ¬isSpecial p → key = p.name) :
    Proper (table.set key p) := by
  constructor
  · rw [Table.set, List.map_append, List.nodup_append]
    refine ⟨proper.nodup.sublist (List.filter_sublist.map Prod.fst), List.nodup_singleton _, ?_⟩
    intro name member other same
    obtain ⟨entry, kept, rfl⟩ := List.mem_map.mp member
    rw [List.mem_singleton.mp same]
    exact of_decide_eq_true (List.mem_filter.mp kept).2
  · intro entry member
    rcases mem_set.mp member with ⟨before, -⟩ | rfl
    · exact proper.own entry before
    · exact own

theorem Proper.get_of_mem {entry : Text × Piece} (member : entry ∈ table) :
    table.get entry.1 = some entry.2 := by
  have nodup := proper.nodup
  clear proper
  unfold Table.get
  induction table with
  | nil => cases member
  | cons head table inductionHypothesis =>
    rw [List.map_cons, List.nodup_cons] at nodup
    rcases List.mem_cons.mp member with rfl | later
    · have here : decide (entry.1 = entry.1) = true := decide_eq_true rfl
      rw [List.find?_cons, here]
      rfl
    · have other : decide (head.1 = entry.1) = false := decide_eq_false fun same =>
        nodup.1 (same ▸ List.mem_map_of_mem later)
      rw [List.find?_cons, other]
      exact inductionHypothesis later nodup.2

end

/-- The pieces in the middle. -/
def Table.middle (table : Table) : Table := table.filter fun entry => ¬isSpecial entry.2

section
variable {table : Table} (proper : Proper table)
include proper

theorem Proper.get_name {entry : Text × Piece} (member : entry ∈ table.middle) :
    table.get entry.2.name = some entry.2 := by
  obtain ⟨inTable, ordinary⟩ := List.mem_filter.mp member
  rw [← proper.own entry inTable (of_decide_eq_true ordinary)]
  exact proper.get_of_mem inTable

theorem Proper.nodup_names : (table.middle.map fun entry => entry.2.name).Nodup := by
  have same : table.middle.map (fun entry => entry.2.name) = table.middle.map Prod.fst := by
    refine List.map_congr_left fun entry member => ?_
    obtain ⟨inTable, ordinary⟩ := List.mem_filter.mp member
    exact (proper.own entry inTable (of_decide_eq_true ordinary)).symm
  rw [same]
  exact proper.nodup.sublist (List.filter_sublist.map Prod.fst)

end

/-! ### Filling up to the gap -/

section
variable {symbols : Text → Nat} {table : Table}

theorem mem_of_foldl_bigger {pieces : List Piece} {biggest : Option Piece} {p : Piece}
    (found : pieces.foldl (bigger symbols) biggest = some p) : p ∈ pieces ∨ biggest = some p := by
  induction pieces generalizing biggest with
  | nil => exact .inr found
  | cons q pieces inductionHypothesis =>
    rcases inductionHypothesis found with later | here
    · exact .inl (List.mem_cons_of_mem _ later)
    · cases biggest with
      | none => exact .inl (List.mem_cons.mpr (.inl (Option.some.inj here).symm))
      | some first =>
        rw [bigger] at here
        split at here
        · exact .inl (List.mem_cons.mpr (.inl (Option.some.inj here).symm))
        · exact .inr here

theorem mem_sorted {names : List Text} {name : Text} : name ∈ sorted names ↔ name ∈ names :=
  List.mem_mergeSort

/-- A piece that is chosen is one of the middle, and one of the candidates. -/
theorem Proper.of_choose (proper : Proper table) {used : List Text} {wanted : Int} {p : Piece}
    (chosen : ChooseBiggestPieceNotExceeding symbols table used wanted = some p) :
    (∃ entry ∈ table.middle, entry.2 = p) ∧ isCandidate symbols used wanted p = true := by
  rcases mem_of_foldl_bigger chosen with member | none
  · obtain ⟨name, listed, found⟩ := List.mem_filterMap.mp member
    obtain ⟨entry, candidate, rfl⟩ := List.mem_map.mp (mem_sorted.mp listed)
    obtain ⟨inTable, is⟩ := List.mem_filter.mp candidate
    have middle : entry ∈ table.middle :=
      List.mem_filter.mpr ⟨inTable, decide_eq_true (of_decide_eq_true is).2.1⟩
    rw [proper.get_name middle, Option.some_inj] at found
    exact ⟨⟨entry, middle, found⟩, found ▸ is⟩
  · cases none

/-- What holds of the pieces that are chosen, from the place `start` on. -/
structure Filled (symbols : Text → Nat) (table : Table) (gap start : Int) (f : Filling) : Prop where
  nodup : f.used.Nodup
  middle : ∀ p ∈ f.chosen, ∃ entry ∈ table.middle, entry.2 = p
  mapped : ∀ p ∈ f.chosen, 0 < symbols p.name ∧ 0 < symbols p.next
  place : f.place = start + (f.chosen.map (size symbols)).sum
  fits : start ≤ gap → f.place ≤ gap

theorem Proper.filled_next (proper : Proper table) {gap start : Int} {f next : Filling}
    (filled : Filled symbols table gap start f)
    (goes : ((Filling.choice symbols table gap f).map fun p =>
      (⟨f.place + size symbols p, f.chosen ++ [p]⟩ : Filling)) = some next) :
    Filled symbols table gap start next := by
  obtain ⟨p, choice, rfl⟩ := Option.map_eq_some_iff.mp goes
  obtain ⟨middle, is⟩ := proper.of_choose choice
  obtain ⟨-, -, fresh, starts, ends, small⟩ := of_decide_eq_true is
  refine ⟨?_, ?_, ?_, ?_, fun _ => by dsimp only; omega⟩
  · rw [Filling.used, List.map_append, List.nodup_append]
    refine ⟨filled.nodup, List.nodup_singleton _, ?_⟩
    intro name member other same
    rw [List.mem_singleton.mp same]
    exact fun equal => fresh (List.elem_eq_true_of_mem (equal ▸ member))
  · exact List.forall_mem_append.mpr ⟨filled.middle, List.forall_mem_singleton.mpr middle⟩
  · exact List.forall_mem_append.mpr ⟨filled.mapped, List.forall_mem_singleton.mpr ⟨starts, ends⟩⟩
  · dsimp only
    rw [List.map_append, List.sum_append, filled.place, List.map_singleton, List.sum_singleton,
      Int.add_assoc]

theorem filled_first (gap start : Int) : Filled symbols table gap start ⟨start, []⟩ :=
  ⟨List.nodup_nil, fun _ member => absurd member List.not_mem_nil,
    fun _ member => absurd member List.not_mem_nil, by simp, id⟩

theorem Filled.length_le {gap start : Int} {f : Filling}
    (filled : Filled symbols table gap start f) : f.chosen.length ≤ table.middle.length := by
  have listed : f.used ⊆ table.middle.map fun entry => entry.2.name := by
    intro name member
    obtain ⟨p, chosen, rfl⟩ := List.mem_map.mp member
    obtain ⟨entry, middle, rfl⟩ := filled.middle p chosen
    exact List.mem_map_of_mem middle
  have less := (List.subperm_of_subset filled.nodup listed).length_le
  rwa [Filling.used, List.length_map, List.length_map] at less

/-- The loop ends, as no piece is chosen twice. -/
theorem Proper.exists_filled (proper : Proper table) (gap start : Int) : ∃ rounds f,
    whileLoop (fun f => (Filling.choice symbols table gap f).isSome)
      (fun f => (Filling.choice symbols table gap f).map fun p =>
        ⟨f.place + size symbols p, f.chosen ++ [p]⟩) rounds ⟨start, []⟩ = some f ∧
      Filled symbols table gap start f := by
  have run : ∃ f, whileLoop (fun f => (Filling.choice symbols table gap f).isSome)
      (fun f => (Filling.choice symbols table gap f).map fun p =>
        ⟨f.place + size symbols p, f.chosen ++ [p]⟩) table.middle.length ⟨start, []⟩ = some f ∧
      Filled symbols table gap start f ∧ (Filling.choice symbols table gap f).isSome = false := by
    refine whileLoop_invariant (Filled symbols table gap start)
      (fun f => table.middle.length - f.chosen.length) ?_ (filled_first gap start) (Nat.sub_le _ _)
    intro f goes filled
    obtain ⟨p, choice⟩ := Option.isSome_iff_exists.mp goes
    have next := proper.filled_next filled (by rw [choice]; rfl)
    refine ⟨_, by rw [choice]; rfl, next, ?_⟩
    have less := next.length_le
    rw [List.length_append, List.length_singleton] at less ⊢
    omega
  obtain ⟨f, reached, filled, -⟩ := run
  exact ⟨_, f, reached, filled⟩

/-- The pieces that are chosen and the others are those of the middle. -/
theorem Proper.perm_middle (proper : Proper table) {gap start : Int} {f : Filling}
    (filled : Filled symbols table gap start f) :
    (f.chosen ++ others table f).Perm (table.middle.map Prod.snd) := by
  have chosen : f.used.filterMap table.get = f.chosen := by
    rw [Filling.used, List.filterMap_map]
    refine (List.filterMap_congr fun p member => ?_).trans List.filterMap_some
    obtain ⟨entry, middle, rfl⟩ := filled.middle p member
    exact proper.get_name middle
  have all : (table.middle.map fun entry => entry.2.name).filterMap table.get =
      table.middle.map Prod.snd := by
    rw [List.filterMap_map, ← List.filterMap_eq_map]
    exact List.filterMap_congr fun entry member => proper.get_name member
  have names : (f.used ++ sorted ((table.filter fun entry =>
      ¬isSpecial entry.2 ∧ ¬f.used.contains entry.2.name).map fun entry => entry.2.name)).Perm
        (table.middle.map fun entry => entry.2.name) := by
    refine ((List.mergeSort_perm ..).append_left _).trans ?_
    have fewer : ((table.filter fun entry =>
        ¬isSpecial entry.2 ∧ ¬f.used.contains entry.2.name).map fun entry => entry.2.name) =
          (table.middle.map fun entry => entry.2.name).filter fun name => name ∉ f.used := by
      rw [List.filter_map, Table.middle, List.filter_filter]
      refine congrArg _ (List.filter_congr fun entry _ => ?_)
      simp only [Bool.decide_and, List.contains_iff_mem]
      exact Bool.and_comm ..
    rw [fewer]
    refine (List.perm_ext_iff_of_nodup ?_ proper.nodup_names).mpr fun name => ?_
    · refine List.nodup_append.mpr ⟨filled.nodup, proper.nodup_names.filter _, ?_⟩
      intro name member other same equal
      exact of_decide_eq_true (List.mem_filter.mp same).2 (equal ▸ member)
    · rw [List.mem_append, List.mem_filter, decide_eq_true_eq]
      constructor
      · rintro (used | ⟨middle, -⟩)
        · obtain ⟨p, member, rfl⟩ := List.mem_map.mp used
          obtain ⟨entry, middle, rfl⟩ := filled.middle p member
          exact List.mem_map_of_mem middle
        · exact middle
      · intro middle
        by_cases used : name ∈ f.used
        · exact .inl used
        · exact .inr ⟨middle, used⟩
  have perm := names.filterMap table.get
  rw [List.filterMap_append, chosen, all] at perm
  exact perm

/-- What `Rearrange` writes, if anything. -/
theorem Proper.rearrange_eq (proper : Proper table) {gap gapSize : Int} {rounds : Nat}
    {first last : Piece} (head : table.get (ascii "-FIRST") = some first)
    (tail : table.get (ascii "-LAST") = some last) {written : List Written}
    (done : Rearrange symbols rounds gap gapSize table = some written) : ∃ f,
      Filled symbols table gap (symbols first.next) f ∧
      written = .piece first :: f.chosen.map .piece ++ [.filling (gap - f.place + gapSize)] ++
        (others table f).map .piece ++ [.piece last] := by
  rw [Rearrange, head, tail, Option.bind_some] at done
  obtain ⟨f, reached, done⟩ := Option.bind_eq_some_iff.mp done
  refine ⟨f, ?_, (Option.some.inj done).symm⟩
  exact invariant_of_whileLoop (Filled symbols table gap (symbols first.next))
    (fun f next _ filled goes => proper.filled_next filled goes) (filled_first gap _) reached

end

/-! ### The pieces of a file -/

/-- The names of the pieces that a file is broken into, and what was read so far. -/
structure Slurped (lines : List Text) (s : Slurping) : Prop where
  names : ∃ labels, (s.done ++ [s.p]).map Piece.name = ascii "-FIRST" :: labels ∧
    ∀ label ∈ labels, label.head? = some 95
  lines : (s.done ++ [s.p]).flatMap Piece.lines = lines.map rewritten

theorem head?_label {line label : Text} (found : MatchLabel line = some label) :
    label.head? = some 95 := by
  unfold MatchLabel at found
  split at found
  · dsimp only at found
    split at found
    · rw [← Option.some.inj found]
      rfl
    · cases found
  · cases found

theorem Slurped.line {lines : List Text} {s : Slurping} (slurped : Slurped lines s)
    (line : Text) : Slurped (lines ++ [line]) (slurpLine s line) := by
  obtain ⟨labels, names, are⟩ := slurped.names
  have read := slurped.lines
  rw [List.map_append, List.map_singleton] at names
  rw [List.flatMap_append, List.flatMap_singleton] at read
  unfold slurpLine
  dsimp only
  split
  · rename_i label found
    have labelled : label.head? = some 95 := by
      split at found
      · exact head?_label found
      · cases found
    constructor
    · refine ⟨labels ++ [label], ?_, List.forall_mem_append.mpr
        ⟨are, List.forall_mem_singleton.mpr labelled⟩⟩
      rw [List.map_append, List.map_append, List.map_singleton, List.map_singleton, names]
      rfl
    · rw [List.flatMap_append, List.flatMap_append, List.flatMap_singleton, List.flatMap_singleton,
        List.map_append, ← read]
      rfl
  · constructor
    · exact ⟨labels, by rw [List.map_append, List.map_singleton, names], are⟩
    · rw [List.flatMap_append, List.flatMap_singleton, List.map_append, ← read, List.append_assoc]
      rfl

theorem slurped (lines : List Text) : Slurped lines (slurp lines) := by
  have each : ∀ rest before s, Slurped before s →
      Slurped (before ++ rest) (rest.foldl slurpLine s) := by
    intro rest
    induction rest with
    | nil =>
      intro before s slurped
      rw [List.append_nil]
      exact slurped
    | cons line rest inductionHypothesis =>
      intro before s slurped
      have next := inductionHypothesis _ _ (slurped.line line)
      rw [List.append_assoc] at next
      exact next
  exact each lines [] _ ⟨⟨[], rfl, fun _ member => absurd member List.not_mem_nil⟩, rfl⟩

section
variable {lines : List Text} {s : Slurping} (slurped : Slurped lines s)
include slurped

theorem Slurped.flatMap_pieces : s.pieces.flatMap Piece.lines = lines.map rewritten := by
  rw [← slurped.lines, Slurping.pieces, List.flatMap_append, List.flatMap_append]
  rfl

/-- A file that is broken has a first piece, and the other ones have labels. -/
theorem Slurped.cons {first : Piece} {rest : List Piece} (done : s.done = first :: rest) :
    first.name = ascii "-FIRST" ∧ ∀ label ∈ s.labels, label.head? = some 95 := by
  obtain ⟨labels, names, are⟩ := slurped.names
  rw [done, List.cons_append, List.map_cons, List.map_append, List.map_singleton] at names
  obtain ⟨same, others⟩ := List.cons.inj names
  refine ⟨same, ?_⟩
  rw [Slurping.labels, done, List.tail_cons, others]
  exact are

end

theorem isSpecial_of_label {p : Piece} (label : p.name.head? = some 95) : ¬isSpecial p := by
  intro special
  obtain ⟨rest, is⟩ := List.isPrefixOf_iff_prefix.mp special
  rw [← is] at label
  cases label

/-! ### The table of a file -/

theorem proper_foldl {pieces : List Piece} {table : Table} (proper : Proper table) :
    Proper (pieces.foldl (fun table p => Table.set table p.name p) table) := by
  induction pieces generalizing table with
  | nil => exact proper
  | cons p pieces inductionHypothesis => exact inductionHypothesis (proper.set fun _ => rfl)

theorem isSpecial_last (s : Slurping) : isSpecial s.last := by
  show (ascii "-").isPrefixOf (ascii "-LAST") = true
  decide

theorem Slurping.proper (s : Slurping) : Proper s.table := by
  have empty : Proper [] := ⟨List.nodup_nil, fun _ member => absurd member List.not_mem_nil⟩
  have last : ∀ {key}, ¬isSpecial s.last → key = s.last.name :=
    fun ordinary => absurd (isSpecial_last s) ordinary
  exact ((proper_foldl empty).set last).set last

/-- An entry that no later piece takes the name of stays. -/
theorem mem_foldl_set_of_mem {pieces : List Piece} {table : Table} {entry : Text × Piece}
    (member : entry ∈ table) (other : ∀ p ∈ pieces, entry.1 ≠ p.name) :
    entry ∈ pieces.foldl (fun table p => Table.set table p.name p) table := by
  induction pieces generalizing table with
  | nil => exact member
  | cons p pieces inductionHypothesis =>
    rw [List.forall_mem_cons] at other
    exact inductionHypothesis (mem_set.mpr (.inl ⟨member, other.1⟩)) other.2

theorem mem_foldl_set {pieces : List Piece} (nodup : (pieces.map Piece.name).Nodup)
    {table : Table} {p : Piece} (member : p ∈ pieces) :
    (p.name, p) ∈ pieces.foldl (fun table p => Table.set table p.name p) table := by
  induction pieces generalizing table with
  | nil => cases member
  | cons q pieces inductionHypothesis =>
    rw [List.map_cons, List.nodup_cons] at nodup
    rcases List.mem_cons.mp member with rfl | later
    · have here : (p.name, p) ∈ table.set p.name p := mem_set.mpr (.inr rfl)
      rw [List.foldl_cons]
      refine mem_foldl_set_of_mem here fun other inRest same => nodup.1 ?_
      rw [show p.name = other.name from same]
      exact List.mem_map_of_mem inRest
    · exact inductionHypothesis nodup.2 later

theorem of_mem_foldl_set {pieces : List Piece} {table : Table} {entry : Text × Piece}
    (member : entry ∈ pieces.foldl (fun table p => Table.set table p.name p) table) :
    entry ∈ table ∨ entry.2 ∈ pieces := by
  induction pieces generalizing table with
  | nil => exact .inl member
  | cons p pieces inductionHypothesis =>
    rcases inductionHypothesis member with set | later
    · rcases mem_set.mp set with ⟨before, -⟩ | rfl
      · exact .inl before
      · exact .inr List.mem_cons_self
    · exact .inr (List.mem_cons_of_mem _ later)

theorem Slurping.get_last (s : Slurping) : s.table.get (ascii "-LAST") = some s.last :=
  s.proper.get_of_mem (show (ascii "-LAST", s.last) ∈ s.table from mem_set.mpr (.inr rfl))

section
variable {lines : List Text} {s : Slurping} (slurped : Slurped lines s)
include slurped

theorem Slurped.get_first {first : Piece} {rest : List Piece} (done : s.done = first :: rest) :
    s.table.get (ascii "-FIRST") = some first := by
  obtain ⟨name, labels⟩ := slurped.cons done
  have label : ∀ label ∈ s.labels, ascii "-FIRST" ≠ label := by
    intro label member same
    have begins := labels label member
    rw [← same] at begins
    cases begins
  rw [Slurping.labels, done, List.tail_cons] at label
  refine s.proper.get_of_mem (show (ascii "-FIRST", first) ∈ s.table from
    mem_set.mpr (.inl ⟨mem_set.mpr (.inl ⟨?_, ?_⟩),
      show ascii "-FIRST" ≠ ascii "-LAST" by decide⟩))
  · have here : (ascii "-FIRST", first) ∈ Table.set [] first.name first :=
      mem_set.mpr (.inr (by rw [name]))
    rw [done, List.foldl_cons]
    refine mem_foldl_set_of_mem here fun p member => ?_
    exact label p.name (List.mem_append_left _ (List.mem_map_of_mem member))
  · exact label s.p.name (List.mem_append_right _ (List.mem_singleton.mpr rfl))

/-- Where the labels are different, the middle of the table is the pieces between the first and the
last. -/
theorem Slurped.perm_middle {first : Piece} {rest : List Piece} (done : s.done = first :: rest)
    (nodup : s.labels.Nodup) : (s.table.middle.map Prod.snd).Perm rest := by
  obtain ⟨name, labels⟩ := slurped.cons done
  rw [Slurping.labels, done, List.tail_cons] at nodup labels
  obtain ⟨different, -, apart⟩ := List.nodup_append.mp nodup
  have ofName : ∀ pieces : List Piece, (pieces.map Piece.name).Nodup → pieces.Nodup :=
    fun pieces => List.Nodup.of_map _
  refine (List.perm_ext_iff_of_nodup (ofName _ ?_) (ofName _ different)).mpr fun p => ?_
  · rw [List.map_map]
    exact s.proper.nodup_names
  · constructor
    · intro member
      obtain ⟨entry, middle, rfl⟩ := List.mem_map.mp member
      obtain ⟨inTable, is⟩ := List.mem_filter.mp middle
      have ordinary : ¬isSpecial entry.2 := of_decide_eq_true is
      rcases mem_set.mp inTable with ⟨before, -⟩ | rfl
      · rcases mem_set.mp before with ⟨before, -⟩ | rfl
        · rcases of_mem_foldl_set before with none | inDone
          · cases none
          · rw [done] at inDone
            rcases List.mem_cons.mp inDone with same | later
            · refine absurd ?_ ordinary
              rw [same, isSpecial, name]
              decide
            · exact later
        · exact absurd (isSpecial_last s) ordinary
      · exact absurd (isSpecial_last s) ordinary
    · intro member
      have label := labels p.name (List.mem_append_left _ (List.mem_map_of_mem member))
      have inTable : (p.name, p) ∈ s.table := by
        refine mem_set.mpr (.inl ⟨mem_set.mpr (.inl ⟨?_, ?_⟩), ?_⟩)
        · rw [done, List.foldl_cons]
          exact mem_foldl_set different member
        · exact apart _ (List.mem_map_of_mem member) _ (List.mem_singleton.mpr rfl)
        · intro same
          rw [show p.name = ascii "-LAST" from same] at label
          cases label
      exact List.mem_map.mpr ⟨(p.name, p), List.mem_filter.mpr
        ⟨inTable, decide_eq_true (isSpecial_of_label label)⟩, rfl⟩

end

/-- The label of the last piece is not in the middle of the table. -/
theorem name_notMem_middle {s : Slurping} (label : s.p.name.head? = some 95) :
    s.p.name ∉ s.table.middle.map fun entry => entry.2.name := by
  intro member
  obtain ⟨entry, middle, name⟩ := List.mem_map.mp member
  obtain ⟨inTable, is⟩ := List.mem_filter.mp middle
  have ordinary : ¬isSpecial entry.2 := of_decide_eq_true is
  have last : (s.p.name, s.last) ∈ s.table := by
    refine mem_set.mpr (.inl ⟨mem_set.mpr (.inr rfl), fun same => ?_⟩)
    rw [show s.p.name = ascii "-LAST" from same] at label
    cases label
  have here := s.proper.get_of_mem inTable
  rw [s.proper.own entry inTable ordinary, name, s.proper.get_of_mem last, Option.some_inj] at here
  exact ordinary (here ▸ isSpecial_last s)

/-! ### The file that is written -/

def Written.pieces : Written → List Piece
  | .piece p => [p]
  | .filling _ => []

theorem flatMap_pieces_written (first last : Piece) (chosen rest : List Piece) (count : Int) :
    (.piece first :: chosen.map .piece ++ [.filling count] ++ rest.map .piece ++
      [.piece last] : List Written).flatMap Written.pieces = first :: chosen ++ rest ++ [last] := by
  have each : ∀ pieces : List Piece, (pieces.map Written.piece).flatMap Written.pieces = pieces := by
    intro pieces
    rw [List.flatMap_map]
    exact List.flatMap_singleton' pieces
  rw [List.flatMap_append, List.flatMap_append, List.flatMap_append, List.flatMap_cons, each, each]
  simp [Written.pieces]

variable {symbols : Text → Nat} {gap gapSize : Int} {lines : List Text}

theorem breakable_of_rearranges (rearranges : Rearranges symbols gap gapSize lines) :
    Breakable symbols gap lines := by
  obtain ⟨-, rounds, first, chosen, count, rest, last, written, perm, head, tail, covers⟩ :=
    rearranges
  have slurped := slurped lines
  unfold Breakable
  generalize slurp lines = s at *
  cases done : s.done with
  | nil =>
    have length := perm.length_eq
    rw [Slurping.pieces, done, List.length_append] at length
    simp at length
  | cons p pieces =>
    rw [Slurping.pieces, done, List.cons_append, List.head?_cons, Option.some_inj] at head
    subst head
    obtain ⟨f, filled, same⟩ :=
      s.proper.rearrange_eq (slurped.get_first done) s.get_last written
    have listed := congrArg (List.flatMap Written.pieces) same
    rw [flatMap_pieces_written, flatMap_pieces_written] at listed
    rw [listed, Slurping.pieces, done, List.perm_append_right_iff] at perm
    have middle := (s.proper.perm_middle filled).symm.trans (List.perm_cons p |>.mp perm)
    have names : (s.table.middle.map fun entry => entry.2.name).Perm (pieces.map Piece.name) := by
      have names := middle.map Piece.name
      rwa [List.map_map] at names
    have label : s.p.name.head? = some 95 :=
      (slurped.cons done).2 _ (List.mem_append_right _ (List.mem_singleton.mpr rfl))
    refine ⟨by rw [done]; exact List.cons_ne_nil _ _, ?_, ?_⟩
    · rw [Slurping.labels, done, List.tail_cons, List.nodup_append]
      refine ⟨names.nodup_iff.mp s.proper.nodup_names, List.nodup_singleton _, ?_⟩
      intro name member other last equal
      rw [equal, List.mem_singleton.mp last] at member
      exact name_notMem_middle label (names.mem_iff.mpr member)
    · rintro ⟨bytes, right⟩ first here
      rw [done, List.head?_cons, Option.mem_some] at here
      subst here
      have reach := (covers bytes right).1
      omega

theorem rearranges_of_breakable (breakable : Breakable symbols gap lines) :
    Rearranges symbols gap gapSize lines := by
  obtain ⟨broken, nodup, fits⟩ := breakable
  have slurped := slurped lines
  refine ⟨slurped.flatMap_pieces, ?_⟩
  generalize slurp lines = s at *
  cases done : s.done with
  | nil => exact absurd done broken
  | cons p pieces =>
    obtain ⟨rounds, f, reached, filled⟩ :=
      @Proper.exists_filled symbols s.table s.proper gap (symbols p.next)
    have middle := slurped.perm_middle done nodup
    refine ⟨rounds, p, f.chosen, gap - f.place + gapSize, others s.table f, s.last, ?_, ?_, ?_, ?_,
      ?_⟩
    · rw [Rearrange, slurped.get_first done, Option.bind_some, reached, Option.bind_some,
        s.get_last]
      rfl
    · rw [Slurping.pieces, done, List.perm_append_right_iff]
      exact ((s.proper.perm_middle filled).trans middle).cons p
    · rw [Slurping.pieces, done]
      rfl
    · rw [Slurping.pieces, List.getLast?_concat]
    · intro bytes right
      have sizes : (f.chosen.map (size symbols)).sum = (((f.chosen.map bytes).sum : Nat) : Int) := by
        rw [Nat.cast_list_sum, List.map_map]
        refine congrArg List.sum (List.map_congr_left fun q member => ?_)
        obtain ⟨entry, inMiddle, rfl⟩ := filled.middle q member
        have inPieces : entry.2 ∈ s.pieces := by
          rw [Slurping.pieces, done]
          exact List.mem_append_left _ (List.mem_cons_of_mem _
            (middle.mem_iff.mp (List.mem_map_of_mem inMiddle)))
        exact right _ inPieces (of_decide_eq_true (List.mem_filter.mp inMiddle).2)
          (filled.mapped _ member).1 (filled.mapped _ member).2
      have within := filled.fits (fits ⟨bytes, right⟩ p (by rw [done]; rfl))
      rw [filled.place, sizes] at within
      rw [filled.place, sizes]
      exact ⟨within, by omega⟩

/-- A file is rearranged as it should be exactly if it is broken at least once, at different
labels, and what the map says of its first piece does not reach into the gap. -/
theorem rearranges_iff (symbols : Text → Nat) (gap gapSize : Int) (lines : List Text) :
    Rearranges symbols gap gapSize lines ↔ Breakable symbols gap lines :=
  ⟨breakable_of_rearranges, rearranges_of_breakable⟩

/-- A file without any label has one piece, which is written twice. -/
theorem not_rearranges_unbroken :
    ¬∀ (symbols : Text → Nat) (gap gapSize : Int) (lines : List Text),
      Rearranges symbols gap gapSize lines := by
  intro claimed
  have broken := (breakable_of_rearranges
    (claimed (fun _ => 0) 0xC880 0x80 [ascii "  .area .text", ascii "  rts"])).1
  exact broken (by decide)

end Frobio.InsertGap
