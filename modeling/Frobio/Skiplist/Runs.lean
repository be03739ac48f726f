/-
This file is about whole runs of a skip list. Whatever is called on it, in whatever order and with
whatever random numbers, it never runs into an index out of range or a nil pointer, its loops end, and
it answers as the table does.
-/

import Frobio.Lib.Transcript
import Frobio.Skiplist.Sound
import Frobio.Skiplist.Types

namespace Frobio.Skiplist

open Std (TransCmp)
open Transcript (Always after outputs play play_of_refines)

variable {Key Score Value : Type} [LinearOrder Score] {comparable : Comparable Key Score}

omit [LinearOrder Score] in
theorem sound_new {maxLevel : Nat} (positive : 0 < maxLevel) :
    Sound comparable (new comparable maxLevel) (Table.empty comparable.compare Value) := by
  have header : (new comparable maxLevel : SkipList Key Score Value).levels none =
      List.replicate maxLevel none := by
    simp only [new, Function.update_self]
  have none' : ∀ e, e ∈ (Table.empty comparable.compare Value).elems → False := fun e member =>
    List.not_mem_nil member
  refine ⟨⟨.nil, fun e member => (none' e member).elim, rfl, rfl, ?_, ?_, ?_, ?_, ?_, ?_⟩, rfl, rfl,
    positive, fun e member => (List.not_mem_nil member).elim⟩
  · rw [SkipList.level, header, List.length_replicate]
    rfl
  · intro front back split i sees
    obtain ⟨rfl, rfl⟩ := List.nil_eq_append_iff.mp split
    rw [List.getLast?_nil] at sees ⊢
    rw [Tower.below_iff, SkipList.level, header, List.length_replicate] at sees
    rw [header, List.getElem?_replicate, if_pos sees]
    rfl
  · intro front e back split
    have none : ([] : List Nat) = front ++ e :: back := split
    simp at none
  · intro e
    exact iff_of_false Bool.false_ne_true (none' e)
  · exact fun e member => (none' e member).elim
  · exact fun e _ => ⟨by simp [new], rfl⟩

variable [TransCmp comparable.compare]

/-- The list is sound all along. -/
theorem exists_sound (scores : Scores comparable) {maxLevel : Nat} (positive : 0 < maxLevel)
    {calls : List (Call Key Value)}
    (always : Always Table.step Table.Allows (Table.empty comparable.compare Value) calls) :
    ∃ list, play SkipList.step (new comparable maxLevel) calls =
        some (list, outputs Table.step (Table.empty comparable.compare Value) calls) ∧
      Sound comparable list (after Table.step (Table.empty comparable.compare Value) calls) := by
  have refines : ∀ (list : SkipList Key Score Value) (table : Table comparable.compare Value)
      (call : Call Key Value), Sound comparable list table → table.Allows call →
        ∃ next, list.step call = some (next, (table.step call).2) ∧
          Sound comparable next (table.step call).1 :=
    fun _ _ _ sound allows => sound.step scores allows
  exact play_of_refines (Sound comparable) Table.Allows refines (sound_new positive) always

/-- A skip list is an ordered map: it gives the answers of the table. -/
theorem answers_eq_outputs (scores : Scores comparable) {maxLevel : Nat} (positive : 0 < maxLevel)
    {calls : List (Call Key Value)}
    (always : Always Table.step Table.Allows (Table.empty comparable.compare Value) calls) :
    (play SkipList.step (new comparable maxLevel) calls).map Prod.snd =
      some (outputs Table.step (Table.empty comparable.compare Value) calls) := by
  obtain ⟨list, plays, -⟩ := exists_sound scores positive always
  rw [plays]
  rfl

/-- Three strings, and the one in the middle removed. -/
def sampleCalls : List (Call (List UInt8) Nat) :=
  [.set (fun _ => 0) [98] 1, .set (fun i => if i = 1 then 2 ^ 30 else 0) [97] 2,
    .set (fun _ => 0) [99] 3, .findNext none [97, 97], .remove [98], .getValue [97], .back]

theorem always_sampleCalls :
    Always Table.step Table.Allows (Table.empty stringType.compare Nat) sampleCalls := by
  refine ⟨trivial, ⟨trivial, ⟨trivial, ⟨fun s is => ?_, ⟨trivial, ⟨trivial, ⟨trivial, trivial⟩⟩⟩⟩⟩⟩⟩
  cases is

theorem answers_sampleCalls : (play SkipList.step (new stringType 48) sampleCalls).map Prod.snd =
    some [.element (some ⟨0, [98], 1⟩), .element (some ⟨1, [97], 2⟩), .element (some ⟨2, [99], 3⟩),
      .element (some ⟨0, [98], 1⟩), .element (some ⟨0, [98], 1⟩), .value (some 2),
      .element (some ⟨2, [99], 3⟩)] :=
  answers_eq_outputs scores_stringType (by decide) always_sampleCalls

/-- In every list that can be reached, `PrevLevel` ends, and finds what `NextLevel` leads from. -/
theorem prevLevel_iff_of_plays (scores : Scores comparable) {maxLevel : Nat}
    (positive : 0 < maxLevel) {calls : List (Call Key Value)}
    (always : Always Table.step Table.Allows (Table.empty comparable.compare Value) calls) :
    ∃ list answers, play SkipList.step (new comparable maxLevel) calls = some (list, answers) ∧
      ∀ x i, ∃ prev, list.prevLevel x i = some prev ∧
        ∀ p, prev = some p ↔ list.nextLevel p i = some x := by
  obtain ⟨list, plays, sound⟩ := exists_sound scores positive always
  refine ⟨list, _, plays, fun x i => ?_⟩
  obtain ⟨prev, finds⟩ := sound.shaped.prevLevel_ends x i
  refine ⟨prev, finds, fun p => ?_⟩
  rw [← sound.shaped.prevLevel_iff, finds, Option.some_inj]

theorem prevLevel_sampleCalls : ∃ list answers,
    play SkipList.step (new stringType 48) sampleCalls = some (list, answers) ∧
      ∀ x i, ∃ prev, list.prevLevel x i = some prev ∧
        ∀ p, prev = some p ↔ list.nextLevel p i = some x :=
  prevLevel_iff_of_plays scores_stringType (by decide) always_sampleCalls

end Frobio.Skiplist
