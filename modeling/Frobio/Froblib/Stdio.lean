/-
This file models `FRead` and `FWrite` of `froblib/nystdio.c`, which call OS-9 again until all
is transferred.

Each call transfers a part of what it is asked for. Both loops count down what is left, but pass
the begin of the buffer to every call: so what a call transfers depends on the pieces before it
only through the file, and not through the buffer.
-/

import Frobio.Lib.Memory

namespace Frobio.Stdio

open Memory

/-- What OS-9 returns for a read or a write: an error, or how many bytes were transferred. -/
abbrev Answer := Except UInt8 Nat

def OKAY : UInt8 := 0

/-- The file after the bytes that were written. There is no result while a call has not returned. -/
def FWrite (memory : Nat → UInt8) (buf : Nat) : List Answer → Nat → List UInt8 →
    Option (UInt8 × List UInt8)
  | [], n, file => if n = 0 then some (OKAY, file) else none
  | answer :: later, n, file =>
    if n = 0 then some (OKAY, file)
    else
      match answer with
      | .error errnum => some (errnum, file)
      | .ok cc => FWrite memory buf later (n - cc) (file ++ load memory buf cc)

/-- The memory after the bytes that were read, and what is left of the file. -/
def FRead (buf : Nat) : List Answer → Nat → (Nat → UInt8) → List UInt8 →
    Option (UInt8 × (Nat → UInt8) × List UInt8)
  | [], n, memory, file => if n = 0 then some (OKAY, memory, file) else none
  | answer :: later, n, memory, file =>
    if n = 0 then some (OKAY, memory, file)
    else
      match answer with
      | .error errnum => some (errnum, memory, file)
      | .ok cc => FRead buf later (n - cc) (store memory buf (file.take cc)) (file.drop cc)

/-- Each count is between 1 and what was asked for. -/
def Legal : List Answer → Nat → Prop
  | [], _ => True
  | .error errnum :: _, n => n = 0 ∨ errnum ≠ OKAY
  | .ok cc :: later, n => n = 0 ∨ (1 ≤ cc ∧ cc ≤ n ∧ Legal later (n - cc))

/-- As long as no error comes, the counts of the calls that are made. -/
def counts : List Answer → Nat → List Nat
  | .ok cc :: later, n => if n = 0 then [] else cc :: counts later (n - cc)
  | _, _ => []

/-- Each piece that is to be written, from an offset on, is the same as the begin of the buffer. -/
def Repeats (memory : Nat → UInt8) (buf : Nat) : List Nat → Nat → Prop
  | [], _ => True
  | cc :: later, offset =>
    load memory (buf + offset) cc = load memory buf cc ∧ Repeats memory buf later (offset + cc)

/-- The offset of the last piece that is longer than `i`. -/
def lastBeyond (i : Nat) : List Nat → Nat → Option Nat
  | [], _ => none
  | cc :: later, offset =>
    (lastBeyond i later (offset + cc)).or (if i < cc then some offset else none)

/-- Each byte of the file is the same as the one at its place in the last piece that is long enough;
and if no piece is, as the one that was in the buffer. -/
def Overlays (memory : Nat → UInt8) (buf : Nat) (file : List UInt8) (counts : List Nat) (n : Nat) :
    Prop :=
  ∀ i < n, file[i]? =
    match lastBeyond i counts 0 with
    | some offset => file[offset + i]?
    | none => some (memory (buf + i))

/-! ### Writing -/

/-- A write that succeeds has made calls for all of the bytes, each from the begin of the buffer. -/
theorem fWrite_eq {memory : Nat → UInt8} {buf : Nat} {answers : List Answer} {n : Nat}
    {file file' : List UInt8} (legal : Legal answers n)
    (done : FWrite memory buf answers n file = some (OKAY, file')) :
    (counts answers n).sum = n ∧ file' = file ++ (counts answers n).flatMap (load memory buf) := by
  induction answers generalizing n file with
  | nil =>
    rw [FWrite] at done
    split at done
    · rename_i zero
      rw [Option.some_inj, Prod.mk.injEq] at done
      exact ⟨zero.symm, by rw [← done.2]; exact (List.append_nil file).symm⟩
    · cases done
  | cons answer later inductionHypothesis =>
    rw [FWrite.eq_def] at done
    dsimp only at done
    split at done
    · rename_i zero
      rw [Option.some_inj, Prod.mk.injEq] at done
      have none : counts (answer :: later) n = [] := by
        cases answer with
        | error errnum => rfl
        | ok cc => exact if_pos zero
      rw [none, zero, ← done.2]
      exact ⟨rfl, (List.append_nil file).symm⟩
    · rename_i more
      cases answer with
      | error errnum =>
        rw [Option.some_inj, Prod.mk.injEq] at done
        exact absurd done.1 (legal.resolve_left more)
      | ok cc =>
        obtain ⟨-, most, legal⟩ := legal.resolve_left more
        obtain ⟨total, rfl⟩ := inductionHypothesis legal done
        rw [counts, if_neg more, List.sum_cons, total, List.flatMap_cons, List.append_assoc]
        exact ⟨Nat.add_sub_cancel' most, rfl⟩

/-- The pieces make up the buffer just if each of them repeats its begin. -/
theorem flatMap_load_iff (memory : Nat → UInt8) (buf : Nat) (pieces : List Nat) (offset : Nat) :
    pieces.flatMap (load memory buf) = load memory (buf + offset) pieces.sum ↔
      Repeats memory buf pieces offset := by
  induction pieces generalizing offset with
  | nil => exact iff_of_true rfl trivial
  | cons cc later inductionHypothesis =>
    rw [List.flatMap_cons, List.sum_cons, load_add, Repeats, ← inductionHypothesis, Nat.add_assoc]
    constructor
    · intro same
      obtain ⟨first, rest⟩ := List.append_inj same (by rw [length_load, length_load])
      exact ⟨first.symm, rest⟩
    · rintro ⟨first, rest⟩
      rw [first, rest]

/-! ### Reading -/

theorem lastBeyond_add (i cc : Nat) (pieces : List Nat) (offset : Nat) :
    lastBeyond i pieces (cc + offset) = (lastBeyond i pieces offset).map (cc + ·) := by
  induction pieces generalizing offset with
  | nil => rfl
  | cons piece later inductionHypothesis =>
    rw [lastBeyond, lastBeyond, Nat.add_assoc, inductionHypothesis]
    cases lastBeyond i later (offset + piece) with
    | some last => rfl
    | none =>
      rw [Option.map_none, Option.none_or, Option.none_or]
      split <;> rfl

theorem lastBeyond_eq_none {i : Nat} {pieces : List Nat} (short : pieces.sum ≤ i) (offset : Nat) :
    lastBeyond i pieces offset = none := by
  induction pieces generalizing offset with
  | nil => rfl
  | cons piece later inductionHypothesis =>
    rw [List.sum_cons] at short
    rw [lastBeyond, inductionHypothesis (by omega), if_neg (by omega), Option.none_or]

/-- A read that succeeds has taken all of the bytes from the file, and left each in the place that
it has in its piece. -/
theorem fRead_eq {buf : Nat} {answers : List Answer} {n : Nat} {memory memory' : Nat → UInt8}
    {file file' : List UInt8} (legal : Legal answers n)
    (supplied : (counts answers n).sum ≤ file.length)
    (done : FRead buf answers n memory file = some (OKAY, memory', file')) :
    (counts answers n).sum = n ∧ file' = file.drop n ∧ (∀ a < buf, memory' a = memory a) ∧
      ∀ i, some (memory' (buf + i)) =
        match lastBeyond i (counts answers n) 0 with
        | some offset => file[offset + i]?
        | none => some (memory (buf + i)) := by
  induction answers generalizing n memory file with
  | nil =>
    rw [FRead] at done
    split at done
    · rename_i zero
      rw [Option.some_inj, Prod.mk.injEq, Prod.mk.injEq] at done
      obtain ⟨-, rfl, rfl⟩ := done
      exact ⟨zero.symm, by rw [zero, List.drop_zero], fun _ _ => rfl, fun _ => rfl⟩
    · cases done
  | cons answer later inductionHypothesis =>
    rw [FRead.eq_def] at done
    dsimp only at done
    split at done
    · rename_i zero
      rw [Option.some_inj, Prod.mk.injEq, Prod.mk.injEq] at done
      obtain ⟨-, rfl, rfl⟩ := done
      have nothing : counts (answer :: later) n = [] := by
        cases answer with
        | error errnum => rfl
        | ok cc => exact if_pos zero
      rw [nothing, zero]
      exact ⟨rfl, rfl, fun _ _ => rfl, fun _ => rfl⟩
    · rename_i more
      cases answer with
      | error errnum =>
        rw [Option.some_inj, Prod.mk.injEq] at done
        exact absurd done.1 (legal.resolve_left more)
      | ok cc =>
        obtain ⟨-, most, legal⟩ := legal.resolve_left more
        rw [counts, if_neg more, List.sum_cons] at supplied ⊢
        obtain ⟨total, rfl, before, cells⟩ :=
          inductionHypothesis legal (by rw [List.length_drop]; omega) done
        have taken : (file.take cc).length = cc := by
          rw [List.length_take]
          omega
        refine ⟨?_, ?_, fun a low => ?_, fun i => ?_⟩
        · rw [total, Nat.add_sub_cancel' most]
        · rw [List.drop_drop, Nat.add_sub_cancel' most]
        · rw [before a low, store_apply_of_before _ _ low]
        · rw [cells i, lastBeyond, Nat.zero_add, ← Nat.add_zero cc, lastBeyond_add, Nat.add_zero]
          cases lastBeyond i (counts later (n - cc)) 0 with
          | some offset =>
            show (file.drop cc)[offset + i]? = file[cc + offset + i]?
            rw [List.getElem?_drop, Nat.add_assoc]
          | none =>
            rw [Option.map_none, Option.none_or]
            dsimp only
            by_cases inside : i < cc
            · have there : i < (file.take cc).length := taken.symm ▸ inside
              rw [if_pos inside, store_apply_of_lt _ there, List.getElem_take]
              dsimp only
              rw [Nat.zero_add, List.getElem?_eq_getElem]
            · rw [if_neg inside, store_apply_of_after _ (by omega)]

/-! ### Both -/

/-- A write that succeeds has written its buffer just if the pieces repeat each other; and a read
that succeeds has filled its buffer just if they overlay each other. It writes nothing else. -/
theorem transfers_iff (memory : Nat → UInt8) (buf : Nat) (answers : List Answer) (n : Nat)
    (file : List UInt8) :
    (∀ file', Legal answers n → FWrite memory buf answers n file = some (OKAY, file') →
        (file' = file ++ load memory buf n ↔ Repeats memory buf (counts answers n) 0)) ∧
    ∀ memory' file', Legal answers n → (counts answers n).sum ≤ file.length →
      FRead buf answers n memory file = some (OKAY, memory', file') →
        ((load memory' buf n = file.take n ∧ file' = file.drop n ∧
          ∀ a, a < buf ∨ buf + n ≤ a → memory' a = memory a) ↔
            Overlays memory buf file (counts answers n) n) := by
  constructor
  · intro file' legal done
    obtain ⟨total, rfl⟩ := fWrite_eq legal done
    have whole := flatMap_load_iff memory buf (counts answers n) 0
    rw [Nat.add_zero, total] at whole
    rw [List.append_cancel_left_eq, whole]
  · intro memory' file' legal supplied done
    obtain ⟨total, rest, before, cells⟩ := fRead_eq legal supplied done
    have outside : ∀ a, a < buf ∨ buf + n ≤ a → memory' a = memory a := by
      rintro a (low | high)
      · exact before a low
      · obtain ⟨i, rfl⟩ := Nat.exists_eq_add_of_le (Nat.le_of_add_right_le high)
        have cell := cells i
        rw [lastBeyond_eq_none (by omega)] at cell
        exact Option.some.inj cell
    rw [and_iff_left ⟨rest, outside⟩]
    constructor
    · intro filled i inside
      rw [← cells i, ← List.getElem?_take_of_lt inside, ← filled, getElem?_load _ _ inside]
    · intro overlays
      refine List.ext_getElem? fun i => ?_
      by_cases inside : i < n
      · rw [getElem?_load _ _ inside, cells i, List.getElem?_take_of_lt inside, overlays i inside]
      · rw [List.getElem?_eq_none (by rw [length_load]; omega),
          List.getElem?_eq_none (by rw [List.length_take]; omega)]

/-- The bytes 7 and 8 in turn. -/
def inTurn : Nat → UInt8 := fun a => if a % 2 = 0 then 7 else 8

/-- Four bytes are written and read by two calls. The second half is the same as the first, and is
in the buffer already. -/
theorem transfers_inTurn :
    FWrite inTurn 0 [.ok 2, .ok 2] 4 [1] = some (OKAY, [1, 7, 8, 7, 8]) ∧
      Repeats inTurn 0 (counts [.ok 2, .ok 2] 4) 0 ∧
      ∃ memory', FRead 0 [.ok 2, .ok 2] 4 inTurn [7, 8, 7, 8, 9] = some (OKAY, memory', [9]) ∧
        load memory' 0 4 = [7, 8, 7, 8] := by
  have legal : Legal [.ok 2, .ok 2] 4 :=
    .inr ⟨by decide, by decide, .inr ⟨by decide, by decide, trivial⟩⟩
  have written : FWrite inTurn 0 [.ok 2, .ok 2] 4 [1] = some (OKAY, [1, 7, 8, 7, 8]) := by decide
  have both := transfers_iff inTurn 0 [.ok 2, .ok 2] 4
  have overlays : Overlays inTurn 0 [7, 8, 7, 8, 9] (counts [.ok 2, .ok 2] 4) 4 := by
    rw [Overlays]
    decide
  refine ⟨written, ((both [1]).1 _ legal written).mp (by decide), _, rfl, ?_⟩
  exact (((both [7, 8, 7, 8, 9]).2 _ _ legal (by decide) rfl).mpr overlays).1

/-- If the first call transfers all, both are right. -/
theorem transfers_at_once (memory : Nat → UInt8) (buf n : Nat) (file : List UInt8) :
    Repeats memory buf [n] 0 ∧ Overlays memory buf file [n] n := by
  refine ⟨⟨rfl, trivial⟩, fun i inside => ?_⟩
  rw [lastBeyond, lastBeyond, Option.none_or, if_pos inside]
  dsimp only
  rw [Nat.zero_add]

/-- The bytes 1 and 2. -/
def oneTwo : Nat → UInt8 := fun a => if a = 0 then 1 else 2

/-- Two bytes that are transferred one at a time: the first is written twice, and the second is read
over the first. -/
theorem not_transfers_twoCalls :
    (FWrite oneTwo 0 [.ok 1, .ok 1] 2 [] = some (OKAY, [1, 1]) ∧ [1, 1] ≠ load oneTwo 0 2) ∧
      ∃ memory', FRead 0 [.ok 1, .ok 1] 2 (fun _ => 0) [1, 2] = some (OKAY, memory', []) ∧
        load memory' 0 2 ≠ [1, 2] :=
  ⟨⟨by decide, by decide⟩, _, rfl, by decide⟩

end Frobio.Stdio
