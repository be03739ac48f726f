/-
This file models `PutChar` and `PutStr` of `axiom41/axcore.c` with the fields of the screen in
memory, where a command of the user can change them.

Printing ends, and leaves the other variables alone, if the screen is apart from the variables: it
is behind them, or it is before them with the cursor before them too. Elsewhere the loops of
`PutChar` may be endless, and what it prints may fall on the line that is being read.
-/

import Frobio.Froblib.Buf
import Frobio.Lib.Cursor
import Frobio.Lib.Memory

namespace Frobio.CommandLine

open Froblib (char)
open Memory Program Cursor

/-! ### The variables -/

/-- Programs that work on the memory. -/
abbrev Axiom : Type → Type := Program (Nat → UInt8)

def CASBUF : Nat := 0x01DA

/-! The fields of `struct axiom4_vars`. -/

def wiz_port : Nat := CASBUF + 12
def transaction_id : Nat := CASBUF + 16
def use_dhcp : Nat := CASBUF + 22
def launch : Nat := CASBUF + 23
def ip_addr : Nat := CASBUF + 32
def ip_mask : Nat := CASBUF + 36
def ip_gateway : Nat := CASBUF + 40
def ip_waiter : Nat := CASBUF + 52
def mask_num : Nat := CASBUF + 56
def waiter_port : Nat := CASBUF + 57
def vdg_begin : Nat := CASBUF + 61
def vdg_end : Nat := CASBUF + 63
def vdg_ptr : Nat := CASBUF + 65
def line_ptr : Nat := CASBUF + 69
def BUF : Nat := CASBUF + 71

def wordBytes (x : Nat) : List UInt8 := [UInt8.ofNat (x / 256), UInt8.ofNat x]

def assign (a : Nat) (data : List UInt8) : Axiom Unit := change fun memory => store memory a data

def wordAt (memory : Nat → UInt8) (a : Nat) : Nat := (memory a).toNat * 256 + (memory (a + 1)).toNat

/-! ### Printing -/

/-- The loop that scrolls. -/
def scrollLoop : Nat → Nat → Axiom Unit
  | 0, _ => stop
  | rounds + 1, i => do
    let memory ← get
    if i < wordAt memory vdg_end then
      let below := (wordAt memory vdg_end + 65536 - 32) % 65536
      assign i [if i < below then memory ((i + 32) % 65536) else 32]
      scrollLoop rounds ((i + 1) % 65536)
    else pure ()

/-- The end of `PutChar`: the cursor is displayed. -/
def display (p : Nat) : Axiom Unit := do
  assign p [0xEF]
  assign vdg_ptr (wordBytes p)

/-- After scrolling, the cursor is at the start of the last row. -/
def displayLast : Axiom Unit := do
  let memory ← get
  display ((wordAt memory vdg_end + 65536 - 32) % 65536)

/-- A code point is put at the cursor. -/
def putCode (rounds p : Nat) (codepoint : UInt8) : Axiom Unit := do
  assign p [0x3F &&& codepoint]
  let p := (p + 1) % 65536
  let memory ← get
  if p ≥ wordAt memory vdg_end then
    scrollLoop rounds (wordAt memory vdg_begin)
    displayLast
  else display p

/-- `PutChar` of what is not the end of a line. -/
def putOther (signed : Bool) (rounds : Nat) (ch : UInt8) : Axiom Unit := do
  let memory ← get
  let p := wordAt memory vdg_ptr
  if ch = 8 then
    if p > wordAt memory vdg_begin then do
      assign p [32]
      display (p - 1)
    else display p
  else if ch = 1 then
    if p > wordAt memory vdg_begin then do
      assign (p - 1) [memory (p - 1) ^^^ 0x40]
      display p
    else display p
  else if char signed ch < 32 then pure ()
  else putCode rounds p (if 96 ≤ char signed ch ∧ char signed ch ≤ 126 then ch - 32 else ch)

/-- Blanks, up to the end of the row. -/
def blankLoop (signed : Bool) (rounds : Nat) : Nat → Axiom Unit
  | 0 => stop
  | left + 1 => do
    putOther signed rounds 32
    let memory ← get
    if wordAt memory vdg_ptr % 32 ≠ 0 then blankLoop signed rounds left else pure ()

def PutChar (signed : Bool) (rounds : Nat) (ch : UInt8) : Axiom Unit :=
  if ch = 13 ∨ ch = 10 then blankLoop signed rounds rounds else putOther signed rounds ch

def PutStr (signed : Bool) (rounds : Nat) : List UInt8 → Axiom Unit
  | [] => pure ()
  | ch :: s => do
    PutChar signed rounds ch
    PutStr signed rounds s

/-! ### The screen -/

/-- The window, and a place for the cursor, are apart from the variables. -/
def Place (memory : Nat → UInt8) (p : Nat) : Prop :=
  32 ≤ wordAt memory vdg_end ∧
    ((BUF + 80 ≤ wordAt memory vdg_begin ∧ BUF + 80 + 32 ≤ wordAt memory vdg_end ∧
      BUF + 80 ≤ p ∧ p < 65535) ∨
    (wordAt memory vdg_end ≤ vdg_begin ∧ p < vdg_begin))

/-- The screen is apart from the variables. -/
def Screen (memory : Nat → UInt8) : Prop := Place memory (wordAt memory vdg_ptr)

/-- The variables from the fields of the screen to the end of the line are the same, but for the
cursor. -/
def Leaves (memory next : Nat → UInt8) : Prop :=
  ∀ a, vdg_begin ≤ a → a < BUF + 80 → a ≠ vdg_ptr → a ≠ vdg_ptr + 1 → next a = memory a

/-- From a screen that is apart from the variables, a program leaves such a screen and the other
variables. It may stop if it has not rounds enough for a screen as large as the memory. -/
def Shows (rounds : Nat) (m : Axiom Unit) : Prop :=
  ∀ memory, Screen memory →
    (∃ next, m memory = (some (), next) ∧ Screen next ∧ Leaves memory next) ∨
      (rounds ≤ 65536 ∧ (m memory).1 = none)

section

variable {memory next : Nat → UInt8} {rounds : Nat} {signed : Bool}

theorem wordAt_lt (memory : Nat → UInt8) (a : Nat) : wordAt memory a < 65536 := by
  have high := (memory a).toNat_lt
  have low := (memory (a + 1)).toNat_lt
  rw [wordAt]
  omega

theorem wordAt_store {x : Nat} (word : x < 65536) (memory : Nat → UInt8) (a : Nat) :
    wordAt (store memory a (wordBytes x)) a = x := by
  have high : store memory a (wordBytes x) (a + 0) = UInt8.ofNat (x / 256) :=
    store_apply_of_lt memory (by decide : 0 < 2)
  have low : store memory a (wordBytes x) (a + 1) = UInt8.ofNat x :=
    store_apply_of_lt memory (by decide : 1 < 2)
  rw [Nat.add_zero] at high
  rw [wordAt, high, low, UInt8.toNat_ofNat', UInt8.toNat_ofNat']
  omega

theorem wordAt_congr {a : Nat} (same : next a = memory a) (same' : next (a + 1) = memory (a + 1)) :
    wordAt next a = wordAt memory a := by rw [wordAt, wordAt, same, same']

/-- Nothing of the variables is different. -/
def LeavesAll (memory next : Nat → UInt8) : Prop :=
  ∀ a, vdg_begin ≤ a → a < BUF + 80 → next a = memory a

theorem leavesAll_store {a : Nat} (byte : UInt8) (apart : a < vdg_begin ∨ BUF + 80 ≤ a) :
    LeavesAll memory (store memory a [byte]) := by
  intro x low high
  rcases apart with before | behind
  · exact store_apply_of_after memory (by rw [List.length_singleton]; omega)
  · exact store_apply_of_before memory _ (by omega)

theorem LeavesAll.fields (all : LeavesAll memory next) :
    wordAt next vdg_begin = wordAt memory vdg_begin ∧ wordAt next vdg_end = wordAt memory vdg_end ∧
      wordAt next vdg_ptr = wordAt memory vdg_ptr :=
  ⟨wordAt_congr (all _ (by decide) (by decide)) (all _ (by decide) (by decide)),
    wordAt_congr (all _ (by decide) (by decide)) (all _ (by decide) (by decide)),
    wordAt_congr (all _ (by decide) (by decide)) (all _ (by decide) (by decide))⟩

theorem LeavesAll.trans {last : Nat → UInt8} (first : LeavesAll memory next)
    (second : LeavesAll next last) : LeavesAll memory last :=
  fun a low high => (second a low high).trans (first a low high)

theorem Leaves.trans {last : Nat → UInt8} (first : Leaves memory next) (second : Leaves next last) :
    Leaves memory last :=
  fun a low high other other' => (second a low high other other').trans (first a low high other other')

theorem LeavesAll.place (all : LeavesAll memory next) {p : Nat} (place : Place memory p) :
    Place next p := by
  obtain ⟨first, last, -⟩ := all.fields
  rw [Place, first, last]
  exact place

theorem Place.apart {p : Nat} (place : Place memory p) : p < vdg_begin ∨ BUF + 80 ≤ p :=
  place.2.elim (fun behind => .inr behind.2.2.1) fun before => .inl before.2

/-! ### What a character does -/

/-- The cursor is displayed at its place. -/
theorem display_spec {p : Nat} (place : Place memory p) :
    ∃ next, display p memory = (some (), next) ∧ wordAt next vdg_ptr = p ∧ Screen next ∧
      wordAt next vdg_end = wordAt memory vdg_end ∧ Leaves memory next := by
  have word : p < 65536 := by
    rcases place.2 with behind | before
    · exact Nat.lt_succ_of_lt behind.2.2.2
    · exact before.2.trans (by decide)
  have cell := @leavesAll_store memory p 0xEF place.apart
  have leaves : Leaves memory (store (store memory p [0xEF]) vdg_ptr (wordBytes p)) := by
    intro a low high other other'
    rw [← cell a low high]
    by_cases below : a < vdg_ptr
    · exact store_apply_of_before _ _ below
    · exact store_apply_of_after _ (show vdg_ptr + 2 ≤ a by omega)
  have cursor := wordAt_store word (store memory p [0xEF]) vdg_ptr
  have first := wordAt_congr (leaves vdg_begin (by decide) (by decide) (by decide) (by decide))
    (leaves (vdg_begin + 1) (by decide) (by decide) (by decide) (by decide))
  have last := wordAt_congr (leaves vdg_end (by decide) (by decide) (by decide) (by decide))
    (leaves (vdg_end + 1) (by decide) (by decide) (by decide) (by decide))
  refine ⟨_, rfl, cursor, ?_, last, leaves⟩
  rw [Screen, cursor, Place, first, last]
  exact place

/-- The loop that scrolls changes nothing but cells of the window. -/
theorem scrollLoop_spec {i : Nat} (apart : ∀ j, i ≤ j → j < wordAt memory vdg_end →
      j < vdg_begin ∨ BUF + 80 ≤ j) :
    (∃ next, scrollLoop rounds i memory = (some (), next) ∧ LeavesAll memory next) ∨
      (rounds ≤ wordAt memory vdg_end - i ∧ (scrollLoop rounds i memory).1 = none) := by
  induction rounds generalizing i memory with
  | zero => exact .inr ⟨Nat.zero_le _, rfl⟩
  | succ rounds inductionHypothesis =>
    have word := wordAt_lt memory vdg_end
    show (∃ next, (if i < wordAt memory vdg_end then _ else _ : Axiom Unit) memory = _ ∧ _) ∨
      _ ∧ ((if i < wordAt memory vdg_end then _ else _ : Axiom Unit) memory).1 = none
    by_cases inside : i < wordAt memory vdg_end
    · rw [if_pos inside]
      have cell := @leavesAll_store memory i (if i < (wordAt memory vdg_end + 65536 - 32) % 65536
        then memory ((i + 32) % 65536) else 32) (apart i (Nat.le_refl i) inside)
      have index : (i + 1) % 65536 = i + 1 := Nat.mod_eq_of_lt (by omega)
      have last := cell.fields.2.1
      rw [bind_eq]
      show (∃ next, scrollLoop rounds _ (store memory i _) = _ ∧ _) ∨
        _ ∧ (scrollLoop rounds _ (store memory i _)).1 = none
      rw [index]
      rcases @inductionHypothesis (store memory i [if i < (wordAt memory vdg_end + 65536 - 32) % 65536
        then memory ((i + 32) % 65536) else 32]) (i + 1) (fun j low high =>
          apart j (by omega) (by omega)) with ⟨next, done, leaves⟩ | ⟨few, stops⟩
      · exact .inl ⟨next, done, cell.trans leaves⟩
      · exact .inr ⟨by omega, stops⟩
    · rw [if_neg inside]
      exact .inl ⟨memory, rfl, fun _ _ _ => rfl⟩

/-- Where the cursor is behind a code point that was put. -/
def nextPlace (memory : Nat → UInt8) (p : Nat) : Nat :=
  if (p + 1) % 65536 ≥ wordAt memory vdg_end then wordAt memory vdg_end - 32 else (p + 1) % 65536

theorem putCode_spec {p : Nat} (place : Place memory p) (codepoint : UInt8) :
    (∃ next, putCode rounds p codepoint memory = (some (), next) ∧
      wordAt next vdg_ptr = nextPlace memory p ∧ Screen next ∧
      wordAt next vdg_end = wordAt memory vdg_end ∧ Leaves memory next) ∨
      (rounds ≤ 65536 ∧ (putCode rounds p codepoint memory).1 = none) := by
  have cell := @leavesAll_store memory p (0x3F &&& codepoint) place.apart
  obtain ⟨first, last, -⟩ := cell.fields
  have word := wordAt_lt memory vdg_end
  have rows := place.1
  have fields : vdg_begin = 535 ∧ BUF = 545 := ⟨rfl, rfl⟩
  have run : putCode rounds p codepoint memory =
      (if (p + 1) % 65536 ≥ wordAt (store memory p [0x3F &&& codepoint]) vdg_end then do
        scrollLoop rounds (wordAt (store memory p [0x3F &&& codepoint]) vdg_begin)
        displayLast
      else display ((p + 1) % 65536) : Axiom Unit) (store memory p [0x3F &&& codepoint]) := rfl
  rw [run, last, first, nextPlace]
  by_cases over_ : (p + 1) % 65536 ≥ wordAt memory vdg_end
  · rw [if_pos over_, if_pos over_, bind_eq]
    have inWindow : ∀ j, wordAt memory vdg_begin ≤ j →
        j < wordAt (store memory p [0x3F &&& codepoint]) vdg_end → j < vdg_begin ∨ BUF + 80 ≤ j := by
      intro j low high
      rw [last] at high
      rcases place.2 with behind | before
      · exact .inr (behind.1.trans low)
      · exact .inl (Nat.lt_of_lt_of_le high before.1)
    rcases @scrollLoop_spec _ rounds _ inWindow with ⟨next, done, leaves⟩ | ⟨few, stops⟩
    · rw [done]
      have all := cell.trans leaves
      have end_ := all.fields.2.1
      have there : displayLast next = display (wordAt memory vdg_end - 32) next := by
        have row : (wordAt next vdg_end + 65536 - 32) % 65536 = wordAt memory vdg_end - 32 := by
          rw [end_]
          omega
        rw [← row]
        rfl
      have lastRow : Place memory (wordAt memory vdg_end - 32) := by
        refine ⟨rows, place.2.imp (fun behind => ?_) fun before => ?_⟩
        · exact ⟨behind.1, behind.2.1, by omega, by omega⟩
        · exact ⟨before.1, by omega⟩
      obtain ⟨final, shown, cursor, screen, end', leaves'⟩ := display_spec (all.place lastRow)
      refine .inl ⟨final, there.trans shown, cursor, screen, end'.trans end_, ?_⟩
      exact fun a low high other other' => (leaves' a low high other other').trans (all a low high)
    · refine .inr ⟨by omega, bind_of_none stops _⟩
  · rw [if_neg over_, if_neg over_]
    have onward : Place memory ((p + 1) % 65536) := by
      refine ⟨rows, place.2.imp (fun behind => ?_) fun before => ?_⟩
      · exact ⟨behind.1, behind.2.1, by omega, by omega⟩
      · exact ⟨before.1, by omega⟩
    obtain ⟨final, shown, cursor, screen, end', leaves⟩ := display_spec (cell.place onward)
    refine .inl ⟨final, shown, cursor, screen, end'.trans last, fun a low high other other' => ?_⟩
    exact (leaves a low high other other').trans (cell a low high)

theorem shows_putOther (ch : UInt8) : Shows rounds (putOther signed rounds ch) := by
  intro memory screen
  have rows := screen.1
  have fields : vdg_begin = 535 ∧ BUF = 545 := ⟨rfl, rfl⟩
  have shown : ∃ next, display (wordAt memory vdg_ptr) memory = (some (), next) ∧ Screen next ∧
      Leaves memory next := by
    obtain ⟨next, shown, -, screen, -, leaves⟩ := display_spec screen
    exact ⟨next, shown, screen, leaves⟩
  -- another cell is written before the cursor is displayed
  have written : ∀ a p byte, (a < vdg_begin ∨ BUF + 80 ≤ a) → Place memory p →
      ∃ next, display p (store memory a [byte]) = (some (), next) ∧ Screen next ∧
        Leaves memory next := by
    intro a p byte apart place
    have cell := @leavesAll_store memory a byte apart
    obtain ⟨next, shown, -, screen, -, leaves⟩ := display_spec (cell.place place)
    exact ⟨next, shown, screen, fun a low high other other' =>
      (leaves a low high other other').trans (cell a low high)⟩
  have earlier : wordAt memory vdg_ptr > wordAt memory vdg_begin →
      Place memory (wordAt memory vdg_ptr - 1) := by
    intro further
    refine ⟨rows, screen.2.imp (fun behind => ?_) fun before => ?_⟩
    · exact ⟨behind.1, behind.2.1, by omega, by omega⟩
    · exact ⟨before.1, by omega⟩
  show (∃ next, (if ch = 8 then _ else _ : Axiom Unit) memory = _ ∧ _) ∨
    _ ∧ ((if ch = 8 then _ else _ : Axiom Unit) memory).1 = none
  split
  · split
    · rename_i further
      exact .inl (written _ _ _ screen.apart (earlier further))
    · exact .inl shown
  · split
    · split
      · rename_i further
        exact .inl (written _ _ _ (earlier further).apart screen)
      · exact .inl shown
    · split
      · exact .inl ⟨memory, rfl, screen, fun _ _ _ _ _ => rfl⟩
      · rcases @putCode_spec memory rounds _ screen
          (if 96 ≤ char signed ch ∧ char signed ch ≤ 126 then ch - 32 else ch) with
          ⟨next, put, -, screen', -, leaves⟩ | stops
        · exact .inl ⟨next, put, screen', leaves⟩
        · exact .inr stops

/-- The row ends after 32 blanks, or, if the window has no whole rows, after as many in its last
row. -/
theorem blankLoop_spec {left : Nat} (screen : Screen memory) :
    (∃ next, blankLoop signed rounds left memory = (some (), next) ∧ Screen next ∧
      Leaves memory next) ∨
      ((rounds ≤ 65536 ∨ left ≤ 31 - wordAt memory vdg_ptr % 32 +
        if wordAt memory vdg_ptr + 32 - wordAt memory vdg_ptr % 32 ≥ wordAt memory vdg_end
          then 32 else 0) ∧ (blankLoop signed rounds left memory).1 = none) := by
  induction left generalizing memory with
  | zero => exact .inr ⟨.inr (Nat.zero_le _), rfl⟩
  | succ left inductionHypothesis =>
    have blank : putOther signed rounds 32 memory =
        putCode rounds (wordAt memory vdg_ptr) 32 memory := by
      cases signed <;> rfl
    have word := wordAt_lt memory vdg_ptr
    have rows := screen.1
    rw [blankLoop, bind_eq, blank]
    rcases @putCode_spec memory rounds _ screen 32 with
      ⟨next, put, cursor, screen', end_, leaves⟩ | ⟨few, stops⟩
    · rw [put]
      show (∃ last, (if wordAt next vdg_ptr % 32 ≠ 0 then _ else _ : Axiom Unit) next = _ ∧ _) ∨
        _ ∧ ((if wordAt next vdg_ptr % 32 ≠ 0 then _ else _ : Axiom Unit) next).1 = none
      split
      · rename_i more
        rcases inductionHypothesis screen' with ⟨final, done, screen'', leaves'⟩ | ⟨few, stops⟩
        · exact .inl ⟨final, done, screen'', leaves.trans leaves'⟩
        · refine .inr ⟨few.imp_right fun few => ?_, stops⟩
          rw [cursor, end_, nextPlace] at few
          rw [cursor, nextPlace] at more
          split at few
          · rename_i over_
            rw [if_pos over_] at more
            split at few
            · omega
            · split <;> omega
          · rename_i room
            rw [if_neg room] at more
            split at few <;> split <;> omega
      · exact .inl ⟨next, rfl, screen', leaves⟩
    · exact .inr ⟨.inl few, by
        show (after (putCode rounds (wordAt memory vdg_ptr) 32 memory) _).1 = none
        generalize putCode rounds (wordAt memory vdg_ptr) 32 memory = outcome at stops
        obtain ⟨value, state⟩ := outcome
        cases stops
        rfl⟩

theorem shows_PutChar (ch : UInt8) : Shows rounds (PutChar signed rounds ch) := by
  intro memory screen
  rw [PutChar]
  split
  · rcases @blankLoop_spec memory rounds signed rounds screen with done | ⟨few, stops⟩
    · exact .inl done
    · refine .inr ⟨few.elim id fun few => ?_, stops⟩
      split at few <;> omega
  · exact shows_putOther ch memory screen

theorem shows_pure : Shows rounds (pure ()) :=
  fun memory screen => .inl ⟨memory, rfl, screen, fun _ _ _ _ _ => rfl⟩

theorem Shows.bind {first second : Axiom Unit} (shows : Shows rounds first)
    (shows' : Shows rounds second) : Shows rounds (first >>= fun _ => second) := by
  intro memory screen
  rcases shows memory screen with ⟨next, done, screen', leaves⟩ | ⟨few, stops⟩
  · rw [bind_eq, done]
    rcases shows' next screen' with ⟨last, done', screen'', leaves'⟩ | stops
    · exact .inl ⟨last, done', screen'', leaves.trans leaves'⟩
    · exact .inr stops
  · exact .inr ⟨few, bind_of_none stops _⟩

/-- Printing ends, and leaves the variables. -/
theorem shows_PutStr (s : List UInt8) : Shows rounds (PutStr signed rounds s) := by
  induction s with
  | nil => exact shows_pure
  | cons ch s inductionHypothesis => exact (shows_PutChar ch).bind inductionHypothesis

end

end Frobio.CommandLine
