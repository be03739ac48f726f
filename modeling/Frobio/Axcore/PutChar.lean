/-
This file models `PutChar` of `axiom41/axcore.c`, which writes on the text screen, and shows
what is on the screen after each character.

The screen is a window of memory with rows of 32 cells. The cursor is a cell of its own,
which the next character replaces. A carriage return is printed as blanks up to the end of
the row. Whether `char` is signed depends on the compiler and is a parameter, and so is how
often the loop of the carriage return may go round.
-/

import Mathlib.Logic.Function.Basic
import Frobio.Froblib.Buf

namespace Frobio.Axcore

open Froblib (char)

/-! ### The screen -/

/-- What `PutChar` uses of `struct axiom4_vars`, the memory, and the addresses it has written. -/
structure Vdg where
  memory : Nat → UInt8
  vdg_begin : Nat
  vdg_end : Nat
  vdg_ptr : Nat
  written : List Nat

namespace Vdg

def poke (v : Vdg) (a : Nat) (b : UInt8) : Vdg :=
  { v with memory := Function.update v.memory a b, written := v.written ++ [a] }

/-- The body of the loop that scrolls. -/
def scrollCell (v : Vdg) (i : Nat) : Vdg :=
  if i < v.vdg_end - 32 then v.poke i (v.memory (i + 32)) else v.poke i 32

def scroll (v : Vdg) : Vdg :=
  (List.range' v.vdg_begin (v.vdg_end - v.vdg_begin)).foldl scrollCell v

/-- The end of `PutChar`: the cursor is displayed. -/
def display (v : Vdg) (p : Nat) : Vdg := { v.poke p 0xEF with vdg_ptr := p }

/-- A code point is put at the cursor. -/
def print (v : Vdg) (codepoint : UInt8) : Vdg :=
  let v' := v.poke v.vdg_ptr (0x3F &&& codepoint)
  let p := (v.vdg_ptr + 1) % 65536
  if p ≥ v.vdg_end then v'.scroll.display (v.vdg_end - 32) else v'.display p

/-- `PutChar` of what is not the end of a line. -/
def putOther (signed : Bool) (v : Vdg) (ch : UInt8) : Vdg :=
  let p := v.vdg_ptr
  if ch = 8 then
    if p > v.vdg_begin then (v.poke p 32).display (p - 1) else v.display p
  else if ch = 1 then
    if p > v.vdg_begin then (v.poke (p - 1) (v.memory (p - 1) ^^^ 0x40)).display p else v.display p
  else if char signed ch < 32 then v
  else if 96 ≤ char signed ch ∧ char signed ch ≤ 126 then v.print (ch - 32)
  else v.print ch

/-- Blanks, up to the end of the row. -/
def carriageReturn (signed : Bool) : Nat → Vdg → Option Vdg
  | 0, _ => none
  | rounds + 1, v =>
    let v := v.putOther signed 32
    if v.vdg_ptr % 32 ≠ 0 then carriageReturn signed rounds v else some v

end Vdg

def PutChar (signed : Bool) (rounds : Nat) (v : Vdg) (ch : UInt8) : Option Vdg :=
  if ch = 13 ∨ ch = 10 then v.carriageReturn signed rounds else some (v.putOther signed ch)

/-- The screen as `AxiomMain` makes it. -/
def Vdg.AxiomMain (memory : Nat → UInt8) : Vdg where
  memory a := if 0x400 ≤ a ∧ a < 0x600 then 32 else memory a
  vdg_begin := 0x400 + 32
  vdg_ptr := 0x400 + 32
  vdg_end := 0x600
  written := []

def PutStr (signed : Bool) (rounds : Nat) : Vdg → List UInt8 → Option Vdg
  | v, [] => some v
  | v, ch :: s => (PutChar signed rounds v ch).bind fun v => PutStr signed rounds v s

/-! ### What a character does -/

/-- The window has whole rows, and the cursor is in it. -/
structure Vdg.Window (v : Vdg) : Prop where
  firstRow : v.vdg_begin % 32 = 0
  lastRow : v.vdg_end % 32 = 0
  low : v.vdg_begin ≤ v.vdg_ptr
  high : v.vdg_ptr < v.vdg_end
  word : v.vdg_end < 65536

/-- The window and the cursor are where they should be, and only the window is written. -/
structure Vdg.Stays (v v' : Vdg) : Prop where
  firstRow : v'.vdg_begin = v.vdg_begin
  lastRow : v'.vdg_end = v.vdg_end
  window : v'.Window
  written : ∃ new, v'.written = v.written ++ new ∧
    ∀ a ∈ new, v.vdg_begin ≤ a ∧ a < v.vdg_end
  outside : ∀ a, a < v.vdg_begin ∨ v.vdg_end ≤ a → v'.memory a = v.memory a

/-- The rows are those of a screen, each moved up by one, with the last one blank and the cursor at
its start. -/
structure Vdg.Scrolls (v : Vdg) (before : Nat → UInt8) (v' : Vdg) : Prop where
  rows : ∀ a, v.vdg_begin ≤ a → a + 32 < v.vdg_end → v'.memory a = before (a + 32)
  last : ∀ a, v.vdg_end ≤ a + 32 → a < v.vdg_end → v'.vdg_ptr ≠ a → v'.memory a = 32
  cursor : v'.vdg_ptr = v.vdg_end - 32

/-- A code point is in its cell. If the cell was the last one, the screen has scrolled, and
otherwise only the cursor has moved. -/
def Vdg.Prints (v : Vdg) (codepoint : UInt8) (v' : Vdg) : Prop :=
  if v.vdg_ptr + 1 = v.vdg_end then
    v.Scrolls (Function.update v.memory v.vdg_ptr (0x3F &&& codepoint)) v'
  else
    v'.vdg_ptr = v.vdg_ptr + 1 ∧ v'.memory v.vdg_ptr = 0x3F &&& codepoint ∧
      ∀ a, a ≠ v.vdg_ptr → a ≠ v.vdg_ptr + 1 → v'.memory a = v.memory a

/-- The rest of the row is blank. If it was the last one, the screen has scrolled, and otherwise
only the cursor has moved to the next row. -/
def Vdg.Returns (v v' : Vdg) : Prop :=
  v'.vdg_ptr % 32 = 0 ∧
    if v.vdg_end ≤ v.vdg_ptr + 32 then
      v.Scrolls (fun a => if v.vdg_ptr ≤ a then 32 else v.memory a) v'
    else
      v'.vdg_ptr = v.vdg_ptr / 32 * 32 + 32 ∧
        (∀ a, v.vdg_ptr ≤ a → a < v'.vdg_ptr → v'.memory a = 32) ∧
        ∀ a, a < v.vdg_ptr ∨ v'.vdg_ptr < a → v'.memory a = v.memory a

/-- What `PutChar` may leave for a character. -/
structure Vdg.Shows (signed : Bool) (v : Vdg) (ch : UInt8) (v' : Vdg) : Prop where
  stays : v.Stays v'
  returns : ch = 13 ∨ ch = 10 → v.Returns v'
  prints : 32 ≤ char signed ch →
    v.Prints (if 96 ≤ char signed ch ∧ char signed ch ≤ 126 then ch - 32 else ch) v'

/-! ### Scrolling -/

namespace Vdg

variable {v v' : Vdg}

theorem poke_memory (v : Vdg) (a : Nat) (b : UInt8) (x : Nat) :
    (v.poke a b).memory x = if x = a then b else v.memory x := Function.update_apply ..

/-- The cells before the one that the loop has come to have their new contents, and the others
the old one. -/
theorem foldl_scrollCell (v : Vdg) (start count : Nat) :
    let v' := (List.range' start count).foldl scrollCell v
    v'.vdg_begin = v.vdg_begin ∧ v'.vdg_end = v.vdg_end ∧ v'.vdg_ptr = v.vdg_ptr ∧
      v'.written = v.written ++ List.range' start count ∧
      ∀ a, v'.memory a = if start ≤ a ∧ a < start + count then
        (if a < v.vdg_end - 32 then v.memory (a + 32) else 32) else v.memory a := by
  induction count generalizing v start with
  | zero =>
    refine ⟨rfl, rfl, rfl, (List.append_nil _).symm, fun a => ?_⟩
    rw [if_neg (by omega)]
    rfl
  | succ count inductionHypothesis =>
    have cell : (v.scrollCell start).vdg_begin = v.vdg_begin ∧
        (v.scrollCell start).vdg_end = v.vdg_end ∧ (v.scrollCell start).vdg_ptr = v.vdg_ptr ∧
        (v.scrollCell start).written = v.written ++ [start] ∧
        ∀ a, (v.scrollCell start).memory a = if a = start then
          (if a < v.vdg_end - 32 then v.memory (a + 32) else 32) else v.memory a := by
      rw [scrollCell]
      split
      · rename_i copies
        refine ⟨rfl, rfl, rfl, rfl, fun a => ?_⟩
        rw [poke_memory]
        split
        · rename_i here
          rw [here, if_pos copies]
        · rfl
      · rename_i clears
        refine ⟨rfl, rfl, rfl, rfl, fun a => ?_⟩
        rw [poke_memory]
        split
        · rename_i here
          rw [here, if_neg clears]
        · rfl
    obtain ⟨first, last, ptr, written, memory⟩ := cell
    obtain ⟨first', last', ptr', written', memory'⟩ :=
      inductionHypothesis (v.scrollCell start) (start + 1)
    rw [List.range'_succ, List.foldl_cons]
    refine ⟨first'.trans first, last'.trans last, ptr'.trans ptr, ?_, fun a => ?_⟩
    · rw [written', written, List.append_assoc]
      rfl
    · rw [memory', last]
      by_cases inside : start + 1 ≤ a ∧ a < start + 1 + count
      · have within : start ≤ a ∧ a < start + (count + 1) := by omega
        rw [if_pos inside, if_pos within, memory (a + 32),
          if_neg (show ¬a + 32 = start by omega)]
      · rw [if_neg inside, memory a]
        by_cases here : a = start
        · have within : start ≤ a ∧ a < start + (count + 1) := by omega
          rw [if_pos here, if_pos within]
        · have apart : ¬(start ≤ a ∧ a < start + (count + 1)) := by omega
          rw [if_neg here, if_neg apart]

/-! ### Printing -/

/-- There is room behind the cursor. -/
theorem print_of_room (window : v.Window) (room : v.vdg_ptr + 1 < v.vdg_end) (codepoint : UInt8) :
    (v.print codepoint).vdg_begin = v.vdg_begin ∧ (v.print codepoint).vdg_end = v.vdg_end ∧
      (v.print codepoint).vdg_ptr = v.vdg_ptr + 1 ∧
      (v.print codepoint).written = v.written ++ [v.vdg_ptr, v.vdg_ptr + 1] ∧
      ∀ a, (v.print codepoint).memory a = if a = v.vdg_ptr + 1 then 0xEF else
        if a = v.vdg_ptr then 0x3F &&& codepoint else v.memory a := by
  have word := window.word
  have next : (v.vdg_ptr + 1) % 65536 = v.vdg_ptr + 1 := Nat.mod_eq_of_lt (by omega)
  rw [print, next, if_neg (by omega)]
  refine ⟨rfl, rfl, rfl, List.append_assoc _ _ _, fun a => ?_⟩
  exact (poke_memory _ _ _ _).trans (if_congr Iff.rfl rfl (poke_memory _ _ _ _))

/-- The cursor was in the last cell. -/
theorem print_of_last (window : v.Window) (last : v.vdg_ptr + 1 = v.vdg_end) (codepoint : UInt8) :
    (v.print codepoint).vdg_begin = v.vdg_begin ∧ (v.print codepoint).vdg_end = v.vdg_end ∧
      (v.print codepoint).vdg_ptr = v.vdg_end - 32 ∧
      (v.print codepoint).written = v.written ++ ([v.vdg_ptr] ++
        (List.range' v.vdg_begin (v.vdg_end - v.vdg_begin) ++ [v.vdg_end - 32])) ∧
      ∀ a, (v.print codepoint).memory a = if a = v.vdg_end - 32 then 0xEF else
        if v.vdg_begin ≤ a ∧ a < v.vdg_end then
          (if a < v.vdg_end - 32 then
            Function.update v.memory v.vdg_ptr (0x3F &&& codepoint) (a + 32)
          else 32)
        else v.memory a := by
  have word := window.word
  have low := window.low
  have next : (v.vdg_ptr + 1) % 65536 = v.vdg_end := by
    rw [last]
    exact Nat.mod_eq_of_lt word
  obtain ⟨first, lastRow, _, written, memory⟩ :=
    foldl_scrollCell (v.poke v.vdg_ptr (0x3F &&& codepoint)) v.vdg_begin
      (v.vdg_end - v.vdg_begin)
  rw [print, next, if_pos (Nat.le_refl _)]
  refine ⟨first, lastRow, rfl, ?_, fun a => ?_⟩
  · refine (congrArg (· ++ [v.vdg_end - 32]) written).trans ?_
    show v.written ++ [v.vdg_ptr] ++ _ ++ _ = _
    rw [List.append_assoc, List.append_assoc]
  · refine (poke_memory _ _ _ _).trans (if_congr Iff.rfl rfl ((memory a).trans ?_))
    by_cases inside : v.vdg_begin ≤ a ∧ a < v.vdg_end
    · rw [if_pos (by omega), if_pos inside]
      rfl
    · rw [if_neg (by omega), if_neg inside]
      exact (poke_memory _ _ _ _).trans (if_neg (by omega))

theorem Stays.trans {v'' : Vdg} (first : v.Stays v') (second : v'.Stays v'') : v.Stays v'' := by
  obtain ⟨new, written, within⟩ := first.written
  obtain ⟨new', written', within'⟩ := second.written
  refine ⟨second.firstRow.trans first.firstRow, second.lastRow.trans first.lastRow, second.window,
    ⟨new ++ new', ?_, fun a member => ?_⟩, fun a outside => ?_⟩
  · rw [written', written, List.append_assoc]
  · rcases List.mem_append.mp member with old | young
    · exact within a old
    · have bounds := within' a young
      rw [first.firstRow, first.lastRow] at bounds
      exact bounds
  · refine (second.outside a ?_).trans (first.outside a outside)
    rw [first.firstRow, first.lastRow]
    exact outside

/-- Printing stays in the window. -/
theorem Window.print (window : v.Window) (codepoint : UInt8) :
    v.Stays (v.print codepoint) ∧ v.Prints codepoint (v.print codepoint) := by
  obtain ⟨aligned, aligned', low, high, word⟩ := window
  rw [Prints]
  by_cases last : v.vdg_ptr + 1 = v.vdg_end
  · obtain ⟨first, lastRow, ptr, written, memory⟩ :=
      print_of_last ⟨aligned, aligned', low, high, word⟩ last codepoint
    rw [if_pos last]
    refine ⟨⟨first, lastRow, ⟨?_, ?_, ?_, ?_, ?_⟩, ⟨_, written, fun a member => ?_⟩,
      fun a outside => ?_⟩, fun a start stop => ?_, fun a start stop other => ?_, ptr⟩
    · rw [first, aligned]
    · rw [lastRow, aligned']
    · rw [first, ptr]
      omega
    · rw [lastRow, ptr]
      omega
    · rw [lastRow]
      exact word
    · rcases List.mem_append.mp member with here | further
      · have same := List.mem_singleton.mp here
        omega
      · rcases List.mem_append.mp further with scrolled | cursor
        · have range := List.mem_range'_1.mp scrolled
          omega
        · have same := List.mem_singleton.mp cursor
          omega
    · rw [memory, if_neg (by omega), if_neg (by omega)]
    · rw [memory, if_neg (by omega), if_pos (by omega), if_pos (by omega)]
    · rw [ptr] at other
      rw [memory, if_neg (by omega), if_pos (by omega), if_neg (by omega)]
  · obtain ⟨first, lastRow, ptr, written, memory⟩ :=
      print_of_room ⟨aligned, aligned', low, high, word⟩ (by omega) codepoint
    rw [if_neg last]
    refine ⟨⟨first, lastRow, ⟨?_, ?_, ?_, ?_, ?_⟩, ⟨_, written, fun a member => ?_⟩,
      fun a outside => ?_⟩, ptr, ?_, fun a here next => ?_⟩
    · rw [first, aligned]
    · rw [lastRow, aligned']
    · rw [first, ptr]
      omega
    · rw [lastRow, ptr]
      omega
    · rw [lastRow]
      exact word
    · rcases List.mem_cons.mp member with same | further
      · omega
      · have same := List.mem_singleton.mp further
        omega
    · rw [memory, if_neg (by omega), if_neg (by omega)]
    · rw [memory, if_neg (by omega), if_pos rfl]
    · rw [memory, if_neg next, if_neg here]

/-! ### The other characters -/

theorem Window.poke_display (window : v.Window) {a p : Nat} (byte : UInt8) (low : v.vdg_begin ≤ a)
    (high : a < v.vdg_end) (low' : v.vdg_begin ≤ p) (high' : p < v.vdg_end) :
    v.Stays ((v.poke a byte).display p) := by
  refine ⟨rfl, rfl, ⟨window.firstRow, window.lastRow, low', high', window.word⟩,
    ⟨[a, p], List.append_assoc _ _ _, fun x member => ?_⟩, fun x outside => ?_⟩
  · rcases List.mem_cons.mp member with same | further
    · omega
    · have same := List.mem_singleton.mp further
      omega
  · refine (poke_memory _ _ _ _).trans ?_
    rw [if_neg (by omega), poke_memory, if_neg (by omega)]

theorem Window.display (window : v.Window) : v.Stays (v.display v.vdg_ptr) := by
  have low := window.low
  have high := window.high
  refine ⟨rfl, rfl, ⟨window.firstRow, window.lastRow, low, high, window.word⟩,
    ⟨[v.vdg_ptr], rfl, fun x member => ?_⟩, fun x outside => ?_⟩
  · have same := List.mem_singleton.mp member
    omega
  · exact (poke_memory _ _ _ _).trans (if_neg (by omega))

theorem Window.putOther (window : v.Window) (signed : Bool) (ch : UInt8) :
    v.Stays (v.putOther signed ch) ∧ (32 ≤ char signed ch →
      v.Prints (if 96 ≤ char signed ch ∧ char signed ch ≤ 126 then ch - 32 else ch)
        (v.putOther signed ch)) := by
  have low := window.low
  have high := window.high
  rw [Vdg.putOther]
  by_cases backspace : ch = 8
  · rw [if_pos backspace]
    refine ⟨?_, fun printable => absurd printable (by rw [backspace]; cases signed <;> decide)⟩
    split
    · exact window.poke_display 32 low high (by omega) (by omega)
    · exact window.display
  rw [if_neg backspace]
  by_cases hilite : ch = 1
  · rw [if_pos hilite]
    refine ⟨?_, fun printable => absurd printable (by rw [hilite]; cases signed <;> decide)⟩
    split
    · exact window.poke_display _ (by omega) (by omega) low high
    · exact window.display
  rw [if_neg hilite]
  by_cases control : char signed ch < 32
  · rw [if_pos control]
    refine ⟨⟨rfl, rfl, window, ⟨[], (List.append_nil _).symm, fun a member => ?_⟩, fun _ _ => rfl⟩,
      fun printable => absurd control (not_lt.mpr printable)⟩
    exact absurd member List.not_mem_nil
  rw [if_neg control]
  by_cases lower : 96 ≤ char signed ch ∧ char signed ch ≤ 126
  · rw [if_pos lower, if_pos lower]
    exact ⟨(window.print _).1, fun _ => (window.print _).2⟩
  · rw [if_neg lower, if_neg lower]
    exact ⟨(window.print _).1, fun _ => (window.print _).2⟩

/-! ### Carriage returns -/

/-- By induction on the cells that are left in the row. -/
theorem Window.exists_carriageReturn (window : v.Window) (signed : Bool) {rounds : Nat}
    (enough : 31 - v.vdg_ptr % 32 < rounds) :
    ∃ v', v.carriageReturn signed rounds = some v' ∧ v.Stays v' ∧ v.Returns v' := by
  induction rounds generalizing v with
  | zero => exact absurd enough (Nat.not_lt_zero _)
  | succ rounds inductionHypothesis =>
    have aligned := window.lastRow
    have low := window.low
    have high := window.high
    have first := window.firstRow
    have blank : v.putOther signed 32 = v.print 32 := by
      cases signed <;> rfl
    obtain ⟨stays, prints⟩ := window.print 32
    have space : (0x3F : UInt8) &&& 32 = 32 := rfl
    rw [carriageReturn, blank]
    rw [Prints, space] at prints
    by_cases ends : v.vdg_ptr % 32 = 31
    · -- the last cell of the row
      have arrived : (v.print 32).vdg_ptr % 32 = 0 := by
        split at prints
        · rw [prints.cursor]
          omega
        · rw [prints.1]
          omega
      refine ⟨_, if_neg (not_not_intro arrived), stays, arrived, ?_⟩
      split at prints
      · rw [if_pos (by omega)]
        refine ⟨fun a start stop => ?_, prints.last, prints.cursor⟩
        rw [prints.rows a start stop, Function.update_apply]
        exact if_congr (by omega) rfl rfl
      · obtain ⟨ptr, here, others⟩ := prints
        rw [if_neg (by omega)]
        refine ⟨by omega, fun a start stop => ?_, fun a outside => others a (by omega) (by omega)⟩
        have same : a = v.vdg_ptr := by omega
        exact same ▸ here
    · have room : v.vdg_ptr + 1 ≠ v.vdg_end := by omega
      rw [if_neg room] at prints
      obtain ⟨ptr, here, others⟩ := prints
      obtain ⟨v', returned, stays', arrived, rest⟩ := inductionHypothesis stays.window (by omega)
      refine ⟨v', (if_pos (by omega)).trans returned, stays.trans stays', arrived, ?_⟩
      rw [stays.lastRow, ptr] at rest
      by_cases last : v.vdg_end ≤ v.vdg_ptr + 32
      · rw [if_pos (by omega)] at rest
        rw [if_pos last]
        refine ⟨fun a start stop => ?_, fun a start stop => ?_, ?_⟩
        · rw [rest.rows a (stays.firstRow.symm ▸ start) (stays.lastRow.symm ▸ stop)]
          by_cases before : v.vdg_ptr + 1 ≤ a + 32
          · rw [if_pos before, if_pos (by omega)]
          · rw [if_neg before]
            by_cases same : a + 32 = v.vdg_ptr
            · rw [same, here, if_pos (Nat.le_refl _)]
            · rw [others _ same (by omega), if_neg (by omega)]
        · exact rest.last a (stays.lastRow.symm ▸ start) (stays.lastRow.symm ▸ stop)
        · rw [rest.cursor, stays.lastRow]
      · rw [if_neg (by omega)] at rest
        rw [if_neg last]
        obtain ⟨next, blanks, same⟩ := rest
        refine ⟨by omega, fun a start stop => ?_, fun a outside => ?_⟩
        · by_cases old : a = v.vdg_ptr
          · rw [old, same _ (.inl (Nat.lt_succ_self _)), here]
          · exact blanks a (by omega) stop
        · rw [same a (by omega), others a (by omega) (by omega)]

/-- Thirty-two rounds are enough for a character, wherever the cursor is. -/
theorem Window.shows (window : v.Window) (signed : Bool) (ch : UInt8) :
    ∃ v', PutChar signed 32 v ch = some v' ∧ v.Shows signed ch v' := by
  by_cases line : ch = 13 ∨ ch = 10
  · obtain ⟨v', returned, stays, returns⟩ :=
      @Window.exists_carriageReturn v window signed 32 (by omega)
    refine ⟨v', (if_pos line).trans returned, stays, fun _ => returns, fun printable => ?_⟩
    rcases line with rfl | rfl
    · exact absurd printable (by cases signed <;> decide)
    · exact absurd printable (by cases signed <;> decide)
  · obtain ⟨stays, prints⟩ := window.putOther signed ch
    exact ⟨v.putOther signed ch, if_neg line, stays, fun isLine => absurd isLine line, prints⟩

/-- A string leaves the screen one of its kind. -/
theorem Window.stays_putStr (window : v.Window) (signed : Bool) (s : List UInt8) :
    ∃ v', PutStr signed 32 v s = some v' ∧ v.Stays v' := by
  induction s generalizing v with
  | nil =>
    exact ⟨v, rfl, rfl, rfl, window, ⟨[], (List.append_nil _).symm, fun a member =>
      absurd member List.not_mem_nil⟩, fun _ _ => rfl⟩
  | cons ch s inductionHypothesis =>
    obtain ⟨v', put, shows⟩ := window.shows signed ch
    obtain ⟨v'', puts, stays⟩ := inductionHypothesis shows.stays.window
    refine ⟨v'', ?_, shows.stays.trans stays⟩
    rw [PutStr, put]
    exact puts

theorem window_axiomMain (memory : Nat → UInt8) : (AxiomMain memory).Window :=
  ⟨(by decide : 0x420 % 32 = 0), (by decide : 0x600 % 32 = 0), Nat.le_refl _,
    (by decide : 0x420 < 0x600), (by decide : 0x600 < 65536)⟩

end Vdg

/-- From every screen with the cursor in its window, all the characters of a string are put, the
window is all that is written, and the next character is shown right as well. -/
theorem putStr_shows (signed : Bool) (v : Vdg) (window : v.Window) (s : List UInt8) :
    ∃ v', PutStr signed 32 v s = some v' ∧ v.Stays v' ∧
      ∀ ch, ∃ v'', PutChar signed 32 v' ch = some v'' ∧ v'.Shows signed ch v'' := by
  obtain ⟨v', puts, stays⟩ := window.stays_putStr signed s
  exact ⟨v', puts, stays, fun ch => stays.window.shows signed ch⟩

theorem putStr_shows_axiomMain :
    ∃ v', PutStr false 32 (Vdg.AxiomMain fun _ => 0) [65, 13, 97, 8] = some v' ∧
      (Vdg.AxiomMain fun _ => 0).Stays v' ∧
      ∀ ch, ∃ v'', PutChar false 32 v' ch = some v'' ∧ v'.Shows false ch v'' :=
  putStr_shows false (Vdg.AxiomMain fun _ => 0) (Vdg.window_axiomMain _) [65, 13, 97, 8]

end Frobio.Axcore
