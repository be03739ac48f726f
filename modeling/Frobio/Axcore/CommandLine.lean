/-
This file models the command lines of `axiom41/axcore.c`, which are typed or come with a reply from
the LAN, and shows which of them are carried out inside of the line.

A byte of the line is looked at only up to its NUL and inside of its 80 bytes: a program that looks
further stops. The variables and the line are where they are in memory, so that a poke may change
them, and so may what is printed. Whether `char` is signed is a parameter. `NativeMode` is left
out.
-/

import Mathlib.Data.List.DropRight
import Mathlib.Data.UInt
import Frobio.Axcore.Printing
import Frobio.Coms.Quint

namespace Frobio.CommandLine

open Coms (ascii decimal)
open Memory Program Cursor

/-! ### The line -/

def V41_DEFAULT_WAITER_TCP_PORT : UInt16 := 2321

def PTR (memory : Nat → UInt8) : Nat := wordAt memory line_ptr

/-- A byte of the line, behind which there is nothing to look at. -/
def lineByte (a : Nat) : Axiom UInt8 := fun memory =>
  (if BUF ≤ a ∧ a < BUF + 80 ∧ 0 ∉ load memory BUF (a - BUF) then some (memory a) else none, memory)

/-- `*PTR` and `++PTR`. -/
def pointer : Cursor (Nat → UInt8) UInt8 where
  look memory := lineByte (PTR memory) memory
  move memory := assign line_ptr (wordBytes (PTR memory + 1)) memory

/-! ### Numbers -/

def white (c : UInt8) : Bool := c == 32 || c == 46 || c == 47 || c == 58

def SkipWhite (rounds : Nat) : Axiom Unit := scanLoop pointer white (fun _ _ => ()) rounds ()

def decimalDigit (c : UInt8) : Bool := 48 ≤ c && c ≤ 57

def hexDigit (c : UInt8) : Bool := decimalDigit c || 65 ≤ c && c ≤ 70

/-- The number, and that there is one. -/
def decimalStep (x : Bool × UInt16) (c : UInt8) : Bool × UInt16 :=
  (true, x.2 * 10 + (c.toUInt16 - 48))

def hexStep (x : Bool × UInt16) (c : UInt8) : Bool × UInt16 :=
  (true, if c ≤ 57 then x.2 * 16 + (c.toUInt16 - 48) else x.2 * 16 + (c.toUInt16 - 65 + 10))

def GetNum2Bytes (rounds : Nat) : Axiom (Bool × UInt16) := do
  SkipWhite rounds
  let c ← pointer.look
  if c = 36 then
    pointer.move
    scanLoop pointer hexDigit hexStep rounds (false, 0)
  else scanLoop pointer decimalDigit decimalStep rounds (false, 0)

def GetNum1Byte (rounds : Nat) : Axiom (Bool × UInt8) := do
  let num ← GetNum2Bytes rounds
  pure (num.1, num.2.toUInt8)

/-- As many bytes as there are addresses for them. -/
def getBytes (rounds : Nat) : List Nat → Axiom Bool
  | [] => pure true
  | a :: addresses => do
    let num ← GetNum1Byte rounds
    assign a [num.2]
    if num.1 then getBytes rounds addresses else pure false

def GetAddyInXid (rounds : Nat) : Axiom Bool := do
  assign transaction_id [0, 0, 0, 0]
  getBytes rounds [transaction_id, transaction_id + 1, transaction_id + 2, transaction_id + 3]

/-! ### Commands -/

def MaskBits : Nat → UInt8
  | 0 => 0
  | n + 1 => MaskBits n >>> 1 ||| 0x80

def SetMask (width : UInt8) : Axiom Unit := do
  let width := if width = 0 then 24 else width
  assign mask_num [width]
  assign ip_mask [MaskBits width.toNat, MaskBits (width.toNat - 8), MaskBits (width.toNat - 16),
    MaskBits (width.toNat - 24)]

/-- A loop of `Mod200`. -/
def lower (step x : Nat) : Nat := if 0 < step ∧ step < x then lower step (x - step) else x
termination_by x
decreasing_by omega

def Mod200 (x : Nat) : UInt8 := UInt8.ofNat (lower 200 (lower 2000 x))

/-- The ticks are what the chip tells at the time. -/
def DoNetwork (WizTicks : (Nat → UInt8) → UInt16) (rounds : Nat) (a b : UInt8) : Axiom Unit := do
  let num ← GetNum1Byte rounds
  let memory ← get
  let tail := if num.1 then num.2 else 30 + Mod200 (WizTicks memory).toNat
  assign ip_addr [a, b, 23, tail]
  assign ip_gateway [a, b, 23, 1]
  assign ip_waiter [a, b, 23, 23]
  SetMask 24

/-- `memcpy` of the transaction id. -/
def copyXid (a : Nat) : Axiom Unit :=
  change fun memory => store memory a (load memory transaction_id 4)

/-- The second address of the command `I`, where there is a width before it. -/
def setGateway (rounds : Nat) (got : Bool) : Axiom Unit :=
  if got then do
    let addy ← GetAddyInXid rounds
    if addy then copyXid ip_gateway else pure ()
  else pure ()

/-- The command `I`, and the error. -/
def setAddress (rounds : Nat) : Axiom UInt8 := do
  let addy ← GetAddyInXid rounds
  if addy then
    copyXid ip_addr
    assign ip_gateway [0, 0, 0, 0]
    let width ← GetNum1Byte rounds
    setGateway rounds width.1
    SetMask width.2
    pure 0
  else pure 11

/-- The command `W`, and the error. -/
def setWaiter (rounds : Nat) : Axiom UInt8 := do
  let addy ← GetAddyInXid rounds
  if addy then
    copyXid ip_waiter
    let port ← GetNum2Bytes rounds
    assign waiter_port (wordBytes (if port.1 then port.2 else V41_DEFAULT_WAITER_TCP_PORT).toNat)
    pure 0
  else pure 12

/-! ### What is printed -/

section

variable (signed : Bool)

/-- `%x`. -/
def hexText (x : Nat) : List UInt8 := (Nat.toDigits 16 x).map fun c => UInt8.ofNat c.toNat

/-- `%d`. -/
def intText (x : Nat) : List UInt8 :=
  if 32768 ≤ x then 45 :: decimal (65536 - x) else decimal x

/-- `%a`. -/
def quadText (memory : Nat → UInt8) (a : Nat) : List UInt8 :=
  decimal (memory a).toNat ++ [46] ++ decimal (memory (a + 1)).toNat ++ [46] ++
    decimal (memory (a + 2)).toNat ++ [46] ++ decimal (memory (a + 3)).toNat

/-- A letter that is highlighted, and a text. -/
def highlighted (letter : String) (text : String) : List UInt8 := ascii letter ++ [1] ++ ascii text

def ShowNetwork (rounds : Nat) : Axiom Unit := do
  let memory ← get
  if memory use_dhcp ≠ 0 then PutStr signed rounds (highlighted "d" "\n")
  else
    PutStr signed rounds (highlighted "i" " " ++ quadText memory ip_addr ++ ascii "/" ++
      intText (memory mask_num).toNat ++ ascii " " ++ quadText memory ip_gateway ++ ascii "\n")
  let memory ← get
  PutStr signed rounds (highlighted "w" " " ++ quadText memory ip_waiter ++ ascii ":" ++
    intText (wordAt memory waiter_port) ++ ascii "\n")

/-- The loop of the command `<`. -/
def peekLoop (rounds : Nat) : Nat → Nat → Axiom Unit
  | 0, _ => pure ()
  | left + 1, peek_addr => do
    let memory ← get
    PutStr signed rounds (ascii " " ++ hexText (memory peek_addr).toNat)
    peekLoop rounds left ((peek_addr + 1) % 65536)

/-- The command `<`. -/
def peek (rounds : Nat) : Axiom Unit := do
  let num ← GetNum2Bytes rounds
  let peek_addr := if num.1 then num.2.toNat else 0
  PutStr signed rounds (hexText peek_addr ++ ascii ": ")
  peekLoop signed rounds 8 peek_addr
  PutChar signed rounds 13

/-- The command `>`. -/
def poke (rounds : Nat) : Axiom Unit := do
  let peek_addr ← GetNum2Bytes rounds
  if peek_addr.1 then
    let b ← GetNum1Byte rounds
    if b.1 then assign peek_addr.2.toNat [b.2] else PutStr signed rounds (ascii "?\n")
  else PutStr signed rounds (ascii "?\n")

def help : List UInt8 :=
  highlighted "U" " :upper wiznet port $FF78\n" ++ highlighted "Q" " :quick: poke 1 to $FFD9\n" ++
  highlighted "N" " :native mode for H6309\n" ++ highlighted "D" " :use DHCP\n" ++
  highlighted "I" " 1.2.3.4/24 5.6.7.8\n" ++ ascii "  :Set IP addr, mask, gateway\n" ++
  highlighted "W" " 3.4.5.6:" ++ intText V41_DEFAULT_WAITER_TCP_PORT.toNat ++
  ascii " :set waiter\n" ++ highlighted "A" " :preset 10.23.23.*\n" ++
  highlighted "B" " :preset 176.23.23.*\n" ++ highlighted "C" " :preset 192.168.23.*\n" ++
  highlighted "S" " :show settings\n" ++ ascii "Finally:  @" ++ [1] ++ ascii " : launch!\n"

/-- The end of `DoOneCommand`. -/
def report (rounds : Nat) (e : UInt8) : Axiom Unit :=
  if e ≠ 0 then PutStr signed rounds (ascii "*** error " ++ intText e.toNat ++ ascii "\n")
  else pure ()

/-! ### Lines -/

/-- The switch of `DoOneCommand`. -/
def obey (WizTicks : (Nat → UInt8) → UInt16) (rounds : Nat) (cmd : UInt8) : Axiom Unit :=
  if cmd = 85 then assign wiz_port (wordBytes 0xFF78)
  else if cmd = 68 then assign use_dhcp [1]
  else if cmd = 73 then setAddress rounds >>= report signed rounds
  else if cmd = 87 then setWaiter rounds >>= report signed rounds
  else if cmd = 83 then ShowNetwork signed rounds
  else if cmd = 65 then DoNetwork WizTicks rounds 10 23
  else if cmd = 66 then DoNetwork WizTicks rounds 176 23
  else if cmd = 67 then DoNetwork WizTicks rounds 192 168
  else if cmd = 64 then assign launch [1]
  else if cmd = 81 then assign 0xFFD9 [1]
  else if cmd = 78 then pure ()
  else if cmd = 60 then peek signed rounds
  else if cmd = 62 then poke signed rounds
  else if cmd = 0 ∨ cmd = 59 then pure ()
  else PutStr signed rounds help

def DoOneCommand (WizTicks : (Nat → UInt8) → UInt16) (rounds : Nat) : Axiom Unit := do
  SkipWhite rounds
  let cmd ← pointer.look
  pointer.move
  obey signed WizTicks rounds cmd

/-- The loop that echoes the line up to its end or a semicolon. -/
def echoLoop (rounds : Nat) : Nat → Nat → Axiom Unit
  | 0, _ => stop
  | left + 1, a => do
    let c ← lineByte a
    if c ≠ 0 ∧ c ≠ 59 then
      PutChar signed rounds c
      echoLoop rounds left (a + 1)
    else pure ()

def echoLine (rounds : Nat) (echo : Bool) : Axiom Unit :=
  if echo then do
    PutChar signed rounds 91
    let memory ← get
    echoLoop signed rounds rounds (PTR memory)
    PutChar signed rounds 93
    PutChar signed rounds 10
  else pure ()

/-- A turn of the loop, and whether there is another one. -/
def lineTurn (WizTicks : (Nat → UInt8) → UInt16) (rounds : Nat) (echo : Bool) : Axiom Bool := do
  echoLine signed rounds echo
  DoOneCommand signed WizTicks rounds
  SkipWhite rounds
  let c ← pointer.look
  pure (c != 0)

def lineLoop (WizTicks : (Nat → UInt8) → UInt16) (rounds : Nat) (echo : Bool) : Nat → Axiom Unit
  | 0 => stop
  | left + 1 => do
    let more ← lineTurn signed WizTicks rounds echo
    if more then lineLoop WizTicks rounds echo left else pure ()

def DoLineBufCommands (WizTicks : (Nat → UInt8) → UInt16) (rounds : Nat) (echo : Bool) :
    Axiom Unit := do
  assign line_ptr (wordBytes BUF)
  lineLoop signed WizTicks rounds echo rounds

end

/-! ### Typed lines -/

/-- The loop of `GetUpperCaseLine` over the keys that are pressed, up to the carriage return. -/
def keyLoop : List UInt8 → Nat → (Nat → UInt8) → Option (Nat → UInt8)
  | [], _, _ => none
  | ch :: keys, p, memory =>
    if ch = 13 then some memory
    else if ch = 8 then
      if p > BUF then keyLoop keys (p - 1) (store memory (p - 1) [0]) else keyLoop keys p memory
    else if ch < 32 then keyLoop keys p memory
    else if ch > 126 then keyLoop keys p memory
    else
      let ch := if 97 ≤ ch ∧ ch ≤ 122 then ch - 32 else ch
      if p < BUF + 80 - 2 then keyLoop keys (p + 1) (store memory p [ch])
      else keyLoop keys p memory

def GetUpperCaseLine (initialChar : UInt8) (keys : List UInt8) (memory : Nat → UInt8) :
    Option (Nat → UInt8) :=
  let memory := store memory BUF (List.replicate 80 0)
  if 33 ≤ initialChar ∧ initialChar ≤ 126 then
    keyLoop keys (BUF + 1) (store memory BUF [initialChar])
  else keyLoop keys BUF memory

/-! ### What is on a line -/

/-- Whether there is a number behind the separators, the number, and what is behind it. -/
def number (s : List UInt8) : (Bool × UInt16) × List UInt8 :=
  match s.dropWhile white with
  | [] => ((false, 0), [])
  | c :: s =>
    if c = 36 then ((s.takeWhile hexDigit).foldl hexStep (false, 0), s.dropWhile hexDigit)
    else
      (((c :: s).takeWhile decimalDigit).foldl decimalStep (false, 0),
        (c :: s).dropWhile decimalDigit)

/-- Whether there are so many numbers, and what is behind the last one. -/
def numbers : Nat → List UInt8 → Bool × List UInt8
  | 0, s => (true, s)
  | count + 1, s => if (number s).1.1 then numbers count (number s).2 else (false, (number s).2)

/-- What is behind the arguments of a command. -/
def behind (cmd : UInt8) (s : List UInt8) : List UInt8 :=
  if cmd = 73 then
    if (numbers 4 s).1 then
      if (number (numbers 4 s).2).1.1 then (numbers 4 (number (numbers 4 s).2).2).2
      else (number (numbers 4 s).2).2
    else (numbers 4 s).2
  else if cmd = 87 then
    if (numbers 4 s).1 then (number (numbers 4 s).2).2 else (numbers 4 s).2
  else if cmd = 65 ∨ cmd = 66 ∨ cmd = 67 ∨ cmd = 60 then (number s).2
  else if cmd = 62 then if (number s).1.1 then (number (number s).2).2 else (number s).2
  else s

/-- The address and the byte of a poke that is carried out. -/
def poked (cmd : UInt8) (s : List UInt8) : Option (Nat × UInt8) :=
  if cmd = 62 ∧ (number s).1.1 ∧ (number (number s).2).1.1 then
    some ((number s).1.2.toNat, (number (number s).2).1.2.toUInt8)
  else none

/-- Whether a command prints something: the settings, what is peeked, a question mark for a poke
without its numbers, an error for an address without its numbers, or the help. -/
def prints (cmd : UInt8) (s : List UInt8) : Bool :=
  if cmd = 73 ∨ cmd = 87 then !(numbers 4 s).1
  else if cmd = 62 then (poked cmd s).isNone
  else cmd ∉ [85, 68, 65, 66, 67, 64, 81, 78, 0, 59]

/-- The command that a text begins with, which is the NUL for a blank text, and what is behind
it. -/
def command (s : List UInt8) : UInt8 × List UInt8 :=
  match s.dropWhile white with
  | [] => (0, [])
  | cmd :: s => (cmd, s)

/-- The 80 bytes up to the NUL, if there is one. -/
def lineOf (memory : Nat → UInt8) : List UInt8 := (load memory BUF 80).takeWhile (· != 0)

/-- The bytes from the pointer up to the NUL, or to the end of the 80 bytes. -/
def restOf (memory : Nat → UInt8) : List UInt8 :=
  (load memory (PTR memory) (BUF + 80 - PTR memory)).takeWhile (· != 0)

/-- The pointer is in the line, and there is no NUL before it. -/
def Inside (memory : Nat → UInt8) : Prop :=
  BUF ≤ PTR memory ∧ PTR memory ≤ BUF + 80 ∧ 0 ∉ load memory BUF (PTR memory - BUF)

/-- The memory in which a poke takes place, as far as the line is concerned: the pointer is behind
the arguments of the command. -/
def behindCommand (memory : Nat → UInt8) : Nat → UInt8 :=
  store memory line_ptr (wordBytes (PTR memory + (restOf memory).length -
    (behind (command (restOf memory)).1 (command (restOf memory)).2).length))

/-- A poke leaves the pointer in the line, and further on than it was before the command. It neither
takes away the last NUL among the 80 bytes nor puts the first one there. -/
def Harmless (memory : Nat → UInt8) (poke : Nat × UInt8) : Prop :=
  Inside (store (behindCommand memory) poke.1 [poke.2]) ∧
    PTR memory < PTR (store (behindCommand memory) poke.1 [poke.2]) ∧
    (0 ∈ load (store (behindCommand memory) poke.1 [poke.2]) BUF 80 ↔ 0 ∈ load memory BUF 80)

/-- The command at the pointer spares the line: if it prints, or is echoed, the screen is apart from
the variables, and if it pokes, the poke is harmless. -/
structure Spares (echo : Bool) (memory : Nat → UInt8) : Prop where
  screen : (echo || prints (command (restOf memory)).1 (command (restOf memory)).2) = true →
    Screen memory
  harmless : ∀ poke ∈ poked (command (restOf memory)).1 (command (restOf memory)).2,
    Harmless memory poke

/-- The memory at the beginning of a turn of the loop. -/
inductive AtTurn (signed : Bool) (WizTicks : (Nat → UInt8) → UInt16) (rounds : Nat) (echo : Bool)
    (memory : Nat → UInt8) : (Nat → UInt8) → Prop
  | first : AtTurn signed WizTicks rounds echo memory (store memory line_ptr (wordBytes BUF))
  | next {turn next : Nat → UInt8} : AtTurn signed WizTicks rounds echo memory turn →
      lineTurn signed WizTicks rounds echo turn = (some true, next) →
      AtTurn signed WizTicks rounds echo memory next

/-! ### The pointer in the line -/

/-- The characters of a line: up to its NUL if it is closed, and all the 80 bytes otherwise. -/
structure Line (closed : Bool) (line : List UInt8) : Prop where
  noNul : 0 ∉ line
  fits : if closed then line.length < 80 else line.length = 80

/-- The line is in its place. -/
structure Holds (closed : Bool) (line : List UInt8) (memory : Nat → UInt8) : Prop where
  cells : load memory BUF line.length = line
  nul : closed = true → memory (BUF + line.length) = 0

/-- The pointer is before a rest of the line. -/
def Before (closed : Bool) (line : List UInt8) (memory : Nat → UInt8) (s : List UInt8) : Prop :=
  ∃ passed, line = passed ++ s ∧ PTR memory = BUF + passed.length ∧ Holds closed line memory

/-- The pointer is before a rest of the line, in which nothing has changed since the start of the
turn. If something is shown, the screen is apart from the variables. -/
structure Stands (closed : Bool) (line : List UInt8) (start : Nat → UInt8) (shown : Bool)
    (memory : Nat → UInt8) (s : List UInt8) : Prop where
  before : Before closed line memory s
  screen : shown = true → Screen memory
  same : ∀ a, BUF ≤ a → a < BUF + 80 → memory a = start a

/-- What can be looked at behind the line. -/
def last (closed : Bool) : Option UInt8 := if closed then some 0 else none

section

variable {closed : Bool} {line : List UInt8} {start : Nat → UInt8} {shown signed : Bool}

theorem Line.length_le (isLine : Line closed line) : line.length ≤ 80 := by
  have fits := isLine.fits
  split at fits
  · exact Nat.le_of_lt fits
  · exact Nat.le_of_eq fits

theorem last_eq {c : UInt8} (there : last closed = some c) : c = 0 := by
  rw [last] at there
  split at there
  · exact (Option.some.inj there).symm
  · cases there

/-- A change somewhere else leaves the line and the pointer as they are. -/
theorem Before.of_same (isLine : Line closed line) {memory memory' : Nat → UInt8} {s : List UInt8}
    (before : Before closed line memory s)
    (same : ∀ a, line_ptr ≤ a → a < BUF + 80 → memory' a = memory a) :
    Before closed line memory' s := by
  obtain ⟨passed, whole, place, holds⟩ := before
  have length := isLine.length_le
  have fits := isLine.fits
  refine ⟨passed, whole, ?_, ?_, fun nul => ?_⟩
  · rw [PTR, wordAt_congr (same _ (Nat.le_refl _) (by decide)) (same _ (by decide) (by decide))]
    exact place
  · refine (load_congr fun i inside => ?_).trans holds.cells
    exact same _ ((by decide : line_ptr ≤ BUF).trans (Nat.le_add_right _ _)) (by omega)
  · rw [if_pos nul] at fits
    rw [same _ ((by decide : line_ptr ≤ BUF).trans (Nat.le_add_right _ _)) (by omega)]
    exact holds.nul nul

/-- The line stays in its place when the pointer moves. -/
theorem Holds.move {memory : Nat → UInt8} (holds : Holds closed line memory) (x : Nat) :
    Holds closed line (store memory line_ptr (wordBytes x)) := by
  have after (i : Nat) : line_ptr + (wordBytes x).length ≤ BUF + i :=
    (by decide : line_ptr + 2 ≤ BUF).trans (Nat.le_add_right _ _)
  refine ⟨?_, fun nul => ?_⟩
  · rw [load_store_of_apart memory (.inr (show line_ptr + 2 ≤ BUF by decide))]
    exact holds.cells
  · rw [store_apply_of_after memory (after _)]
    exact holds.nul nul

/-- The screen is the same where its fields are. -/
theorem Screen.of_same {memory memory' : Nat → UInt8} (screen : Screen memory)
    (same : ∀ a, vdg_begin ≤ a → a < line_ptr → memory' a = memory a) : Screen memory' := by
  have field (a : Nat) (low : vdg_begin ≤ a) (high : a + 1 < line_ptr) :
      wordAt memory' a = wordAt memory a :=
    wordAt_congr (same a low (Nat.lt_of_succ_lt high)) (same _ (Nat.le_succ_of_le low) high)
  rw [Screen, Place, field vdg_begin (by decide) (by decide), field vdg_end (by decide) (by decide),
    field vdg_ptr (by decide) (by decide)]
  exact screen

theorem load_passed {memory : Nat → UInt8} {passed s : List UInt8}
    (cells : load memory BUF (passed ++ s).length = passed ++ s) :
    load memory BUF passed.length = passed ∧ load memory (BUF + passed.length) s.length = s := by
  rw [List.length_append, load_add] at cells
  exact List.append_inj cells (length_load _ _ _)

theorem lineByte_inside {memory : Nat → UInt8} {passed : List UInt8} (short : passed.length < 80)
    (cells : load memory BUF passed.length = passed) (noNul : 0 ∉ passed) :
    lineByte (BUF + passed.length) memory = (some (memory (BUF + passed.length)), memory) := by
  rw [lineByte, if_pos]
  rw [Nat.add_sub_cancel_left, cells]
  exact ⟨Nat.le_add_right _ _, Nat.add_lt_add_left short _, noNul⟩

/-- A look at a line, with the pointer or in front of it. -/
theorem lineByte_cons (isLine : Line closed line) {memory : Nat → UInt8} {passed s : List UInt8}
    {c : UInt8} (whole : line = passed ++ c :: s) (holds : Holds closed line memory) :
    lineByte (BUF + passed.length) memory = (some c, memory) := by
  have length := isLine.length_le
  have noNul := isLine.noNul
  have cells := holds.cells
  rw [whole] at length noNul cells
  obtain ⟨first, rest⟩ := load_passed cells
  have byte : (load memory (BUF + passed.length) (c :: s).length)[0]? =
      some (memory (BUF + passed.length)) := getElem?_load memory _ (Nat.succ_pos _)
  rw [rest] at byte
  rw [List.length_append, List.length_cons] at length
  rw [lineByte_inside (by omega) first fun nul => noNul (List.mem_append_left _ nul)]
  rw [← Option.some.inj byte]

theorem lineByte_nil (isLine : Line closed line) {memory : Nat → UInt8}
    (holds : Holds closed line memory) :
    lineByte (BUF + line.length) memory = (last closed, memory) := by
  have fits := isLine.fits
  cases closed with
  | true =>
    rw [lineByte_inside fits holds.cells isLine.noNul, holds.nul rfl]
    rfl
  | false =>
    have full : line.length = 80 := fits
    rw [lineByte, if_neg fun inside => absurd inside.2.1 (by omega)]
    rfl

theorem Stands.move {memory : Nat → UInt8} {c : UInt8} {s : List UInt8} (isLine : Line closed line)
    (stands : Stands closed line start shown memory (c :: s)) :
    Stands closed line start shown (store memory line_ptr (wordBytes (PTR memory + 1))) s := by
  obtain ⟨⟨passed, whole, place, holds⟩, screen, same⟩ := stands
  have length := isLine.length_le
  rw [whole, List.length_append] at length
  have word : PTR memory + 1 < 65536 := by
    rw [place, BUF, CASBUF]
    omega
  refine ⟨⟨passed ++ [c], ?_, ?_, holds.move _⟩, fun shows => ?_, fun a low high => ?_⟩
  · rw [List.append_assoc]
    exact whole
  · rw [PTR, wordAt_store word, place, List.length_append]
    rfl
  · exact (screen shows).of_same fun a _ high => store_apply_of_before memory _ high
  · refine (store_apply_of_after memory ?_).trans (same a low high)
    exact (show line_ptr + 2 ≤ BUF by decide).trans low

theorem pointer_lawful (isLine : Line closed line) :
    pointer.Lawful (Stands closed line start shown) (last closed) where
  look_cons {memory c s} stands := by
    obtain ⟨passed, whole, place, holds⟩ := stands.before
    show lineByte (PTR memory) memory = _
    rw [place, lineByte_cons isLine whole holds]
  look_nil {memory} stands := by
    obtain ⟨passed, whole, place, holds⟩ := stands.before
    rw [List.append_nil] at whole
    show lineByte (PTR memory) memory = _
    rw [place, ← whole, lineByte_nil isLine holds]
  move_cons stands := ⟨_, rfl, stands.move isLine⟩

/-! ### What the programs make of a line -/

/-- What a program makes of a rest of the line. If the line is closed and the rounds are enough for
it and for the screen, the program does not stop. -/
abbrev Reads (closed : Bool) (line : List UInt8) (start : Nat → UInt8) (shown : Bool) (rounds : Nat)
    {Value : Type} (m : Axiom Value) (s : List UInt8) (value : Value) (rest : List UInt8) : Prop :=
  Parses (Stands closed line start shown) (closed = true ∧ 65536 < rounds) m s value rest

variable {rounds : Nat}

theorem last_ne_none (total : closed = true ∧ 65536 < rounds) : last closed ≠ none := by
  rw [last, if_pos total.1]
  exact Option.some_ne_none 0

theorem reads_change (isLine : Line closed line) {f : (Nat → UInt8) → Nat → UInt8}
    (kept : ∀ memory a, vdg_begin ≤ a → a < BUF + 80 → f memory a = memory a) (s : List UInt8) :
    Reads closed line start shown rounds (change f) s () s := by
  refine .change fun memory stands => ⟨?_, fun shows => ?_, fun a low high => ?_⟩
  · exact stands.before.of_same isLine fun a low high =>
      kept memory a ((by decide : vdg_begin ≤ line_ptr).trans low) high
  · exact (stands.screen shows).of_same fun a low high =>
      kept memory a low (high.trans (by decide))
  · exact (kept memory a ((by decide : vdg_begin ≤ BUF).trans low) high).trans
      (stands.same a low high)

theorem reads_assign (isLine : Line closed line) {a : Nat} {data : List UInt8}
    (apart : a + data.length ≤ vdg_begin ∨ BUF + 80 ≤ a) (s : List UInt8) :
    Reads closed line start shown rounds (assign a data) s () s := by
  refine reads_change isLine (fun memory address low high => ?_) s
  rcases apart with below | above
  · exact store_apply_of_after memory (below.trans low)
  · exact store_apply_of_before memory data (Nat.lt_of_lt_of_le high above)

theorem reads_copyXid (isLine : Line closed line) {a : Nat} (below : a + 4 ≤ vdg_begin)
    (s : List UInt8) : Reads closed line start shown rounds (copyXid a) s () s := by
  refine reads_change isLine (fun memory address low _ => ?_) s
  refine store_apply_of_after memory ?_
  rw [length_load]
  exact below.trans low

/-- What is printed leaves the line and the pointer. -/
theorem reads_shows (isLine : Line closed line) {m : Axiom Unit} (shows : Shows rounds m)
    (s : List UInt8) : Reads closed line start true rounds m s () s := by
  intro memory stands
  rcases shows memory (stands.screen rfl) with ⟨next, done, screen, leaves⟩ | ⟨few, stops⟩
  · have kept : ∀ a, line_ptr ≤ a → a < BUF + 80 → next a = memory a := by
      intro a low high
      have below : vdg_ptr + 1 < a := Nat.lt_of_lt_of_le (by decide) low
      exact leaves a ((by decide : vdg_begin ≤ line_ptr).trans low) high
        (Nat.ne_of_gt (Nat.lt_of_succ_lt below)) (Nat.ne_of_gt below)
    refine .inl ⟨next, done, stands.before.of_same isLine kept, fun _ => screen, ?_⟩
    exact fun a low high => (kept a ((by decide : line_ptr ≤ BUF).trans low) high).trans
      (stands.same a low high)
  · exact .inr ⟨fun total => absurd total.2 (Nat.not_lt_of_le few), stops⟩

theorem reads_scanLoop (isLine : Line closed line) {Value : Type} {test : UInt8 → Bool}
    (ends : test 0 = false) (step : Value → UInt8 → Value) (first : Value) (s : List UInt8) :
    Reads closed line start shown rounds (scanLoop pointer test step rounds first) s
      ((s.takeWhile test).foldl step first) (s.dropWhile test) := by
  intro memory stands
  have length := isLine.length_le
  obtain ⟨passed, whole, -⟩ := stands.before
  rw [whole, List.length_append] at length
  exact parses_scanLoop (pointer_lawful isLine) last_ne_none ends (fun c there => last_eq there)
    (fun total => by omega) first memory stands

theorem reads_look_nil (isLine : Line closed line) :
    Reads closed line start shown rounds pointer.look [] 0 [] :=
  .look_nil (pointer_lawful isLine) last_ne_none fun _ there => last_eq there

theorem reads_SkipWhite (isLine : Line closed line) (s : List UInt8) :
    Reads closed line start shown rounds (SkipWhite rounds) s () (s.dropWhile white) :=
  reads_scanLoop isLine rfl (fun _ _ => ()) () s

theorem reads_GetNum2Bytes (isLine : Line closed line) (s : List UInt8) :
    Reads closed line start shown rounds (GetNum2Bytes rounds) s (number s).1 (number s).2 := by
  refine (reads_SkipWhite isLine s).bind ?_
  rw [number]
  cases s.dropWhile white with
  | nil => exact (reads_look_nil isLine).bind (reads_scanLoop isLine rfl decimalStep (false, 0) [])
  | cons c s =>
    refine (Parses.look_cons (pointer_lawful isLine) c s).bind ?_
    dsimp only
    split
    · refine (Parses.move_cons (pointer_lawful isLine) c s).bind ?_
      exact reads_scanLoop isLine rfl hexStep (false, 0) s
    · exact reads_scanLoop isLine rfl decimalStep (false, 0) (c :: s)

theorem reads_GetNum1Byte (isLine : Line closed line) (s : List UInt8) :
    Reads closed line start shown rounds (GetNum1Byte rounds) s
      ((number s).1.1, (number s).1.2.toUInt8) (number s).2 :=
  (reads_GetNum2Bytes isLine s).bind (.pure _ _)

theorem reads_getBytes (isLine : Line closed line) {addresses : List Nat}
    (below : ∀ a ∈ addresses, a + 1 ≤ vdg_begin) (s : List UInt8) :
    Reads closed line start shown rounds (getBytes rounds addresses) s
      (numbers addresses.length s).1 (numbers addresses.length s).2 := by
  induction addresses generalizing s with
  | nil => exact .pure true s
  | cons a addresses inductionHypothesis =>
    refine (reads_GetNum1Byte isLine s).bind ?_
    refine (reads_assign isLine (.inl (below a List.mem_cons_self)) _).bind ?_
    rw [List.length_cons, numbers]
    dsimp only
    split
    · exact inductionHypothesis (fun a member => below a (List.mem_cons_of_mem _ member)) _
    · exact .pure false _

theorem reads_GetAddyInXid (isLine : Line closed line) (s : List UInt8) :
    Reads closed line start shown rounds (GetAddyInXid rounds) s (numbers 4 s).1
      (numbers 4 s).2 := by
  refine (reads_assign isLine (.inl (by decide)) s).bind ?_
  exact @reads_getBytes closed line start shown rounds isLine
    [transaction_id, transaction_id + 1, transaction_id + 2, transaction_id + 3] (by decide) s

theorem reads_SetMask (isLine : Line closed line) (width : UInt8) (s : List UInt8) :
    Reads closed line start shown rounds (SetMask width) s () s :=
  (reads_assign isLine (.inl (show mask_num + 1 ≤ vdg_begin by decide)) s).bind
    (reads_assign isLine (.inl (show ip_mask + 4 ≤ vdg_begin by decide)) s)

theorem reads_DoNetwork (isLine : Line closed line) (WizTicks : (Nat → UInt8) → UInt16)
    (a b : UInt8) (s : List UInt8) :
    Reads closed line start shown rounds (DoNetwork WizTicks rounds a b) s () (number s).2 := by
  have below (field : Nat) (low : field + 4 ≤ vdg_begin) (tail : UInt8) (s : List UInt8) :
      Reads closed line start shown rounds (assign field [a, b, 23, tail]) s () s :=
    reads_assign isLine (.inl low) s
  refine (reads_GetNum1Byte isLine s).bind (.get fun memory => ?_)
  refine (below ip_addr (by decide) _ _).bind ?_
  refine (below ip_gateway (by decide) _ _).bind ?_
  exact (below ip_waiter (by decide) _ _).bind (reads_SetMask isLine 24 _)

theorem reads_setGateway (isLine : Line closed line) (got : Bool) (s : List UInt8) :
    Reads closed line start shown rounds (setGateway rounds got) s ()
      (if got then (numbers 4 s).2 else s) := by
  cases got with
  | false => exact .pure () s
  | true =>
    refine (reads_GetAddyInXid isLine s).bind ?_
    split
    · exact reads_copyXid isLine (by decide) _
    · exact .pure () _

/-- The error of the command is that there are no four numbers. -/
theorem reads_setAddress (isLine : Line closed line) (s : List UInt8) :
    Reads closed line start shown rounds (setAddress rounds) s (if (numbers 4 s).1 then 0 else 11)
      (behind 73 s) := by
  rw [behind, if_pos rfl]
  refine (reads_GetAddyInXid isLine s).bind ?_
  by_cases found : (numbers 4 s).1 = true
  · rw [if_pos found, if_pos found, if_pos found]
    refine (reads_copyXid isLine (by decide) _).bind ?_
    refine (reads_assign isLine (.inl (by decide)) _).bind ?_
    refine (reads_GetNum1Byte isLine _).bind ?_
    exact (reads_setGateway isLine _ _).bind ((reads_SetMask isLine _ _).bind (.pure 0 _))
  · rw [if_neg found, if_neg found, if_neg found]
    exact .pure 11 _

theorem reads_setWaiter (isLine : Line closed line) (s : List UInt8) :
    Reads closed line start shown rounds (setWaiter rounds) s (if (numbers 4 s).1 then 0 else 12)
      (behind 87 s) := by
  rw [behind, if_neg (show ¬(87 : UInt8) = 73 by decide), if_pos rfl]
  refine (reads_GetAddyInXid isLine s).bind ?_
  by_cases found : (numbers 4 s).1 = true
  · rw [if_pos found, if_pos found, if_pos found]
    refine (reads_copyXid isLine (by decide) _).bind ?_
    refine (reads_GetNum2Bytes isLine _).bind ?_
    refine (reads_assign isLine (.inl ?_) _).bind (.pure 0 _)
    show waiter_port + 2 ≤ vdg_begin
    decide
  · rw [if_neg found, if_neg found, if_neg found]
    exact .pure 12 _

/-! ### What is printed for a line -/

theorem reads_PutStr (isLine : Line closed line) (text : List UInt8) (s : List UInt8) :
    Reads closed line start true rounds (PutStr signed rounds text) s () s :=
  reads_shows isLine (shows_PutStr text) s

theorem reads_PutChar (isLine : Line closed line) (ch : UInt8) (s : List UInt8) :
    Reads closed line start true rounds (PutChar signed rounds ch) s () s :=
  reads_shows isLine (shows_PutChar ch) s

theorem reads_ShowNetwork (isLine : Line closed line) (s : List UInt8) :
    Reads closed line start true rounds (ShowNetwork signed rounds) s () s := by
  refine .get fun memory => ?_
  have waiter : Reads closed line start true rounds (get >>= fun memory => PutStr signed rounds
      (highlighted "w" " " ++ quadText memory ip_waiter ++ ascii ":" ++
        intText (wordAt memory waiter_port) ++ ascii "\n")) s () s :=
    .get fun memory => reads_PutStr isLine _ s
  split
  · exact (reads_PutStr isLine _ s).bind waiter
  · exact (reads_PutStr isLine _ s).bind waiter

theorem reads_peekLoop (isLine : Line closed line) (left peek_addr : Nat) (s : List UInt8) :
    Reads closed line start true rounds (peekLoop signed rounds left peek_addr) s () s := by
  induction left generalizing peek_addr with
  | zero => exact .pure () s
  | succ left inductionHypothesis =>
    exact .get fun memory => (reads_PutStr isLine _ s).bind (inductionHypothesis _)

theorem reads_peek (isLine : Line closed line) (s : List UInt8) :
    Reads closed line start true rounds (peek signed rounds) s () (number s).2 := by
  refine (reads_GetNum2Bytes isLine s).bind ?_
  refine (reads_PutStr isLine _ _).bind ?_
  exact (reads_peekLoop isLine 8 _ _).bind (reads_PutChar isLine 13 _)

theorem reads_report (isLine : Line closed line) {e : UInt8} (shows : e ≠ 0 → shown = true)
    (s : List UInt8) : Reads closed line start shown rounds (report signed rounds e) s () s := by
  rw [report]
  split
  · rename_i error
    obtain rfl := shows error
    exact reads_PutStr isLine _ s
  · exact .pure () s

/-- A poke without its numbers. -/
theorem reads_poke (isLine : Line closed line) {s : List UInt8} (none_ : poked 62 s = none) :
    Reads closed line start true rounds (poke signed rounds) s () (behind 62 s) := by
  rw [behind, if_neg (by decide), if_neg (by decide), if_neg (by decide), if_pos rfl]
  refine (reads_GetNum2Bytes isLine s).bind ?_
  split
  · rename_i address
    refine (reads_GetNum1Byte isLine _).bind ?_
    dsimp only
    split
    · rename_i value
      rw [poked, if_pos ⟨rfl, address, value⟩] at none_
      cases none_
    · exact reads_PutStr isLine _ _
  · exact reads_PutStr isLine _ _

/-- A command that does not poke leaves what is behind its arguments. -/
theorem reads_obey (isLine : Line closed line) (WizTicks : (Nat → UInt8) → UInt16) {cmd : UInt8}
    {s : List UInt8} (none_ : poked cmd s = none) (shows : prints cmd s = true → shown = true) :
    Reads closed line start shown rounds (obey signed WizTicks rounds cmd) s () (behind cmd s) := by
  have network (a b : UInt8) := @reads_DoNetwork closed line start shown rounds isLine WizTicks a b s
  by_cases setsAddress : cmd = 73
  · subst setsAddress
    refine (reads_setAddress isLine s).bind (reads_report isLine (fun error => shows ?_) _)
    rw [prints, if_pos (.inl rfl)]
    cases found : (numbers 4 s).1 with
    | false => rfl
    | true => exact absurd (if_pos found) error
  by_cases setsWaiter : cmd = 87
  · subst setsWaiter
    refine (reads_setWaiter isLine s).bind (reads_report isLine (fun error => shows ?_) _)
    rw [prints, if_pos (.inr rfl)]
    cases found : (numbers 4 s).1 with
    | false => rfl
    | true => exact absurd (if_pos found) error
  by_cases peeks : cmd = 60
  · subst peeks
    obtain rfl := shows rfl
    exact reads_peek isLine s
  by_cases networks : cmd = 65 ∨ cmd = 66 ∨ cmd = 67
  · rw [behind, if_neg setsAddress, if_neg setsWaiter, if_pos (by
      rcases networks with isA | isB | isC
      · exact .inl isA
      · exact .inr (.inl isB)
      · exact .inr (.inr (.inl isC)))]
    rcases networks with rfl | rfl | rfl
    · exact network 10 23
    · exact network 176 23
    · exact network 192 168
  by_cases pokes : cmd = 62
  · subst pokes
    have shown_ : prints 62 s = true := by
      rw [prints, if_neg (by decide), if_pos rfl, none_]
      rfl
    obtain rfl := shows shown_
    exact reads_poke isLine none_
  rw [not_or, not_or] at networks
  obtain ⟨notA, notB, notC⟩ := networks
  rw [behind, if_neg setsAddress, if_neg setsWaiter, if_neg (by simp only [notA, notB, notC, peeks,
    or_self, not_false_eq_true]), if_neg pokes, obey]
  rw [if_neg setsAddress, if_neg setsWaiter, if_neg notA, if_neg notB, if_neg notC, if_neg peeks,
    if_neg pokes]
  split
  · exact reads_assign isLine (.inl (by decide)) s
  rename_i notU
  split
  · exact reads_assign isLine (.inl (by decide)) s
  rename_i notD
  split
  · rename_i settings
    subst settings
    obtain rfl := shows rfl
    exact reads_ShowNetwork isLine s
  split
  · exact reads_assign isLine (.inl (by decide)) s
  rename_i notAt
  split
  · exact reads_assign isLine (.inr (by decide)) s
  rename_i notQ
  split
  · exact .pure () s
  rename_i notN
  split
  · exact .pure () s
  · rename_i notEnd
    rw [not_or] at notEnd
    have shown_ : prints cmd s = true := by
      rw [prints, if_neg (by simp only [setsAddress, setsWaiter, or_self, not_false_eq_true]),
        if_neg pokes]
      simp only [List.mem_cons, notU, notD, notA, notB, notC, notAt, notQ, notN, notEnd,
        List.not_mem_nil, or_self, not_false_eq_true, decide_true]
    obtain rfl := shows shown_
    exact reads_PutStr isLine help s

/-- A poke is carried out where the pointer is behind its arguments. -/
theorem obey_poked (isLine : Line closed line) (WizTicks : (Nat → UInt8) → UInt16) {cmd : UInt8}
    {s : List UInt8} {a : Nat} {b : UInt8} (pokes : poked cmd s = some (a, b))
    {memory : Nat → UInt8} (stands : Stands closed line start shown memory s) :
    (∃ last, obey signed WizTicks rounds cmd memory = (some (), store last a [b]) ∧
      Stands closed line start shown last (behind cmd s)) ∨
      (¬(closed = true ∧ 65536 < rounds) ∧
        (obey signed WizTicks rounds cmd memory).1 = none) := by
  rw [poked] at pokes
  split at pokes
  swap
  · cases pokes
  rename_i both
  obtain ⟨rfl, address, value⟩ := both
  cases pokes
  rw [behind, if_neg (by decide), if_neg (by decide), if_neg (by decide), if_pos rfl,
    if_pos address]
  show (∃ last, poke signed rounds memory = _ ∧ _) ∨ _ ∧ (poke signed rounds memory).1 = none
  rw [poke, bind_eq]
  rcases @reads_GetNum2Bytes closed line start shown rounds isLine s memory stands with
    ⟨next, done, stands'⟩ | ⟨partly, stops⟩
  swap
  · exact .inr ⟨partly, bind_of_none stops _⟩
  rw [done, after, if_pos address, bind_eq]
  rcases @reads_GetNum1Byte closed line start shown rounds isLine _ next stands' with
    ⟨last, done', stands''⟩ | ⟨partly, stops⟩
  swap
  · exact .inr ⟨partly, bind_of_none stops _⟩
  rw [done', after, if_pos value]
  exact .inl ⟨last, rfl, stands''⟩

/-- The echo looks at the line, and at nothing behind it. -/
theorem reads_echoLoop (isLine : Line closed line) {left : Nat} {passed s rest : List UInt8}
    (whole : line = passed ++ s) (enough : closed = true ∧ 65536 < rounds → s.length < left) :
    Reads closed line start true rounds (echoLoop signed rounds left (BUF + passed.length)) rest ()
      rest := by
  induction left generalizing passed s with
  | zero =>
    exact fun _ _ => .inr ⟨fun total => absurd (enough total) (Nat.not_lt_zero _), rfl⟩
  | succ left inductionHypothesis =>
    intro memory stands
    obtain ⟨-, -, -, holds⟩ := stands.before
    rw [echoLoop, bind_eq]
    cases s with
    | nil =>
      rw [List.append_nil] at whole
      rw [← whole, lineByte_nil isLine holds]
      cases closed with
      | true => exact .inl ⟨memory, rfl, stands⟩
      | false => exact .inr ⟨fun total => Bool.false_ne_true total.1, rfl⟩
    | cons c s =>
      rw [lineByte_cons isLine whole holds, after]
      split
      · have next := @inductionHypothesis (passed ++ [c]) s
          (by rw [List.append_assoc]; exact whole)
          fun total => Nat.lt_of_succ_lt_succ (enough total)
        rw [List.length_append] at next
        exact (reads_PutChar isLine c rest).bind next memory stands
      · exact .inl ⟨memory, rfl, stands⟩

theorem reads_echoLine (isLine : Line closed line) {echo : Bool} (shows : echo = true → shown = true)
    (s : List UInt8) : Reads closed line start shown rounds (echoLine signed rounds echo) s () s := by
  cases echo with
  | false => exact .pure () s
  | true =>
    obtain rfl := shows rfl
    refine (reads_PutChar isLine 91 s).bind ?_
    intro memory stands
    obtain ⟨passed, whole, place, -⟩ := stands.before
    have length := isLine.length_le
    rw [whole, List.length_append] at length
    have loop := @reads_echoLoop closed line start signed rounds isLine rounds passed s s whole
      fun total => by omega
    rw [← place] at loop
    exact (loop.bind ((reads_PutChar isLine 93 s).bind (reads_PutChar isLine 10 s))) memory stands

/-! ### A turn -/

theorem length_dropWhile_le (test : UInt8 → Bool) (s : List UInt8) :
    (s.dropWhile test).length ≤ s.length :=
  (List.dropWhile_sublist test).length_le

theorem length_number_le (s : List UInt8) : (number s).2.length ≤ s.length := by
  have skipped := length_dropWhile_le white s
  rw [number]
  split
  · exact Nat.zero_le _
  · rename_i c rest cons
    rw [cons, List.length_cons] at skipped
    split
    · have digits := length_dropWhile_le hexDigit rest
      dsimp only
      omega
    · have digits := length_dropWhile_le decimalDigit (c :: rest)
      rw [List.length_cons] at digits
      dsimp only
      omega

theorem length_numbers_le (count : Nat) (s : List UInt8) :
    (numbers count s).2.length ≤ s.length := by
  induction count generalizing s with
  | zero => exact Nat.le_refl _
  | succ count inductionHypothesis =>
    rw [numbers]
    split
    · exact (inductionHypothesis _).trans (length_number_le s)
    · exact length_number_le s

theorem length_behind_le (cmd : UInt8) (s : List UInt8) : (behind cmd s).length ≤ s.length := by
  have one := length_number_le
  have four := length_numbers_le 4
  rw [behind]
  split
  · split
    · split
      · exact (four _).trans ((one _).trans (four s))
      · exact (one _).trans (four s)
    · exact four s
  split
  · split
    · exact (one _).trans (four s)
    · exact four s
  split
  · exact one s
  split
  · split
    · exact (one _).trans (one s)
    · exact one s
  · exact Nat.le_refl _

theorem line_lineOf (memory : Nat → UInt8) :
    Line (decide (0 ∈ load memory BUF 80)) (lineOf memory) ∧
      Holds (decide (0 ∈ load memory BUF 80)) (lineOf memory) memory := by
  have noNul : 0 ∉ lineOf memory := fun member =>
    bne_iff_ne.mp (List.mem_takeWhile_imp (p := (· != 0)) member) rfl
  have whole : load memory BUF 80 =
      lineOf memory ++ (load memory BUF 80).dropWhile (· != 0) :=
    List.takeWhile_append_dropWhile.symm
  have length := length_load memory BUF 80
  have cells := whole
  rw [← length] at cells
  nth_rewrite 1 [whole] at cells
  obtain ⟨first, rest⟩ := load_passed cells
  cases shape : (load memory BUF 80).dropWhile (· != 0) with
  | nil =>
    rw [shape, List.append_nil] at whole
    have endless : decide (0 ∈ load memory BUF 80) = false := by
      rw [whole]
      exact decide_eq_false noNul
    rw [endless]
    refine ⟨⟨noNul, ?_⟩, ⟨first, fun closed => absurd closed Bool.false_ne_true⟩⟩
    rw [whole] at length
    exact length
  | cons c later =>
    rw [shape] at whole rest
    have nul : c = 0 := by
      have head := List.head?_dropWhile_not (fun c : UInt8 => c != 0) (load memory BUF 80)
      rw [shape] at head
      exact bne_eq_false_iff_eq.mp head
    have closed : decide (0 ∈ load memory BUF 80) = true := by
      rw [whole, nul]
      exact decide_eq_true (List.mem_append_right _ List.mem_cons_self)
    have byte : (load memory (BUF + (lineOf memory).length) (c :: later).length)[0]? =
        some (memory (BUF + (lineOf memory).length)) := getElem?_load memory _ (Nat.succ_pos _)
    rw [rest, nul] at byte
    rw [closed]
    refine ⟨⟨noNul, ?_⟩, ⟨first, fun _ => (Option.some.inj byte).symm⟩⟩
    rw [whole, List.length_append, List.length_cons] at length
    show (lineOf memory).length < 80
    omega

/-- The rest of the line from the pointer on. -/
theorem restOf_eq (isLine : Line closed line) {memory : Nat → UInt8} {s : List UInt8}
    (before : Before closed line memory s) : restOf memory = s := by
  obtain ⟨passed, whole, place, holds⟩ := before
  have cells := holds.cells
  have noNul := isLine.noNul
  have fits := isLine.fits
  have visible : ∀ c ∈ s, (c != 0) = true := by
    intro c member
    refine bne_iff_ne.mpr ?_
    rintro rfl
    exact noNul (whole ▸ List.mem_append_right _ member)
  rw [whole] at cells
  obtain ⟨-, rest⟩ := load_passed cells
  rw [restOf, place, show BUF + 80 - (BUF + passed.length) = 80 - passed.length by omega]
  cases closed with
  | true =>
    have short : line.length < 80 := fits
    have nul := holds.nul rfl
    rw [whole, List.length_append] at short nul
    obtain ⟨later, long⟩ : ∃ later, 80 - passed.length = s.length + (later + 1) :=
      ⟨79 - passed.length - s.length, by omega⟩
    rw [long, load_add, rest, load_succ, Nat.add_assoc, nul, List.takeWhile_append_of_pos visible]
    exact List.append_nil s
  | false =>
    have full : line.length = 80 := fits
    rw [whole, List.length_append] at full
    rw [show 80 - passed.length = s.length by omega, rest]
    exact List.takeWhile_eq_self_iff.mpr visible

/-- Where the pointer is in the line, it is before the rest of it. -/
theorem before_of_inside {memory : Nat → UInt8} (inside : Inside memory) :
    Before (decide (0 ∈ load memory BUF 80)) (lineOf memory) memory (restOf memory) := by
  obtain ⟨low, high, noNul⟩ := inside
  obtain ⟨passed, place⟩ := Nat.exists_eq_add_of_le low
  rw [place, Nat.add_sub_cancel_left] at noNul
  have visible : ∀ c ∈ load memory BUF passed, (c != 0) = true := by
    intro c member
    refine bne_iff_ne.mpr ?_
    rintro rfl
    exact noNul member
  refine ⟨load memory BUF passed, ?_, ?_, (line_lineOf memory).2⟩
  · rw [lineOf, restOf, place, show BUF + 80 - (BUF + passed) = 80 - passed by omega,
      show (80 : Nat) = passed + (80 - passed) by omega, load_add,
      List.takeWhile_append_of_pos visible, Nat.add_sub_cancel_left]
  · rw [length_load, place]

/-- The line is closed where there is a NUL among its 80 bytes. -/
theorem closed_iff (isLine : Line closed line) {memory : Nat → UInt8}
    (holds : Holds closed line memory) : 0 ∈ load memory BUF 80 ↔ closed = true := by
  have fits := isLine.fits
  cases closed with
  | true =>
    refine ⟨fun _ => rfl, fun _ => ?_⟩
    exact List.mem_map.mpr ⟨line.length, List.mem_range.mpr fits, holds.nul rfl⟩
  | false =>
    have cells := holds.cells
    rw [show line.length = 80 from fits] at cells
    rw [cells]
    exact ⟨fun nul => absurd nul isLine.noNul, fun closed => absurd closed Bool.false_ne_true⟩

theorem PTR_add_length {memory : Nat → UInt8} {s : List UInt8}
    (before : Before closed line memory s) : PTR memory + s.length = BUF + line.length := by
  obtain ⟨passed, whole, place, -⟩ := before
  rw [place, whole, List.length_append, Nat.add_assoc]

theorem wordBytes_wordAt (memory : Nat → UInt8) (a : Nat) :
    wordBytes (wordAt memory a) = [memory a, memory (a + 1)] := by
  have low := (memory (a + 1)).toNat_lt
  have high : ((memory a).toNat * 256 + (memory (a + 1)).toNat) / 256 = (memory a).toNat := by omega
  rw [wordBytes, wordAt, high, UInt8.ofNat_toNat, UInt8.ofNat_add, UInt8.ofNat_mul,
    UInt8.ofNat_toNat, UInt8.ofNat_toNat]
  refine congrArg (fun byte => [memory a, byte]) ?_
  show memory a * 0 + memory (a + 1) = memory (a + 1)
  rw [UInt8.mul_zero, UInt8.zero_add]

/-- A poke does the same to the line as in the memory behind the command. -/
theorem poke_same (isLine : Line closed line) {memory next : Nat → UInt8} {s rest : List UInt8}
    {cmd : UInt8} (command_ : command s = (cmd, rest)) (before : Before closed line memory s)
    (stands : Stands closed line memory shown next (behind cmd rest)) (a : Nat) (b : UInt8) {x : Nat}
    (low : line_ptr ≤ x) (high : x < BUF + 80) :
    store next a [b] x = store (behindCommand memory) a [b] x := by
  have place := PTR_add_length stands.before
  have place' := PTR_add_length before
  have pointer_ : PTR memory + (restOf memory).length -
      (behind (command (restOf memory)).1 (command (restOf memory)).2).length = PTR next := by
    rw [restOf_eq isLine before, command_]
    show PTR memory + s.length - (behind cmd rest).length = PTR next
    omega
  have same : next x = behindCommand memory x := by
    rw [behindCommand, pointer_, PTR, wordBytes_wordAt]
    by_cases inLine : BUF ≤ x
    · rw [store_apply_of_after memory (show line_ptr + 2 ≤ x from inLine)]
      exact stands.same x inLine high
    · have fields : BUF = line_ptr + 2 := rfl
      obtain rfl | rfl : x = line_ptr ∨ x = line_ptr + 1 := by omega
      · exact (@store_apply_of_lt _ memory line_ptr 0 [_, _] Nat.two_pos).symm
      · exact (@store_apply_of_lt _ memory line_ptr 1 [_, _] Nat.one_lt_two).symm
  by_cases poked_ : x = a
  · subst poked_
    exact (@store_apply_of_lt _ next x 0 [b] Nat.one_pos).trans
      (@store_apply_of_lt _ (behindCommand memory) x 0 [b] Nat.one_pos).symm
  · rcases Nat.lt_or_gt_of_ne poked_ with below | above
    · rw [store_apply_of_before _ _ below, store_apply_of_before _ _ below, same]
    · rw [store_apply_of_after _ (show a + 1 ≤ x from above),
        store_apply_of_after _ (show a + 1 ≤ x from above), same]

/-- What a turn of the loop leaves: the pointer is further on, before a command of a line that is
closed if it was, or behind the last one. The turn stops if it does not come to the end of the
line, or has not rounds enough. -/
def Turned (closed : Bool) (rounds : Nat) (memory : Nat → UInt8)
    (outcome : Option Bool × (Nat → UInt8)) : Prop :=
  (∃ line s next, outcome = (some (!s.isEmpty), next) ∧ Line closed line ∧
    Before closed line next s ∧ PTR memory < PTR next ∧ s.dropWhile white = s ∧
    (s = [] → closed = true)) ∨
  (¬(closed = true ∧ 65536 < rounds) ∧ outcome.1 = none)

/-- What is done behind a command. -/
theorem turned_skip (isLine : Line closed line) {memory start : Nat → UInt8} {s : List UInt8}
    (before : Before closed line memory s) (further : PTR start < PTR memory) :
    Turned closed rounds start ((do
      SkipWhite rounds
      let c ← pointer.look
      pure (c != 0) : Axiom Bool) memory) := by
  have stands : Stands closed line memory false memory s :=
    ⟨before, fun shows => absurd shows Bool.false_ne_true, fun _ _ _ => rfl⟩
  rcases @reads_SkipWhite closed line memory false rounds isLine s memory stands with
    ⟨next, done, stands'⟩ | ⟨partly, stops⟩
  swap
  · exact .inr ⟨partly, bind_of_none stops _⟩
  have place := PTR_add_length before
  have place' := PTR_add_length stands'.before
  have shorter := length_dropWhile_le white s
  have skipped : (s.dropWhile white).dropWhile white = s.dropWhile white :=
    List.dropWhile_idempotent white s
  rw [bind_eq, done, after, bind_eq]
  generalize s.dropWhile white = rest at stands' place' shorter skipped
  cases rest with
  | nil =>
    rw [(pointer_lawful isLine).look_nil stands', last]
    cases closed with
    | true =>
      exact .inl ⟨line, [], next, rfl, isLine, stands'.before, by omega, rfl, fun _ => rfl⟩
    | false => exact .inr ⟨fun total => Bool.false_ne_true total.1, rfl⟩
  | cons c rest =>
    have nonzero : (c != 0) = true := by
      obtain ⟨passed, whole, -⟩ := stands'.before
      refine bne_iff_ne.mpr ?_
      rintro rfl
      exact isLine.noNul (whole ▸ List.mem_append_right _ List.mem_cons_self)
    rw [(pointer_lawful isLine).look_cons stands', after, nonzero]
    exact .inl ⟨line, c :: rest, next, rfl, isLine, stands'.before, by omega, skipped,
      fun blank => absurd blank (List.cons_ne_nil c rest)⟩

/-- Behind a harmless poke the line may be another one. -/
theorem turned_poke (isLine : Line closed line) {memory next : Nat → UInt8} {s rest : List UInt8}
    {cmd b : UInt8} {a : Nat} (command_ : command s = (cmd, rest))
    (before : Before closed line memory s)
    (stands : Stands closed line memory shown next (behind cmd rest))
    (harmless : Harmless memory (a, b)) :
    Turned closed rounds memory ((do
      SkipWhite rounds
      let c ← pointer.look
      pure (c != 0) : Axiom Bool) (store next a [b])) := by
  have same {x : Nat} (low : line_ptr ≤ x) (high : x < BUF + 80) :=
    poke_same isLine command_ before stands a b low high
  have there : PTR (store next a [b]) = PTR (store (behindCommand memory) a [b]) :=
    wordAt_congr (same (Nat.le_refl _) (by decide)) (same (by decide) (by decide))
  have cells (count : Nat) (fits : count ≤ 80) :
      load (store next a [b]) BUF count = load (store (behindCommand memory) a [b]) BUF count :=
    load_congr fun i inside =>
      same ((by decide : line_ptr ≤ BUF).trans (Nat.le_add_right _ _)) (by omega)
  obtain ⟨⟨low, high, noNul⟩, further, nul⟩ := harmless
  rw [← there] at low high noNul further
  rw [← cells _ (by omega)] at noNul
  rw [← cells 80 (Nat.le_refl _)] at nul
  obtain ⟨-, -, -, holds⟩ := before
  have closed_ : decide (0 ∈ load (store next a [b]) BUF 80) = closed :=
    Bool.eq_iff_iff.mpr (decide_eq_true_iff.trans (nul.trans (closed_iff isLine holds)))
  have before' := before_of_inside ⟨low, high, noNul⟩
  have isLine' := (line_lineOf (store next a [b])).1
  rw [closed_] at before' isLine'
  exact turned_skip isLine' before' further

/-- The command at the pointer is looked up and obeyed. -/
theorem doOneCommand_cons (isLine : Line closed line) (WizTicks : (Nat → UInt8) → UInt16)
    {s rest : List UInt8} {cmd : UInt8} (first : s.dropWhile white = cmd :: rest)
    {memory : Nat → UInt8} (stands : Stands closed line start shown memory s) :
    (∃ next, DoOneCommand signed WizTicks rounds memory = obey signed WizTicks rounds cmd next ∧
      Stands closed line start shown next rest) ∨
      (¬(closed = true ∧ 65536 < rounds) ∧
        (DoOneCommand signed WizTicks rounds memory).1 = none) := by
  rcases @reads_SkipWhite closed line start shown rounds isLine s memory stands with
    ⟨next, done, stands'⟩ | ⟨partly, stops⟩
  · rw [first] at stands'
    refine .inl ⟨_, ?_, stands'.move isLine⟩
    rw [DoOneCommand, bind_eq, done, after, bind_eq, (pointer_lawful isLine).look_cons stands']
    rfl
  · exact .inr ⟨partly, bind_of_none stops _⟩

/-- A command is carried out, and what is behind it is skipped. -/
theorem turned_command (isLine : Line closed line) (WizTicks : (Nat → UInt8) → UInt16)
    {echo : Bool} {start memory : Nat → UInt8} {s rest : List UInt8} {cmd : UInt8}
    (first : s.dropWhile white = cmd :: rest) (spares : Spares echo start)
    (before : Before closed line start s)
    (stands : Stands closed line start (echo || prints cmd rest) memory s) :
    Turned closed rounds start ((do
      DoOneCommand signed WizTicks rounds
      SkipWhite rounds
      let c ← pointer.look
      pure (c != 0) : Axiom Bool) memory) := by
  have command_ : command s = (cmd, rest) := by
    rw [command, first]
  have harmless := spares.harmless
  rw [restOf_eq isLine before, command_] at harmless
  have place := PTR_add_length before
  have shorter := length_dropWhile_le white s
  have behind_ := length_behind_le cmd rest
  rw [first, List.length_cons] at shorter
  rcases @doOneCommand_cons closed line start _ signed rounds isLine WizTicks s rest cmd first memory
    stands with ⟨next, done, stands'⟩ | ⟨partly, stops⟩
  swap
  · exact .inr ⟨partly, bind_of_none stops _⟩
  rw [bind_eq, done]
  cases pokes : poked cmd rest with
  | none =>
    rcases @reads_obey closed line start _ signed rounds isLine WizTicks cmd rest pokes
      (fun shows => by rw [shows, Bool.or_true]) next stands' with
      ⟨last, done', stands''⟩ | ⟨partly, stops⟩
    · have place' := PTR_add_length stands''.before
      rw [done']
      exact turned_skip isLine stands''.before (by omega)
    · exact .inr ⟨partly, bind_of_none (m := obey signed WizTicks rounds cmd) stops _⟩
  | some poke =>
    obtain ⟨a, b⟩ := poke
    rcases @obey_poked closed line start _ signed rounds isLine WizTicks cmd rest a b pokes next
      stands' with ⟨last, done', stands''⟩ | ⟨partly, stops⟩
    · rw [done']
      exact turned_poke isLine command_ before stands'' (harmless (a, b) pokes)
    · exact .inr ⟨partly, bind_of_none (m := obey signed WizTicks rounds cmd) stops _⟩

/-- A turn ends at the pointer of the next command, unless there is none to begin with. -/
theorem turned_lineTurn (isLine : Line closed line) (WizTicks : (Nat → UInt8) → UInt16)
    {echo : Bool} {memory : Nat → UInt8} {s : List UInt8} (before : Before closed line memory s)
    (nonblank : s.dropWhile white ≠ [] ∨ closed = false) (spares : Spares echo memory) :
    Turned closed rounds memory (lineTurn signed WizTicks rounds echo memory) := by
  have screen := spares.screen
  rw [restOf_eq isLine before] at screen
  have stands : Stands closed line memory (echo || prints (command s).1 (command s).2) memory s :=
    ⟨before, screen, fun _ _ _ => rfl⟩
  rw [lineTurn, bind_eq]
  rcases @reads_echoLine closed line memory _ signed rounds isLine echo
    (fun echoes => by rw [echoes, Bool.true_or]) s memory stands with
    ⟨next, done, stands'⟩ | ⟨partly, stops⟩
  swap
  · exact .inr ⟨partly, bind_of_none stops _⟩
  rw [done, after]
  cases first : s.dropWhile white with
  | nil =>
    have endless : closed = false := nonblank.resolve_left fun some_ => some_ first
    have partly : ¬(closed = true ∧ 65536 < rounds) := fun total =>
      Bool.false_ne_true (endless.symm.trans total.1)
    refine .inr ⟨partly, bind_of_none ?_ _⟩
    rcases @reads_SkipWhite closed line memory _ rounds isLine s next stands' with
      ⟨last_, skipped, onward⟩ | ⟨-, stops⟩
    · rw [first] at onward
      rw [DoOneCommand, bind_eq, skipped, after]
      refine bind_of_none ?_ _
      rw [(pointer_lawful isLine).look_nil onward, last, endless]
      rfl
    · exact bind_of_none stops _
  | cons cmd rest =>
    have command_ : command s = (cmd, rest) := by
      rw [command, first]
    rw [command_] at stands'
    exact turned_command isLine WizTicks first spares before stands'

/-- A program ends: it returns if it is total, and it does not if the line has no end. -/
def Ends (closed : Bool) (rounds : Nat) (outcome : Option Unit × (Nat → UInt8)) : Prop :=
  (closed = true ∧ 65536 < rounds → outcome.1.isSome = true) ∧
    (outcome.1.isSome = true → closed = true)

theorem ends_of_none {outcome : Option Unit × (Nat → UInt8)}
    (partly : ¬(closed = true ∧ 65536 < rounds)) (none_ : outcome.1 = none) :
    Ends closed rounds outcome := by
  refine ⟨fun total => absurd total partly, fun returns => ?_⟩
  rw [none_] at returns
  cases returns

/-- The commands of a line end, if there is one to begin with and all of them spare the line. -/
theorem lineLoop_ends {WizTicks : (Nat → UInt8) → UInt16} {echo : Bool}
    (spares : ∀ turn, AtTurn signed WizTicks rounds echo start turn → Spares echo turn)
    {left : Nat} {memory : Nat → UInt8} {s : List UInt8} (isLine : Line closed line)
    (before : Before closed line memory s)
    (nonblank : s.dropWhile white ≠ [] ∨ closed = false)
    (enough : closed = true ∧ 65536 < rounds → BUF + 80 - PTR memory < left)
    (reached : AtTurn signed WizTicks rounds echo start memory) :
    Ends closed rounds (lineLoop signed WizTicks rounds echo left memory) := by
  induction left generalizing memory line s with
  | zero => exact ends_of_none (fun total => absurd (enough total) (Nat.not_lt_zero _)) rfl
  | succ left inductionHypothesis =>
    rw [lineLoop, bind_eq]
    rcases @turned_lineTurn closed line signed rounds isLine WizTicks echo memory s before nonblank
      (spares memory reached) with
      ⟨line', s', next, done, isLine', before', further, visible, closed_⟩ | ⟨partly, stops⟩
    swap
    · exact ends_of_none partly (bind_of_none stops _)
    rw [done]
    cases s' with
    | nil =>
      have closed_ := closed_ rfl
      exact ⟨fun _ => rfl, fun _ => closed_⟩
    | cons c rest =>
      have place := PTR_add_length before'
      have length := isLine'.length_le
      rw [List.length_cons] at place
      refine inductionHypothesis isLine' before' (.inl ?_) (fun total => ?_) (reached.next done)
      · rw [visible]
        exact List.cons_ne_nil c rest
      · have more := enough total
        omega

end

/-- On a blank line the first command is the NUL, and the pointer goes over it. -/
theorem lineLoop_blank {line : List UInt8} (isLine : Line true line)
    (blank : line.dropWhile white = []) (WizTicks : (Nat → UInt8) → UInt16) (signed : Bool)
    (rounds : Nat) {echo : Bool} (left : Nat) {memory : Nat → UInt8}
    (before : Before true line memory line) (spares : Spares echo memory) :
    (lineLoop signed WizTicks rounds echo left memory).1 = none := by
  have screen := spares.screen
  rw [restOf_eq isLine before] at screen
  have stands : Stands true line memory (echo || prints (command line).1 (command line).2) memory
      line := ⟨before, screen, fun _ _ _ => rfl⟩
  cases left with
  | zero => rfl
  | succ left =>
    rw [lineLoop]
    refine bind_of_none ?_ _
    rw [lineTurn, bind_eq]
    rcases @reads_echoLine true line memory _ signed rounds isLine echo
      (fun echoes => by rw [echoes, Bool.true_or]) line memory stands with
      ⟨memory, echoed, stands⟩ | ⟨-, stops⟩
    swap
    · exact bind_of_none stops _
    rw [echoed, after]
    rcases @reads_SkipWhite true line _ _ rounds isLine line memory stands with
      ⟨next, skipped, onward⟩ | ⟨-, stops⟩
    swap
    · exact bind_of_none (bind_of_none stops _) _
    rw [blank] at onward
    have looks := (pointer_lawful isLine).look_nil onward
    have command_ : DoOneCommand signed WizTicks rounds memory =
        (some (), store next line_ptr (wordBytes (PTR next + 1))) := by
      rw [DoOneCommand, bind_eq, skipped, after, bind_eq, looks]
      rfl
    rw [bind_eq, command_, after]
    refine bind_of_none ?_ _
    obtain ⟨passed, whole, place, holds⟩ := onward.before
    rw [List.append_nil] at whole
    have fits : line.length < 80 := isLine.fits
    have word : PTR next + 1 < 65536 := by
      rw [place, ← whole, BUF, CASBUF]
      omega
    have over_ : PTR (store next line_ptr (wordBytes (PTR next + 1))) = BUF + line.length + 1 := by
      rw [PTR, wordAt_store word, place, whole]
    cases rounds with
    | zero => rfl
    | succ rounds =>
      refine bind_of_none ?_ _
      show (lineByte (PTR _) _).1 = none
      rw [over_, lineByte]
      refine if_neg fun inside => inside.2.2 ?_
      have nul := (holds.move (PTR next + 1)).nul rfl
      refine List.mem_map.mpr ⟨line.length, List.mem_range.mpr ?_, nul⟩
      omega

/-! ### The line in memory -/

/-- The first thing that is done puts the pointer before the line. -/
theorem before_lineOf (memory : Nat → UInt8) :
    Before (decide (0 ∈ load memory BUF 80)) (lineOf memory)
      (store memory line_ptr (wordBytes BUF)) (lineOf memory) :=
  ⟨[], rfl, wordAt_store (by decide) memory line_ptr, (line_lineOf memory).2.move BUF⟩

section

variable {signed : Bool} {WizTicks : (Nat → UInt8) → UInt16} {rounds : Nat} {echo : Bool}
variable {memory : Nat → UInt8}

theorem doLineBufCommands_ends
    (nonblank : (lineOf memory).dropWhile white ≠ [] ∨ 0 ∉ load memory BUF 80)
    (spares : ∀ turn, AtTurn signed WizTicks rounds echo memory turn → Spares echo turn) :
    Ends (decide (0 ∈ load memory BUF 80)) rounds
      (DoLineBufCommands signed WizTicks rounds echo memory) := by
  have start : PTR (store memory line_ptr (wordBytes BUF)) = BUF :=
    wordAt_store (by decide) memory line_ptr
  refine lineLoop_ends spares (line_lineOf memory).1 (before_lineOf memory)
    (nonblank.imp_right decide_eq_false) (fun total => ?_) .first
  rw [start]
  omega

theorem doLineBufCommands_blank (nul : 0 ∈ load memory BUF 80)
    (blank : (lineOf memory).dropWhile white = [])
    (spares : Spares echo (store memory line_ptr (wordBytes BUF))) :
    (DoLineBufCommands signed WizTicks rounds echo memory).1 = none := by
  have isLine := (line_lineOf memory).1
  have before := before_lineOf memory
  rw [decide_eq_true nul] at isLine before
  exact lineLoop_blank isLine blank WizTicks signed rounds rounds before spares

end

/-- The last byte of the line is never typed. -/
theorem keyLoop_last {keys : List UInt8} {p : Nat} {memory memory' : Nat → UInt8}
    (low : BUF ≤ p) (high : p ≤ BUF + 78) (nul : memory (BUF + 79) = 0)
    (typed : keyLoop keys p memory = some memory') : memory' (BUF + 79) = 0 := by
  induction keys generalizing p memory with
  | nil => cases typed
  | cons ch keys inductionHypothesis =>
    have kept (a : Nat) (c : UInt8) (below : a < BUF + 79) :
        store memory a [c] (BUF + 79) = 0 := by
      rw [store_apply_of_after memory (by rw [List.length_singleton]; omega)]
      exact nul
    rw [keyLoop] at typed
    split at typed
    · cases typed
      exact nul
    split at typed
    · split at typed
      · exact inductionHypothesis (by omega) (by omega) (kept _ _ (by omega)) typed
      · exact inductionHypothesis low high nul typed
    split at typed
    · exact inductionHypothesis low high nul typed
    split at typed
    · exact inductionHypothesis low high nul typed
    dsimp only at typed
    split at typed
    · exact inductionHypothesis (by omega) (by omega) (kept _ _ (by omega)) typed
    · exact inductionHypothesis low high nul typed

/-- Every typed line has its NUL. -/
theorem nul_of_typed {initialChar : UInt8} {keys : List UInt8} {memory memory' : Nat → UInt8}
    (typed : GetUpperCaseLine initialChar keys memory = some memory') :
    0 ∈ load memory' BUF 80 := by
  have cleared : store memory BUF (List.replicate 80 0) (BUF + 79) = 0 := by
    rw [store_apply_of_lt memory (by rw [List.length_replicate]; decide), List.getElem_replicate]
  have last : memory' (BUF + 79) = 0 := by
    rw [GetUpperCaseLine] at typed
    split at typed
    · refine keyLoop_last (Nat.le_add_right _ _) (by decide) ?_ typed
      rw [store_apply_of_after _ (show BUF + 1 ≤ BUF + 79 by decide)]
      exact cleared
    · exact keyLoop_last (Nat.le_refl _) (by decide) cleared typed
  exact List.mem_map.mpr ⟨79, List.mem_range.mpr (by decide), last⟩

/-! ### Numbers as they are written -/

def digitValue (c : UInt8) : Nat := if c ≤ 57 then c.toNat - 48 else c.toNat - 55

def valueOf (base : Nat) (digits : List UInt8) : Nat :=
  digits.foldl (fun x c => x * base + digitValue c) 0

/-- Separators, a number with as many digits as there are, whether it has any, its value as a word,
and what is behind it. -/
inductive OneNumber : List UInt8 → Bool × UInt16 → List UInt8 → Prop
  | decimal {separators digits rest : List UInt8} : (∀ c ∈ separators, white c = true) →
      (∀ c ∈ digits, decimalDigit c = true) → (∀ c ∈ rest.head?, decimalDigit c = false) →
      (∀ c ∈ (digits ++ rest).head?, white c = false ∧ c ≠ 36) →
      OneNumber (separators ++ (digits ++ rest))
        (!digits.isEmpty, UInt16.ofNat (valueOf 10 digits)) rest
  | hex {separators digits rest : List UInt8} : (∀ c ∈ separators, white c = true) →
      (∀ c ∈ digits, hexDigit c = true) → (∀ c ∈ rest.head?, hexDigit c = false) →
      OneNumber (separators ++ 36 :: (digits ++ rest))
        (!digits.isEmpty, UInt16.ofNat (valueOf 16 digits)) rest

theorem foldl_step {step : Bool × UInt16 → UInt8 → Bool × UInt16} {base : Nat}
    {digits : List UInt8}
    (steps : ∀ c ∈ digits, ∀ got n, step (got, UInt16.ofNat n) c =
      (true, UInt16.ofNat (n * base + digitValue c))) (got : Bool) (n : Nat) :
    digits.foldl step (got, UInt16.ofNat n) =
      (got || !digits.isEmpty,
        UInt16.ofNat (digits.foldl (fun x c => x * base + digitValue c) n)) := by
  induction digits generalizing got n with
  | nil =>
    rw [List.isEmpty_nil, Bool.not_true, Bool.or_false]
    rfl
  | cons c digits inductionHypothesis =>
    rw [List.foldl_cons, steps c List.mem_cons_self, inductionHypothesis fun c member =>
      steps c (List.mem_cons_of_mem _ member)]
    rw [Bool.true_or, List.isEmpty_cons, Bool.not_false, Bool.or_true]
    rfl

theorem toUInt16_sub {c d : UInt8} (above : d ≤ c) :
    c.toUInt16 - d.toUInt16 = UInt16.ofNat (c.toNat - d.toNat) := by
  have byte := c.toNat_lt
  have above' := UInt8.le_iff_toNat_le.mp above
  refine UInt16.toNat_inj.mp ?_
  rw [UInt16.toNat_sub_of_le, UInt8.toNat_toUInt16, UInt8.toNat_toUInt16, UInt16.toNat_ofNat']
  · omega
  · rw [UInt16.le_iff_toNat_le, UInt8.toNat_toUInt16, UInt8.toNat_toUInt16]
    exact above'

theorem decimalStep_digit {c : UInt8} (digit : decimalDigit c = true) (got : Bool) (n : Nat) :
    decimalStep (got, UInt16.ofNat n) c = (true, UInt16.ofNat (n * 10 + digitValue c)) := by
  rw [decimalDigit, Bool.and_eq_true, decide_eq_true_eq, decide_eq_true_eq] at digit
  have value : c.toUInt16 - 48 = UInt16.ofNat (c.toNat - 48) := toUInt16_sub digit.1
  rw [decimalStep, digitValue, if_pos digit.2, value, UInt16.ofNat_add, UInt16.ofNat_mul]
  rfl

theorem hexStep_digit {c : UInt8} (digit : hexDigit c = true) (got : Bool) (n : Nat) :
    hexStep (got, UInt16.ofNat n) c = (true, UInt16.ofNat (n * 16 + digitValue c)) := by
  rw [hexDigit, Bool.or_eq_true, decimalDigit, Bool.and_eq_true, Bool.and_eq_true,
    decide_eq_true_eq, decide_eq_true_eq, decide_eq_true_eq, decide_eq_true_eq] at digit
  rw [hexStep, digitValue]
  split
  · rename_i low
    have above : 48 ≤ c := by
      rcases digit with decimal | letter
      · exact decimal.1
      · exact absurd (UInt8.le_trans letter.1 low) (by decide)
    have value : c.toUInt16 - 48 = UInt16.ofNat (c.toNat - 48) := toUInt16_sub above
    rw [value, UInt16.ofNat_add, UInt16.ofNat_mul]
    rfl
  · rename_i high
    have letter := digit.resolve_left fun decimal => high decimal.2
    have value : c.toUInt16 - 65 = UInt16.ofNat (c.toNat - 65) := toUInt16_sub letter.1
    have above := UInt8.le_iff_toNat_le.mp letter.1
    have same : c.toNat - 55 = c.toNat - 65 + 10 := by
      have low : 65 ≤ c.toNat := above
      omega
    rw [value, same, UInt16.ofNat_add, UInt16.ofNat_mul, UInt16.ofNat_add]
    rfl

theorem stops_dropWhile (test : UInt8 → Bool) (s : List UInt8) :
    ∀ c ∈ (s.dropWhile test).head?, test c = false := by
  intro c first
  have head := List.head?_dropWhile_not test s
  rw [Option.mem_def.mp first] at head
  exact head

/-- What is read as one number is one. -/
theorem oneNumber_number (s : List UInt8) : OneNumber s (number s).1 (number s).2 := by
  have separated := (List.takeWhile_append_dropWhile (p := white) (l := s)).symm
  have separators : ∀ c ∈ s.takeWhile white, white c = true :=
    fun c member => List.mem_takeWhile_imp member
  have visible := stops_dropWhile white s
  rw [number]
  generalize s.takeWhile white = front at separated separators
  generalize s.dropWhile white = text at separated visible
  subst separated
  cases text with
  | nil =>
    exact @OneNumber.decimal front [] [] separators (fun c member => absurd member List.not_mem_nil)
      (fun c first => by cases first) (fun c first => by cases first)
  | cons c rest =>
    dsimp only
    split
    · rename_i dollar
      subst dollar
      have digits : ∀ c ∈ rest.takeWhile hexDigit, hexDigit c = true :=
        fun c member => List.mem_takeWhile_imp member
      have value := foldl_step (fun c member => hexStep_digit (digits c member)) false 0
      have one := @OneNumber.hex front (rest.takeWhile hexDigit) (rest.dropWhile hexDigit)
        separators digits (stops_dropWhile hexDigit rest)
      rw [List.takeWhile_append_dropWhile] at one
      exact value ▸ one
    · rename_i plain
      have digits : ∀ d ∈ (c :: rest).takeWhile decimalDigit, decimalDigit d = true :=
        fun d member => List.mem_takeWhile_imp member
      have value := foldl_step (fun d member => decimalStep_digit (digits d member)) false 0
      have one := @OneNumber.decimal front ((c :: rest).takeWhile decimalDigit)
        ((c :: rest).dropWhile decimalDigit) separators digits
        (stops_dropWhile decimalDigit (c :: rest)) (by
          rw [List.takeWhile_append_dropWhile]
          intro d first
          obtain rfl := Option.some.inj first
          exact ⟨visible _ rfl, plain⟩)
      rw [List.takeWhile_append_dropWhile] at one
      exact value ▸ one

/-! ### The command line -/

/-- The line `>$221 62 A 5`, which pokes its own first character, where it is already, and then sets
up a network. -/
def networkLine : Nat → UInt8 := store (fun _ => 0) BUF (ascii ">$221 62 A 5")

/-- The network is set up in the second turn. -/
def networkTurn : Nat → UInt8 :=
  (lineTurn true (fun _ => 0) 65537 false (store networkLine line_ptr (wordBytes BUF))).2

theorem networkLine_spares {turn : Nat → UInt8}
    (reached : AtTurn true (fun _ => 0) 65537 false networkLine turn) : Spares false turn := by
  have turns : turn = store networkLine line_ptr (wordBytes BUF) ∨ turn = networkTurn := by
    induction reached with
    | first => exact .inl rfl
    | next reached more inductionHypothesis =>
      rcases inductionHypothesis with rfl | rfl
      · rw [networkTurn, more]
        exact .inr rfl
      · have last_ : (lineTurn true (fun _ => 0) 65537 false networkTurn).1 = some false := by
          decide +kernel
        rw [more] at last_
        cases last_
  rcases turns with rfl | rfl
  · refine ⟨fun shows => absurd shows (by decide +kernel), fun poke pokes => ?_⟩
    have itself : poked (command (restOf (store networkLine line_ptr (wordBytes BUF)))).1
        (command (restOf (store networkLine line_ptr (wordBytes BUF)))).2 = some (BUF, 62) := by
      decide +kernel
    obtain rfl := Option.some.inj (itself.symm.trans pokes)
    unfold Harmless Inside
    decide +kernel
  · refine ⟨fun shows => absurd shows (by decide +kernel), fun poke pokes => ?_⟩
    have none_ : poked (command (restOf networkTurn)).1 (command (restOf networkTurn)).2 = none := by
      decide +kernel
    rw [none_] at pokes
    cases pokes

end Frobio.CommandLine
