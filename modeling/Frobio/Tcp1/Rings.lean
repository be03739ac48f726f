/-
This file models the routines in assembly that read from and write to the rings of socket 1:
`Tcp1Read` of `drivers/boot_lemma.asm`, and `Tcp1Read` and `Tcp1Write` of
`hdbdos/lemma_hdb.asm`. They differ in the number that the end of a piece is compared with, and in
whether the loop that copies tests its counter first.

The chip may go on between any two bytes that the program reads from it or writes to it, and so
between the two bytes of a size. A size that is read in two halves is never too big, as it only
grows while the program waits.
-/

import Frobio.Coms.Quint
import Frobio.Axcore.Streams

namespace Frobio.Tcp1

open Coms Memory Frobio.Ring Loop Axcore

/-! ### Registers -/

def S1_RX_BUF : Nat := 0x6800
def S1_TX_BUF : Nat := 0x4800
def SKBUFSIZE : Nat := 0x800
def SKBUFMASK : Nat := 0x7FF

def sock1 : Sock := ⟨S1_TX_BUF, S1_RX_BUF⟩

/-- The addresses of the CoCo are a ring of 64K. -/
def SPACE : Nat := 65536

structure Machine where
  world : World
  ram : Nat → UInt8

/-- A word as a signed number. -/
def signed (d : Nat) : Int := if d < 32768 then d else (d : Int) - 65536

section

variable (schedule : Nat → List Event)

/-- Turn to the chip for one byte. -/
def turn (w : World) : World := access sock1 schedule w

/-- The two bytes of a register. -/
def get2 (register : Chip → Nat) (w : World) : Nat × World :=
  let w₁ := turn schedule w
  let w₂ := turn schedule w₁
  (hiLo (hi (register w₁.chip)) (lo (register w₂.chip)), w₂)

/-- Put the two bytes of the register `S1_RX_RD0`. -/
def putRxRd (d : Nat) (w : World) : World :=
  let w := turn schedule w
  let w := { w with chip := { w.chip with rxRd := hiLo (hi d) (lo w.chip.rxRd) } }
  let w := turn schedule w
  { w with chip := { w.chip with rxRd := hiLo (hi w.chip.rxRd) (lo d) } }

/-- Put the two bytes of the register `S1_TX_WR0`. -/
def putTxWr (d : Nat) (w : World) : World :=
  let w := turn schedule w
  let w := { w with chip := { w.chip with txWr := hiLo (hi d) (lo w.chip.txWr) } }
  let w := turn schedule w
  { w with chip := { w.chip with txWr := hiLo (hi w.chip.txWr) (lo d) } }

/-- The command RECV. -/
def commandRecv (w : World) : World :=
  let w := turn schedule w
  { w with chip := { w.chip with rxStart := w.chip.rxRd } }

/-- The command SEND. -/
def commandSend (w : World) : World :=
  let w := turn schedule w
  { w with chip := { w.chip with txEnd := w.chip.txWr } }

/-- Loop until the size is at least `len`. -/
def waitSize (size : Chip → Nat) (len : Nat) : Nat → World → Option World
  | 0, _ => none
  | rounds + 1, w =>
    let (d, w) := get2 schedule size w
    if d < len then waitSize size len rounds w else some w

/-- Read so many bytes of the chip from `wiz` on, one by one, and store them from `x` on. -/
def copyIn : Nat → Nat → Nat → Machine → Machine
  | 0, _, _, m => m
  | count + 1, wiz, x, m =>
    let w := turn schedule m.world
    copyIn count (wiz + 1) ((x + 1) % SPACE) ⟨w, store m.ram x [w.chip.memory wiz]⟩

/-- Write so many bytes from `x` on to the chip from `wiz` on, one by one. -/
def copyOut : Nat → Nat → Nat → Machine → Machine
  | 0, _, _, m => m
  | count + 1, wiz, x, m =>
    let w := turn schedule m.world
    let w := { w with chip := { w.chip with memory := store w.chip.memory wiz [m.ram x] } }
    copyOut count (wiz + 1) ((x + 1) % SPACE) ⟨w, m.ram⟩

/-! ### The routines -/

/-- A way to copy a run of a ring. -/
structure Way where
  /-- If offset and length are more than this together, the run is copied in two pieces. -/
  last : Nat
  /-- How many bytes are copied if the counter starts at `y`. -/
  copied : Nat → Nat

/-- Copy `y` bytes, in one piece or in two: `copy` is given how many, from which offset of the
ring, and behind how many bytes of the program's. -/
def Way.pieces (way : Way) (copy : Nat → Nat → Nat → Machine → Machine) (xoffset y : Nat)
    (m : Machine) : Machine :=
  if signed ((xoffset + y) % 65536) ≤ way.last then copy (way.copied y) xoffset 0 m
  else
    let chunklen := SKBUFSIZE - xoffset
    let first := way.copied chunklen
    copy (way.copied ((y + 65536 - chunklen) % 65536)) 0 first (copy first xoffset 0 m)

/-- Copy `y` bytes from the receive ring. -/
def copyRunIn (way : Way) (x y : Nat) (m : Machine) : Machine :=
  let (xptr, w) := get2 schedule Chip.rxRd m.world
  way.pieces (fun count offset behind =>
    copyIn schedule count (S1_RX_BUF + offset) ((x + behind) % SPACE)) (xptr % SKBUFSIZE) y
    ⟨w, m.ram⟩

/-- Increment the read pointer, and command the chip that we received. -/
def advanceRead (y : Nat) (m : Machine) : Machine :=
  let (xptr, w) := get2 schedule Chip.rxRd m.world
  ⟨commandRecv schedule (putRxRd schedule ((xptr + y) % 65536) w), m.ram⟩

def tcp1Read (way : Way) (rounds : Nat) (m : Machine) (x y : Nat) : Option Machine :=
  (waitSize schedule Chip.rxRsr y rounds m.world).map fun w =>
    advanceRead schedule y (copyRunIn schedule way x y ⟨w, m.ram⟩)

/-- Copy `y` bytes to the transmit ring. -/
def copyRunOut (way : Way) (x y : Nat) (m : Machine) : Machine :=
  let (xptr, w) := get2 schedule Chip.txWr m.world
  way.pieces (fun count offset behind =>
    copyOut schedule count (S1_TX_BUF + offset) ((x + behind) % SPACE)) (xptr % SKBUFSIZE) y
    ⟨w, m.ram⟩

/-- Increment the write pointer, and command the chip to send. -/
def advanceWrite (y : Nat) (m : Machine) : Machine :=
  let (xptr, w) := get2 schedule Chip.txWr m.world
  ⟨commandSend schedule (putTxWr schedule ((xptr + y) % 65536) w), m.ram⟩

def tcp1Write (way : Way) (rounds : Nat) (m : Machine) (x y : Nat) : Option Machine :=
  (waitSize schedule Chip.txFsr y rounds m.world).map fun w =>
    advanceWrite schedule y (copyRunOut schedule way x y ⟨w, m.ram⟩)

end

/-- The loop of `boot_lemma.asm` tests its counter first. -/
def bootWay : Way := ⟨SKBUFMASK, fun y => y⟩

/-- The loops of `lemma_hdb.asm` test their counter last. -/
def hdbWay : Way := ⟨SKBUFSIZE, fun y => if y = 0 then 65536 else y⟩

/-- The way copies every run of the ring that is not empty. -/
structure Way.Exact (way : Way) : Prop where
  once : ∀ xoffset y, xoffset < SKBUFSIZE → 0 < y → xoffset + y ≤ way.last →
    xoffset + y ≤ SKBUFSIZE ∧ way.copied y = y
  twice : ∀ xoffset y, xoffset < SKBUFSIZE → way.last < xoffset + y →
    SKBUFSIZE ≤ xoffset + y ∧ way.copied (SKBUFSIZE - xoffset) = SKBUFSIZE - xoffset ∧
      way.copied (y - (SKBUFSIZE - xoffset)) = y - (SKBUFSIZE - xoffset)
  small : way.last ≤ SKBUFSIZE

theorem exact_bootWay : bootWay.Exact where
  once xoffset y inside _ together := by
    simp only [bootWay, SKBUFMASK, SKBUFSIZE] at *
    exact ⟨by omega, trivial⟩
  twice xoffset y inside together := by
    simp only [bootWay, SKBUFMASK, SKBUFSIZE] at *
    exact ⟨by omega, trivial, trivial⟩
  small := by decide

theorem exact_hdbWay : hdbWay.Exact where
  once xoffset y _ positive together := ⟨together, if_neg (Nat.ne_of_gt positive)⟩
  twice xoffset y inside together := by
    have some : SKBUFSIZE - xoffset ≠ 0 := by omega
    have more : y - (SKBUFSIZE - xoffset) ≠ 0 := by
      simp only [hdbWay, SKBUFSIZE] at *
      omega
    exact ⟨Nat.le_of_lt together, if_neg some, if_neg more⟩
  small := Nat.le_refl _

section

variable {schedule : Nat → List Event} {w w' : World} {m m' : Machine} {c c' : Chip}

/-! ### Sizes and pointers -/

theorem apart_sock1 : sock1.Apart := by decide

theorem passes_turn (schedule : Nat → List Event) (sane : Sane w.chip) :
    Passes sock1 w.chip (turn schedule w).chip :=
  passes_access schedule apart_sock1 sane

theorem passes_get2 (schedule : Nat → List Event) (register : Chip → Nat) (sane : Sane w.chip) :
    Passes sock1 w.chip (get2 schedule register w).2.chip := by
  have first := passes_turn schedule sane
  exact first.trans (passes_turn schedule first.sane)

/-- A size that grows is not read as more than it is. -/
theorem hiLo_le_of_le {first second : Nat} (grows : first ≤ second) :
    hiLo (hi first) (lo second) ≤ second := by
  simp only [hiLo, hi, lo, UInt8.toNat_ofNat']
  omega

theorem get2_of_kept {register : Chip → Nat} (kept : ∀ c c', Passes sock1 c c' →
    register c' = register c) (sane : Sane w.chip) (small : register w.chip < 65536) :
    (get2 schedule register w).1 = register w.chip := by
  have first := passes_turn schedule sane
  have second := passes_turn schedule first.sane
  rw [get2]
  dsimp only
  rw [kept _ _ second, kept _ _ first, hiLo_hi_lo, Nat.mod_eq_of_lt small]

theorem passes_waitSize {size : Chip → Nat} (grows : ∀ c c', Passes sock1 c c' → size c ≤ size c')
    {len rounds : Nat} (sane : Sane w.chip) (waited : waitSize schedule size len rounds w = some w') :
    Passes sock1 w.chip w'.chip ∧ len ≤ size w'.chip := by
  induction rounds generalizing w with
  | zero => cases waited
  | succ rounds inductionHypothesis =>
    rw [waitSize] at waited
    have passes := passes_get2 schedule size sane
    dsimp only at waited
    split at waited
    · obtain ⟨later, enough⟩ := inductionHypothesis passes.sane waited
      exact ⟨passes.trans later, enough⟩
    · rename_i enough
      cases waited
      have first := passes_turn schedule sane
      have second := passes_turn schedule first.sane
      refine ⟨passes, (Nat.not_lt.mp enough).trans ?_⟩
      exact hiLo_le_of_le (grows _ _ second)

theorem txFsr_le (passes : Passes sock1 c c') : c.txFsr ≤ c'.txFsr :=
  Nat.sub_le_sub_left passes.waiting _

/-- The program's pointers do not matter to what the chip does. -/
theorem passes_of_pointers (passes : Passes sock1 c c') (rxRd txWr : Nat) :
    Passes sock1 { c with rxRd := rxRd, txWr := txWr } { c' with rxRd := rxRd, txWr := txWr } :=
  ⟨⟨passes.sane.txEnd, passes.sane.txRd, passes.sane.rxStart, passes.sane.rxWr,
    passes.sane.waiting, passes.sane.rxRsr⟩, rfl, passes.txEnd, rfl, passes.rxStart,
    passes.waiting, passes.rxRsr, passes.outStream, passes.inStream, passes.free⟩

theorem sane_of_pointers (sane : Sane c) (rxRd txWr : Nat) :
    Sane { c with rxRd := rxRd, txWr := txWr } :=
  ⟨sane.txEnd, sane.txRd, sane.rxStart, sane.rxWr, sane.waiting, sane.rxRsr⟩

theorem passes_putRxRd (schedule : Nat → List Event) (sane : Sane w.chip) {d : Nat}
    (small : d < 65536) :
    Passes sock1 { w.chip with rxRd := d } (putRxRd schedule d w).chip := by
  have first := passes_turn schedule sane
  rw [putRxRd]
  dsimp only
  generalize turn schedule w = w₁ at first
  have second := passes_turn schedule
    (w := ⟨{ w₁.chip with rxRd := hiLo (hi d) (lo w₁.chip.rxRd) }, w₁.turns⟩)
    (sane_of_pointers first.sane _ w₁.chip.txWr)
  generalize turn schedule _ = w₂ at second ⊢
  have value : hiLo (hi w₂.chip.rxRd) (lo d) = d := by
    rw [second.rxRd]
    dsimp only
    rw [hi_hiLo, hiLo_hi_lo, Nat.mod_eq_of_lt small]
  rw [value]
  have same : w₂.chip.txWr = w.chip.txWr := second.txWr.trans first.txWr
  have both := (passes_of_pointers first d w.chip.txWr).trans
    (passes_of_pointers second d w.chip.txWr)
  rw [← same] at both
  rw [← same]
  exact both

theorem passes_putTxWr (schedule : Nat → List Event) (sane : Sane w.chip) {d : Nat}
    (small : d < 65536) :
    Passes sock1 { w.chip with txWr := d } (putTxWr schedule d w).chip := by
  have first := passes_turn schedule sane
  rw [putTxWr]
  dsimp only
  generalize turn schedule w = w₁ at first
  have second := passes_turn schedule
    (w := ⟨{ w₁.chip with txWr := hiLo (hi d) (lo w₁.chip.txWr) }, w₁.turns⟩)
    (sane_of_pointers first.sane w₁.chip.rxRd _)
  generalize turn schedule _ = w₂ at second ⊢
  have value : hiLo (hi w₂.chip.txWr) (lo d) = d := by
    rw [second.txWr]
    dsimp only
    rw [hi_hiLo, hiLo_hi_lo, Nat.mod_eq_of_lt small]
  rw [value]
  have same : w₂.chip.rxRd = w.chip.rxRd := second.rxRd.trans first.rxRd
  have both := (passes_of_pointers first w.chip.rxRd d).trans
    (passes_of_pointers second w.chip.rxRd d)
  rw [← same] at both
  rw [← same]
  exact both

/-! ### Copying from the chip -/

/-- The byte that comes at a place of the stream has arrived for good. -/
theorem memory_of_passes (passes : Passes sock1 c c') (sane : Sane c) {i : Nat}
    (arrived : i < c.rxRsr) :
    c'.memory (S1_RX_BUF + (c.rxStart + i) % RING_SIZE) =
      c.memory (S1_RX_BUF + (c.rxStart + i) % RING_SIZE) := by
  have before : (c.inStream sock1).take c.rxRsr =
      window S1_RX_BUF RING_SIZE c.memory c.rxStart c.rxRsr := sane.take_inStream (Nat.le_refl _)
  have after : (c'.inStream sock1).take c.rxRsr =
      window S1_RX_BUF RING_SIZE c'.memory c'.rxStart c.rxRsr :=
    passes.sane.take_inStream passes.rxRsr
  rw [passes.inStream, before, passes.rxStart] at after
  have here := congrArg (·[i]?) after
  simp only [window] at here
  rw [List.getElem?_map, List.getElem?_map, List.getElem?_range arrived, Option.map_some,
    Option.map_some, Option.some.injEq] at here
  exact here.symm

theorem store_single (ram : Nat → UInt8) {x : Nat} (inside : x < SPACE) (byte : UInt8) :
    store ram x [byte] = put 0 SPACE ram x [byte] := by
  rw [put_eq_store (show x + [byte].length ≤ SPACE from inside), Nat.zero_add]

/-- The bytes copied are those that have arrived at these places, however long it takes. -/
theorem copyIn_eq (schedule : Nat → List Event) {count wiz x : Nat} (sane : Sane m.world.chip)
    (inside : x < SPACE) (fits : count ≤ SPACE)
    (arrived : ∀ i < count, ∃ j < m.world.chip.rxRsr,
      wiz + i = S1_RX_BUF + (m.world.chip.rxStart + j) % RING_SIZE) :
    Passes sock1 m.world.chip (copyIn schedule count wiz x m).world.chip ∧
      (copyIn schedule count wiz x m).ram =
        put 0 SPACE m.ram x (load m.world.chip.memory wiz count) := by
  induction count generalizing wiz x m with
  | zero =>
    refine ⟨.refl sane, ?_⟩
    rw [load_zero, put_eq_store (show x + ([] : List UInt8).length ≤ SPACE from Nat.le_of_lt inside),
      store_nil]
    rfl
  | succ count inductionHypothesis =>
    rw [copyIn]
    have first := passes_turn schedule sane
    generalize turn schedule m.world = w₁ at first
    have cell : ∀ i < count + 1, w₁.chip.memory (wiz + i) = m.world.chip.memory (wiz + i) := by
      intro i below
      obtain ⟨j, there, same⟩ := arrived i below
      rw [same]
      exact memory_of_passes first sane there
    have inside' : (x + 1) % SPACE < SPACE := Nat.mod_lt _ (by decide)
    have arrived' : ∀ i < count, ∃ j < w₁.chip.rxRsr,
        wiz + 1 + i = S1_RX_BUF + (w₁.chip.rxStart + j) % RING_SIZE := by
      intro i below
      obtain ⟨j, there, same⟩ := arrived (i + 1) (Nat.succ_lt_succ below)
      refine ⟨j, lt_of_lt_of_le there first.rxRsr, ?_⟩
      rw [first.rxStart, ← same]
      omega
    obtain ⟨later, ram⟩ := @inductionHypothesis
      ⟨w₁, store m.ram x [w₁.chip.memory wiz]⟩ (wiz + 1) ((x + 1) % SPACE) first.sane inside'
      (by omega) arrived'
    refine ⟨first.trans later, ?_⟩
    have loaded : load m.world.chip.memory wiz (count + 1) =
        [w₁.chip.memory wiz] ++ load w₁.chip.memory (wiz + 1) count := by
      have head : m.world.chip.memory wiz = w₁.chip.memory wiz :=
        (cell 0 (Nat.succ_pos count)).symm
      rw [load_succ, head]
      refine congrArg _ (load_congr fun i below => ?_)
      rw [Nat.add_assoc]
      exact (cell (1 + i) (by omega)).symm
    rw [ram, loaded, store_single _ inside]
    refine put_append inside ?_
    rw [length_load, List.length_singleton]
    omega

/-! ### Copying to the chip -/

/-- One more byte is put behind those that are put already. -/
theorem staged_byte {data : List UInt8} (staged : Staged sock1 c data)
    (room : c.waiting + data.length < RING_SIZE) (byte : UInt8) :
    Staged sock1 { c with
      memory := store c.memory (S1_TX_BUF + (c.txEnd + data.length) % RING_SIZE) [byte] }
      (data ++ [byte]) ∧
    Moves sock1 c { c with
      memory := store c.memory (S1_TX_BUF + (c.txEnd + data.length) % RING_SIZE) [byte] } [] [] := by
  have sized : 0 < RING_SIZE := by decide
  have inside := Nat.mod_lt (c.txEnd + data.length) sized
  have stored : store c.memory (S1_TX_BUF + (c.txEnd + data.length) % RING_SIZE) [byte] =
      put S1_TX_BUF RING_SIZE c.memory ((c.txEnd + data.length) % RING_SIZE) [byte] :=
    (put_eq_store inside).symm
  have single : [byte].length = 1 := rfl
  rw [stored]
  have behind : (c.txEnd + data.length) % RING_SIZE =
      (c.txRd + (c.waiting + data.length)) % RING_SIZE := by
    have start := staged.idle.sane.txRd
    have finish := staged.idle.sane.txEnd
    simp only [Chip.waiting, RING_SIZE]
    omega
  have idle : Idle { c with
      memory := put S1_TX_BUF RING_SIZE c.memory ((c.txEnd + data.length) % RING_SIZE) [byte] } :=
    ⟨⟨staged.idle.sane.txEnd, staged.idle.sane.txRd, staged.idle.sane.rxStart,
      staged.idle.sane.rxWr, staged.idle.sane.waiting, staged.idle.sane.rxRsr⟩, staged.idle.txWr,
      staged.idle.rxRd⟩
  refine ⟨⟨idle, ?_, ?_⟩, idle, ?_, ?_⟩
  · show c.waiting + (data ++ [byte]).length ≤ RING_SIZE
    rw [List.length_append, single]
    omega
  · show window S1_TX_BUF RING_SIZE _ c.txEnd (data ++ [byte]).length = _
    rw [List.length_append, window_add, window_put_of_before sized (by omega),
      window_mod [byte].length (Nat.mod_mod _ _).symm, window_put_self inside (by omega)]
    exact congrArg (· ++ [byte]) staged.put
  · rw [List.append_nil, Chip.outStream, Chip.outStream]
    show c.out ++ window S1_TX_BUF RING_SIZE _ c.txRd c.waiting = _
    have all := @window_put_of_before _ S1_TX_BUF RING_SIZE c.memory c.txRd
      (c.waiting + data.length) [byte] sized (by omega)
    rw [window_add, window_add, ← behind] at all
    exact congrArg _ (List.append_inj_left all (by rw [length_window, length_window]))
  · rw [List.nil_append, Chip.inStream, Chip.inStream]
    show _ = window S1_RX_BUF RING_SIZE _ c.rxStart c.rxRsr ++ c.incoming
    rw [window_put_of_apart sized inside (by omega) (.inr (by decide))]
    rfl

/-- The program's bytes from an address on, the first one apart. -/
theorem window_space_succ (ram : Nat → UInt8) {x : Nat} (inside : x < SPACE) (count : Nat) :
    window 0 SPACE ram x (count + 1) =
      [ram x] ++ window 0 SPACE ram ((x + 1) % SPACE) count := by
  have first : window 0 SPACE ram x 1 = [ram x] := by
    show [ram (0 + (x + 0) % SPACE)] = [ram x]
    rw [Nat.zero_add, Nat.add_zero, Nat.mod_eq_of_lt inside]
  rw [Nat.add_comm count 1, window_add, first, window_mod count (Nat.mod_mod _ _).symm]

/-- The bytes copied are put behind those that are put already, however long it takes. -/
theorem copyOut_eq (schedule : Nat → List Event) {count wiz x : Nat} {data : List UInt8}
    (staged : Staged sock1 m.world.chip data) (inside : x < SPACE)
    (room : m.world.chip.waiting + data.length + count ≤ RING_SIZE)
    (behind : ∀ i < count,
      wiz + i = S1_TX_BUF + (m.world.chip.txEnd + data.length + i) % RING_SIZE) :
    Staged sock1 (copyOut schedule count wiz x m).world.chip
        (data ++ window 0 SPACE m.ram x count) ∧
      Moves sock1 m.world.chip (copyOut schedule count wiz x m).world.chip [] [] ∧
      (copyOut schedule count wiz x m).world.chip.txEnd = m.world.chip.txEnd ∧
      (copyOut schedule count wiz x m).world.chip.waiting ≤ m.world.chip.waiting ∧
      (copyOut schedule count wiz x m).ram = m.ram := by
  induction count generalizing wiz x m data with
  | zero =>
    rw [window_zero, List.append_nil]
    exact ⟨staged, .refl staged.idle, rfl, Nat.le_refl _, rfl⟩
  | succ count inductionHypothesis =>
    rw [copyOut]
    dsimp only
    have first := passes_turn schedule staged.idle.sane
    have staged₁ := first.staged staged
    generalize turn schedule m.world = w₁ at first staged₁
    have here := behind 0 (Nat.succ_pos count)
    rw [Nat.add_zero, Nat.add_zero, ← first.txEnd] at here
    have waiting := first.waiting
    obtain ⟨staged₂, moves⟩ := staged_byte staged₁ (by omega) (m.ram x)
    rw [← here] at staged₂ moves
    have length : (data ++ [m.ram x]).length = data.length + 1 := List.length_append
    obtain ⟨staged₃, onward, txEnd, fewer, ram⟩ := @inductionHypothesis
      ⟨⟨{ w₁.chip with memory := store w₁.chip.memory wiz [m.ram x] }, w₁.turns⟩, m.ram⟩
      (wiz + 1) ((x + 1) % SPACE) (data ++ [m.ram x]) staged₂ (Nat.mod_lt _ (by decide))
      (by
        rw [length]
        show w₁.chip.waiting + (data.length + 1) + count ≤ RING_SIZE
        omega)
      (by
        intro i below
        have next := behind (i + 1) (Nat.succ_lt_succ below)
        rw [length]
        show wiz + 1 + i = S1_TX_BUF + (w₁.chip.txEnd + (data.length + 1) + i) % RING_SIZE
        rw [first.txEnd, show wiz + 1 + i = wiz + (i + 1) by omega, next]
        congr 2
        omega)
    refine ⟨?_, ?_, txEnd.trans first.txEnd, le_trans fewer waiting, ram⟩
    · rw [window_space_succ m.ram inside, ← List.append_assoc]
      exact staged₃
    · exact ((first.moves staged.idle).trans moves).trans onward

/-! ### Both pieces -/

theorem signed_of_small {d : Nat} (small : d < 32768) : signed (d % 65536) = d := by
  rw [Nat.mod_eq_of_lt (by omega), signed, if_pos small]

variable {way : Way}

theorem SKBUFSIZE_eq : SKBUFSIZE = RING_SIZE := rfl

/-- Before the end of the ring, places are one after the other. -/
theorem place_eq (start : Nat) {i : Nat} (before : start % RING_SIZE + i < RING_SIZE) :
    (start + i) % RING_SIZE = start % RING_SIZE + i := by
  rw [Nat.add_mod, Nat.mod_eq_of_lt (show i < RING_SIZE by omega), Nat.mod_eq_of_lt before]

/-- After the end, they begin again. -/
theorem place_eq_of_wraps (start : Nat) {i : Nat} (small : i < RING_SIZE) :
    (start + (RING_SIZE - start % RING_SIZE + i)) % RING_SIZE = i := by
  have low : start % RING_SIZE < RING_SIZE := Nat.mod_lt _ (by decide)
  have split := Nat.div_add_mod start RING_SIZE
  have same : start + (RING_SIZE - start % RING_SIZE + i) =
      i + RING_SIZE * (start / RING_SIZE + 1) := by
    rw [Nat.mul_succ]
    omega
  rw [same, Nat.add_mul_mod_self_left, Nat.mod_eq_of_lt small]

/-- The run is copied in one piece, or in two. -/
theorem Way.Exact.pieces (exact : way.Exact) (copy : Nat → Nat → Nat → Machine → Machine)
    {xoffset y : Nat} (low : xoffset < RING_SIZE) (some : 0 < y) (small : y ≤ RING_SIZE) :
    (xoffset + y ≤ RING_SIZE ∧ way.pieces copy xoffset y m = copy y xoffset 0 m) ∨
      (RING_SIZE ≤ xoffset + y ∧ way.pieces copy xoffset y m =
        copy (y - (RING_SIZE - xoffset)) 0 (RING_SIZE - xoffset)
          (copy (RING_SIZE - xoffset) xoffset 0 m)) := by
  obtain ⟨once, twice, most⟩ := exact
  rw [SKBUFSIZE_eq] at once twice most
  rw [Way.pieces, SKBUFSIZE_eq, signed_of_small (by simp only [RING_SIZE] at *; omega)]
  by_cases together : xoffset + y ≤ way.last
  · obtain ⟨fits, all⟩ := once xoffset y low some together
    rw [if_pos (by exact_mod_cast together), all]
    exact .inl ⟨fits, rfl⟩
  · obtain ⟨reaches, all, rest⟩ := twice xoffset y low (Nat.not_le.mp together)
    have second : (y + 65536 - (RING_SIZE - xoffset)) % 65536 = y - (RING_SIZE - xoffset) := by
      simp only [RING_SIZE] at *
      omega
    rw [if_neg (by exact_mod_cast together)]
    dsimp only
    rw [all, second, rest]
    exact .inr ⟨reaches, rfl⟩

/-- The bytes copied are those that have arrived first. -/
theorem pieces_copyIn (exact : way.Exact) (schedule : Nat → List Event) {x y : Nat}
    (sane : Sane m.world.chip) (inside : x < SPACE) (some : 0 < y)
    (arrived : y ≤ m.world.chip.rxRsr) {m' : Machine}
    (copied : m' = way.pieces (fun count offset behind =>
      copyIn schedule count (S1_RX_BUF + offset) ((x + behind) % SPACE))
      (m.world.chip.rxStart % RING_SIZE) y m) :
    Passes sock1 m.world.chip m'.world.chip ∧
      m'.ram = put 0 SPACE m.ram x
        (window S1_RX_BUF RING_SIZE m.world.chip.memory m.world.chip.rxStart y) := by
  have few := arrived.trans sane.rxRsr
  have small : y ≤ SPACE := few.trans (by decide)
  have low : m.world.chip.rxStart % RING_SIZE < RING_SIZE := Nat.mod_lt _ (by decide)
  have place := @place_eq m.world.chip.rxStart
  have wraps := @place_eq_of_wraps m.world.chip.rxStart
  rw [← window_mod y (Nat.mod_mod m.world.chip.rxStart RING_SIZE), ← get_eq_window low few]
  generalize m.world.chip.rxStart % RING_SIZE = xoffset at low place wraps copied
  rcases exact.pieces _ low some few with ⟨fits, one⟩ | ⟨reaches, two⟩
  · rw [one, Nat.add_zero, Nat.mod_eq_of_lt inside] at copied
    rw [get_eq_load fits, copied]
    refine copyIn_eq schedule sane inside small fun i below => ⟨i, by omega, ?_⟩
    rw [place (by omega), Nat.add_assoc]
  · rw [two, Nat.add_zero, Nat.add_zero, Nat.mod_eq_of_lt inside] at copied
    obtain ⟨m₁, first⟩ : ∃ m₁, m₁ =
      copyIn schedule (RING_SIZE - xoffset) (S1_RX_BUF + xoffset) x m := ⟨_, rfl⟩
    rw [← first] at copied
    have one := @copyIn_eq m schedule (RING_SIZE - xoffset) (S1_RX_BUF + xoffset) x sane inside
      (by omega) fun i below => ⟨i, by omega, by rw [place (by omega), Nat.add_assoc]⟩
    rw [← first] at one
    have start := one.1.rxStart
    have more := one.1.rxRsr
    have other := @copyIn_eq m₁ schedule (y - (RING_SIZE - xoffset)) S1_RX_BUF
      ((x + (RING_SIZE - xoffset)) % SPACE) one.1.sane (Nat.mod_lt _ (by decide)) (by omega)
      fun i below => ⟨RING_SIZE - xoffset + i, by omega, by rw [start, wraps (by omega)]⟩
    rw [← copied] at other
    refine ⟨one.1.trans other.1, ?_⟩
    have stable : load m₁.world.chip.memory S1_RX_BUF (y - (RING_SIZE - xoffset)) =
        load m.world.chip.memory S1_RX_BUF (y - (RING_SIZE - xoffset)) := by
      refine load_congr fun i below => ?_
      have cell := @memory_of_passes _ _ one.1 sane (RING_SIZE - xoffset + i) (by omega)
      rw [wraps (by omega)] at cell
      exact cell
    have length := length_load m.world.chip.memory (S1_RX_BUF + xoffset) (RING_SIZE - xoffset)
    have append := @put_append _ 0 SPACE m.ram x
      (load m.world.chip.memory (S1_RX_BUF + xoffset) (RING_SIZE - xoffset))
      (load m.world.chip.memory S1_RX_BUF (y - (RING_SIZE - xoffset))) inside
      (by rw [length, length_load]; omega)
    rw [length] at append
    rw [other.2, one.2, stable, append, Ring.get, if_pos reaches]

/-- The bytes copied are put behind those that are sent. -/
theorem pieces_copyOut (exact : way.Exact) (schedule : Nat → List Event) {x y : Nat}
    (idle : Idle m.world.chip) (inside : x < SPACE) (some : 0 < y)
    (room : m.world.chip.waiting + y ≤ RING_SIZE) {m' : Machine}
    (copied : m' = way.pieces (fun count offset behind =>
      copyOut schedule count (S1_TX_BUF + offset) ((x + behind) % SPACE))
      (m.world.chip.txEnd % RING_SIZE) y m) :
    Staged sock1 m'.world.chip (window 0 SPACE m.ram x y) ∧
      Moves sock1 m.world.chip m'.world.chip [] [] ∧ m'.ram = m.ram := by
  have low : m.world.chip.txEnd % RING_SIZE < RING_SIZE := Nat.mod_lt _ (by decide)
  have place := @place_eq m.world.chip.txEnd
  have wraps := @place_eq_of_wraps m.world.chip.txEnd
  have nothing : Staged sock1 m.world.chip [] :=
    ⟨idle, (Nat.le_add_right _ y).trans room, window_zero _⟩
  generalize m.world.chip.txEnd % RING_SIZE = xoffset at low place wraps copied
  rcases exact.pieces _ low some (by omega) with ⟨fits, one⟩ | ⟨reaches, two⟩
  · rw [one, Nat.add_zero, Nat.mod_eq_of_lt inside] at copied
    obtain ⟨staged, moves, -, -, ram⟩ := @copyOut_eq m schedule y (S1_TX_BUF + xoffset) x []
      nothing inside room fun i below => by
        rw [List.length_nil, Nat.add_zero, place (by omega), Nat.add_assoc]
    rw [copied]
    exact ⟨staged, moves, ram⟩
  · rw [two, Nat.add_zero, Nat.add_zero, Nat.mod_eq_of_lt inside] at copied
    obtain ⟨m₁, first⟩ : ∃ m₁, m₁ =
      copyOut schedule (RING_SIZE - xoffset) (S1_TX_BUF + xoffset) x m := ⟨_, rfl⟩
    rw [← first] at copied
    obtain ⟨staged, moves, txEnd, fewer, ram⟩ := @copyOut_eq m schedule (RING_SIZE - xoffset)
      (S1_TX_BUF + xoffset) x [] nothing inside (by rw [List.length_nil]; omega) fun i below => by
        rw [List.length_nil, Nat.add_zero, place (by omega), Nat.add_assoc]
    rw [← first, List.nil_append] at staged
    rw [← first] at moves txEnd fewer ram
    have length : (window 0 SPACE m.ram x (RING_SIZE - xoffset)).length = RING_SIZE - xoffset :=
      length_window _ _
    obtain ⟨staged', moves', -, -, ram'⟩ := @copyOut_eq m₁ schedule (y - (RING_SIZE - xoffset))
      S1_TX_BUF ((x + (RING_SIZE - xoffset)) % SPACE) _ staged (Nat.mod_lt _ (by decide))
      (by rw [length]; omega) fun i below => by
        rw [length, txEnd, Nat.add_assoc, wraps (by omega)]
    rw [← copied] at staged' moves' ram'
    refine ⟨?_, moves.trans moves', ram'.trans ram⟩
    have split : y = (RING_SIZE - xoffset) + (y - (RING_SIZE - xoffset)) := by omega
    rw [ram, window_mod _ (Nat.mod_mod _ _), ← window_add, ← split] at staged'
    exact staged'

/-! ### The routines are faithful to the streams -/

/-- The bytes that have arrived first are taken over. -/
theorem moves_commandRecv (schedule : Nat → List Event) (idle : Idle w.chip) {y : Nat}
    (arrived : y ≤ w.chip.rxRsr) :
    Moves sock1 w.chip (commandRecv schedule
      (putRxRd schedule ((w.chip.rxRd + y) % 65536) w)).chip []
      (window S1_RX_BUF RING_SIZE w.chip.memory w.chip.rxStart y) := by
  have small : (w.chip.rxRd + y) % 65536 < 65536 := Nat.mod_lt _ (by decide)
  have put := passes_putRxRd schedule idle.sane small
  rw [commandRecv]
  generalize putRxRd schedule ((w.chip.rxRd + y) % 65536) w = w₁ at put
  have through := put.trans (passes_turn schedule put.sane)
  generalize turn schedule w₁ = w₂ at through
  have enough : y ≤ w₂.chip.rxRsr := le_trans arrived through.rxRsr
  obtain ⟨sane, taken⟩ := through.sane.taken sock1 enough
  have pointer : w₂.chip.rxRd = (w₂.chip.rxStart + y) % 65536 := by
    rw [through.rxRd, through.rxStart, idle.rxRd]
  rw [← pointer] at sane taken
  have stream : w₂.chip.inStream sock1 = w.chip.inStream sock1 := through.inStream
  have bytes : window S1_RX_BUF RING_SIZE w₂.chip.memory w₂.chip.rxStart y =
      window S1_RX_BUF RING_SIZE w.chip.memory w.chip.rxStart y := by
    have before := @Sane.take_inStream sock1 _ idle.sane y arrived
    have after := @Sane.take_inStream sock1 _ through.sane y enough
    rw [stream, before] at after
    exact after.symm
  refine ⟨⟨sane, ?_, rfl⟩, ?_, ?_⟩
  · exact (through.txWr.trans idle.txWr).trans through.txEnd.symm
  · rw [List.append_nil]
    exact through.outStream
  · rw [← bytes, ← stream]
    exact taken

/-- The bytes that are put are sent. -/
theorem moves_commandSend (schedule : Nat → List Event) {data : List UInt8}
    (staged : Staged sock1 w.chip data) :
    Moves sock1 w.chip (commandSend schedule
      (putTxWr schedule ((w.chip.txWr + data.length) % 65536) w)).chip data [] := by
  have small : (w.chip.txWr + data.length) % 65536 < 65536 := Nat.mod_lt _ (by decide)
  have put := passes_putTxWr schedule staged.idle.sane small
  rw [commandSend]
  generalize putTxWr schedule ((w.chip.txWr + data.length) % 65536) w = w₁ at put
  have through := put.trans (passes_turn schedule put.sane)
  generalize turn schedule w₁ = w₂ at through
  have room : w₂.chip.waiting + data.length ≤ RING_SIZE :=
    (Nat.add_le_add_right through.waiting _).trans staged.room
  obtain ⟨sane, out⟩ := through.sane.sent sock1 room
  have pointer : w₂.chip.txWr = (w₂.chip.txEnd + data.length) % 65536 := by
    rw [through.txWr, through.txEnd, staged.idle.txWr]
  rw [← pointer] at sane out
  have bytes : window S1_TX_BUF RING_SIZE w₂.chip.memory w₂.chip.txEnd data.length = data := by
    rw [through.txEnd]
    exact (through.free _ staged.room).trans staged.put
  refine ⟨⟨sane, rfl, ?_⟩, ?_, ?_⟩
  · exact (through.rxRd.trans staged.idle.rxRd).trans through.rxStart.symm
  · have stream : w₂.chip.outStream sock1 = w.chip.outStream sock1 := through.outStream
    rw [← stream]
    exact out.trans (congrArg _ bytes)
  · exact through.inStream.symm

/-- The pointers of the program are read as they are. -/
theorem get2_rxRd (schedule : Nat → List Event) (idle : Idle w.chip) :
    (get2 schedule Chip.rxRd w).1 = w.chip.rxStart := by
  have small : w.chip.rxRd < 65536 := by
    rw [idle.rxRd]
    exact idle.sane.rxStart
  rw [get2_of_kept (fun _ _ passes => passes.rxRd) idle.sane small, idle.rxRd]

theorem get2_txWr (schedule : Nat → List Event) (idle : Idle w.chip) :
    (get2 schedule Chip.txWr w).1 = w.chip.txEnd := by
  have small : w.chip.txWr < 65536 := by
    rw [idle.txWr]
    exact idle.sane.txEnd
  rw [get2_of_kept (fun _ _ passes => passes.txWr) idle.sane small, idle.txWr]

theorem copyRunIn_eq (exact : way.Exact) (schedule : Nat → List Event) {x y : Nat}
    (idle : Idle m.world.chip) (inside : x < SPACE) (some : 0 < y)
    (arrived : y ≤ m.world.chip.rxRsr) :
    Passes sock1 m.world.chip (copyRunIn schedule way x y m).world.chip ∧
      (copyRunIn schedule way x y m).ram =
        put 0 SPACE m.ram x ((m.world.chip.inStream sock1).take y) := by
  have first := passes_get2 schedule Chip.rxRd idle.sane
  have arrived₁ := arrived.trans first.rxRsr
  have pieces := @pieces_copyIn ⟨(get2 schedule Chip.rxRd m.world).2, m.ram⟩ way exact schedule
    x y first.sane inside some arrived₁ _ rfl
  rw [copyRunIn]
  dsimp only
  rw [get2_rxRd schedule idle, SKBUFSIZE_eq, ← first.rxStart]
  refine ⟨first.trans pieces.1, pieces.2.trans ?_⟩
  rw [← first.inStream, first.sane.take_inStream arrived₁]
  rfl

theorem moves_advanceRead (schedule : Nat → List Event) (idle : Idle m.world.chip) {y : Nat}
    (arrived : y ≤ m.world.chip.rxRsr) :
    Moves sock1 m.world.chip (advanceRead schedule y m).world.chip []
      ((m.world.chip.inStream sock1).take y) := by
  have first := passes_get2 schedule Chip.rxRd idle.sane
  have idle₁ := first.idle idle
  have arrived₁ := arrived.trans first.rxRsr
  have taken := moves_commandRecv schedule idle₁ arrived₁
  have bytes := @Sane.take_inStream sock1 _ first.sane y arrived₁
  rw [advanceRead]
  dsimp only
  rw [get2_rxRd schedule idle, ← idle.rxRd, ← first.rxRd, ← first.inStream, bytes]
  exact (first.moves idle).trans taken

/-- `Tcp1Read` takes just the bytes asked for, and stores them where it is told to. -/
theorem moves_tcp1Read (exact : way.Exact) {rounds x y : Nat} (idle : Idle m.world.chip)
    (inside : x < SPACE) (some : 0 < y) (read : tcp1Read schedule way rounds m x y = .some m') :
    ∃ bytes, bytes.length = y ∧ Moves sock1 m.world.chip m'.world.chip [] bytes ∧
      m'.ram = put 0 SPACE m.ram x bytes := by
  rw [tcp1Read, Option.map_eq_some_iff] at read
  obtain ⟨w₁, waited, rfl⟩ := read
  obtain ⟨first, arrived⟩ := passes_waitSize (fun _ _ passes => passes.rxRsr) idle.sane waited
  have idle₁ := first.idle idle
  obtain ⟨second, ram⟩ := @copyRunIn_eq ⟨w₁, m.ram⟩ way exact schedule x y idle₁ inside some arrived
  have idle₂ := second.idle idle₁
  have taken := moves_advanceRead schedule idle₂ (y := y) (arrived.trans second.rxRsr)
  rw [second.inStream] at taken
  refine ⟨(w₁.chip.inStream sock1).take y, ?_, ?_, ram⟩
  · rw [List.length_take, length_inStream]
    omega
  · exact ((first.trans second).moves idle).trans taken

theorem copyRunOut_eq (exact : way.Exact) (schedule : Nat → List Event) {x y : Nat}
    (idle : Idle m.world.chip) (inside : x < SPACE) (some : 0 < y)
    (room : m.world.chip.waiting + y ≤ RING_SIZE) :
    Staged sock1 (copyRunOut schedule way x y m).world.chip (window 0 SPACE m.ram x y) ∧
      Moves sock1 m.world.chip (copyRunOut schedule way x y m).world.chip [] [] ∧
      (copyRunOut schedule way x y m).ram = m.ram := by
  have first := passes_get2 schedule Chip.txWr idle.sane
  have idle₁ := first.idle idle
  have pieces := @pieces_copyOut ⟨(get2 schedule Chip.txWr m.world).2, m.ram⟩ way exact schedule
    x y idle₁ inside some ((Nat.add_le_add_right first.waiting y).trans room) _ rfl
  rw [copyRunOut]
  dsimp only
  rw [get2_txWr schedule idle, SKBUFSIZE_eq, ← first.txEnd]
  exact ⟨pieces.1, (first.moves idle).trans pieces.2.1, pieces.2.2⟩

theorem moves_advanceWrite (schedule : Nat → List Event) {data : List UInt8}
    (staged : Staged sock1 m.world.chip data) :
    Moves sock1 m.world.chip (advanceWrite schedule data.length m).world.chip data [] := by
  have first := passes_get2 schedule Chip.txWr staged.idle.sane
  have sent := moves_commandSend schedule (first.staged staged)
  rw [advanceWrite]
  dsimp only
  rw [get2_txWr schedule staged.idle, ← staged.idle.txWr, ← first.txWr]
  exact (first.moves staged.idle).trans sent

/-- `Tcp1Write` sends just the bytes it is told to. -/
theorem moves_tcp1Write (exact : way.Exact) {rounds x y : Nat} (idle : Idle m.world.chip)
    (inside : x < SPACE) (some : 0 < y)
    (written : tcp1Write schedule way rounds m x y = .some m') :
    Moves sock1 m.world.chip m'.world.chip (window 0 SPACE m.ram x y) [] ∧ m'.ram = m.ram := by
  rw [tcp1Write, Option.map_eq_some_iff] at written
  obtain ⟨w₁, waited, rfl⟩ := written
  obtain ⟨first, free⟩ := passes_waitSize (fun _ _ passes => txFsr_le passes) idle.sane waited
  have room : w₁.chip.waiting + y ≤ RING_SIZE := by
    have few := first.sane.waiting
    rw [Chip.txFsr] at free
    omega
  have idle₁ := first.idle idle
  obtain ⟨staged, second, ram⟩ :=
    @copyRunOut_eq ⟨w₁, m.ram⟩ way exact schedule x y idle₁ inside some room
  have sent := moves_advanceWrite schedule staged
  rw [length_window] at sent
  exact ⟨((first.moves idle).trans second).trans sent, ram⟩

/-! ### The routines return -/

/-- The chip always goes on to transmit and to take in. -/
structure Lively (schedule : Nat → List Event) : Prop where
  transmits : ∀ turn, ∃ later count, turn ≤ later ∧ 0 < count ∧ .transmit count ∈ schedule later
  arrives : ∀ turn, ∃ later count, turn ≤ later ∧ 0 < count ∧ .arrive count ∈ schedule later

/-- A size grows at last, while it is too small. -/
def Grows (schedule : Nat → List Event) (size : Chip → Nat) (good : Chip → Prop) (len : Nat) : Prop :=
  ∀ now, ∃ later, now ≤ later ∧ ∀ w : World, w.turns = later → Sane w.chip → good w.chip →
    size w.chip < len → size w.chip < size (turn schedule w).chip

variable {size : Chip → Nat} {len : Nat}

theorem turns_get2 (schedule : Nat → List Event) (register : Chip → Nat) (count d : Nat) (w : World) :
    ((fun x : Nat × World => get2 schedule register x.2)^[count] (d, w)).2.turns =
      w.turns + 2 * count := by
  induction count generalizing d w with
  | zero => rfl
  | succ count inductionHypothesis =>
    rw [Function.iterate_succ_apply]
    refine (inductionHypothesis _ _).trans ?_
    show w.turns + 1 + 1 + 2 * count = w.turns + 2 * (count + 1)
    omega

theorem waitSize_of_ready {count d : Nat}
    (ready : len ≤ ((fun x : Nat × World => get2 schedule size x.2)^[count + 1] (d, w)).1) :
    ∃ w', waitSize schedule size len (count + 1) w = some w' := by
  induction count generalizing d w with
  | zero => exact ⟨_, if_neg (Nat.not_lt.mpr ready)⟩
  | succ count inductionHypothesis =>
    rw [waitSize]
    dsimp only
    split
    · rw [Function.iterate_succ_apply] at ready
      exact inductionHypothesis ready
    · exact ⟨_, rfl⟩

theorem exists_waitSize (good : Chip → Prop)
    (increases : ∀ c c', Passes sock1 c c' → size c ≤ size c')
    (bounded : ∀ c, Sane c → size c ≤ RING_SIZE)
    (kept : ∀ c c', Passes sock1 c c' → good c → good c') (grows : Grows schedule size good len)
    (sane : Sane w.chip) (start : good w.chip) :
    ∃ rounds w', waitSize schedule size len rounds w = some w' := by
  have passes : ∀ x : Nat × World, Sane x.2.chip →
      Passes sock1 x.2.chip (get2 schedule size x.2).2.chip :=
    fun x sane => passes_get2 schedule size sane
  have stays : ∀ x : Nat × World, Sane x.2.chip ∧ good x.2.chip →
      Sane (get2 schedule size x.2).2.chip ∧ good (get2 schedule size x.2).2.chip :=
    fun x both => ⟨(passes x both.1).sane, kept _ _ (passes x both.1) both.2⟩
  have more : ∀ (count : Nat) (x : Nat × World), Sane x.2.chip ∧ good x.2.chip → size x.2.chip ≤
      size ((fun x : Nat × World => get2 schedule size x.2)^[count] x).2.chip := by
    intro count
    induction count with
    | zero => exact fun x _ => Nat.le_refl _
    | succ count inductionHypothesis =>
      intro x both
      rw [Function.iterate_succ_apply]
      exact (increases _ _ (passes x both.1)).trans (inductionHypothesis _ (stays x both))
  have progress : ∀ x : Nat × World, Sane x.2.chip ∧ good x.2.chip → ∃ count,
      len ≤ ((fun x : Nat × World => get2 schedule size x.2)^[count + 1] x).1 ∨
        RING_SIZE - size ((fun x : Nat × World => get2 schedule size x.2)^[count + 1] x).2.chip <
          RING_SIZE - size x.2.chip := by
    intro x both
    obtain ⟨later, le, event⟩ := grows x.2.turns
    refine ⟨(later - x.2.turns) / 2, ?_⟩
    have before := iterate_of_kept stays both ((later - x.2.turns) / 2)
    have grown := more ((later - x.2.turns) / 2) x both
    have turns := turns_get2 schedule size ((later - x.2.turns) / 2) x.1 x.2
    rw [Function.iterate_succ_apply']
    generalize (fun x : Nat × World => get2 schedule size x.2)^[(later - x.2.turns) / 2] x = u
      at before grown turns
    have first := passes_turn schedule before.1
    have second := passes_turn schedule first.sane
    have one := increases _ _ first
    have two := increases _ _ second
    have most := bounded _ second.sane
    by_cases changed : size x.2.chip < size (turn schedule (turn schedule u.2)).chip
    · refine .inr ?_
      show RING_SIZE - size (turn schedule (turn schedule u.2)).chip < _
      omega
    · refine .inl ?_
      -- nothing has come in between, so the size is read as it is
      have same : size (turn schedule u.2).chip =
          size (turn schedule (turn schedule u.2)).chip := by omega
      show len ≤ hiLo (hi (size (turn schedule u.2).chip))
        (lo (size (turn schedule (turn schedule u.2)).chip))
      have small : size (turn schedule (turn schedule u.2)).chip < 65536 :=
        lt_of_le_of_lt most (by decide)
      rw [same, hiLo_hi_lo, Nat.mod_eq_of_lt small]
      by_contra short
      rcases (show u.2.turns = later ∨ (turn schedule u.2).turns = later by
        show u.2.turns = later ∨ u.2.turns + 1 = later
        omega) with now | next
      · have := event _ now before.1 before.2 (by omega)
        omega
      · have := event _ next first.sane (kept _ _ first before.2) (by omega)
        omega
  have start' : Sane (0, w).2.chip ∧ good (0, w).2.chip := ⟨sane, start⟩
  obtain ⟨count, ready⟩ := exists_ready_of_progress
    (fun x : Nat × World => get2 schedule size x.2) (fun x => Sane x.2.chip ∧ good x.2.chip)
    (fun x => len ≤ x.1) (fun x => RING_SIZE - size x.2.chip) stays progress start'
  exact ⟨count + 1, waitSize_of_ready ready⟩

theorem grows_rxRsr (lively : Lively schedule) (small : len ≤ RING_SIZE) :
    Grows schedule Chip.rxRsr (fun c => len ≤ (c.inStream sock1).length) len := by
  intro now
  obtain ⟨later, count, le, positive, member⟩ := lively.arrives now
  refine ⟨later, le, fun w at_ sane there short => ?_⟩
  rcases rxRsr_of_arrives sane apart_sock1 positive (at_ ▸ member) small there with enough | grown
  · exact lt_of_lt_of_le short enough
  · exact grown

theorem grows_txFsr (lively : Lively schedule) (small : len ≤ RING_SIZE) :
    Grows schedule Chip.txFsr (fun _ => True) len := by
  intro now
  obtain ⟨later, count, le, positive, member⟩ := lively.transmits now
  refine ⟨later, le, fun w at_ sane _ short => ?_⟩
  have most := sane.waiting
  rw [Chip.txFsr] at short
  show RING_SIZE - w.chip.waiting < RING_SIZE - (turn schedule w).chip.waiting
  have sent : (turn schedule w).chip.waiting = 0 ∨ (turn schedule w).chip.waiting < w.chip.waiting :=
    waiting_of_transmits sane apart_sock1 positive (at_ ▸ member)
  omega

/-- `Tcp1Read` returns if the other end sends the bytes asked for. -/
theorem exists_tcp1Read (lively : Lively schedule) (way : Way) (sane : Sane m.world.chip)
    {y : Nat} (fits : y ≤ RING_SIZE) (there : y ≤ (m.world.chip.inStream sock1).length) (x : Nat) :
    ∃ rounds m', tcp1Read schedule way rounds m x y = some m' := by
  obtain ⟨rounds, w', waited⟩ := exists_waitSize (fun c => y ≤ (c.inStream sock1).length)
    (fun _ _ passes => passes.rxRsr) (fun _ sane => sane.rxRsr)
    (fun _ _ passes there => by rw [passes.inStream]; exact there) (grows_rxRsr lively fits) sane there
  exact ⟨rounds, _, by rw [tcp1Read, waited, Option.map_some]⟩

/-- `Tcp1Write` returns. -/
theorem exists_tcp1Write (lively : Lively schedule) (way : Way) (sane : Sane m.world.chip)
    {y : Nat} (fits : y ≤ RING_SIZE) (x : Nat) :
    ∃ rounds m', tcp1Write schedule way rounds m x y = some m' := by
  obtain ⟨rounds, w', waited⟩ := exists_waitSize (fun _ => True)
    (fun _ _ passes => txFsr_le passes) (fun _ _ => Nat.sub_le _ _) (fun _ _ _ there => there)
    (grows_txFsr lively fits) sane trivial
  exact ⟨rounds, _, by rw [tcp1Write, waited, Option.map_some]⟩

theorem waitSize_add {rounds : Nat} (more : Nat)
    (waited : waitSize schedule size len rounds w = some w') :
    waitSize schedule size len (rounds + more) w = some w' := by
  induction rounds generalizing w with
  | zero => cases waited
  | succ rounds inductionHypothesis =>
    rw [Nat.add_right_comm]
    rw [waitSize] at waited ⊢
    dsimp only at waited ⊢
    split at waited
    · rename_i short
      rw [if_pos short]
      exact inductionHypothesis waited
    · rename_i enough
      rw [if_neg enough]
      exact waited

/-- More rounds do no harm. -/
theorem tcp1Read_add {rounds x y : Nat} (more : Nat)
    (read : tcp1Read schedule way rounds m x y = some m') :
    tcp1Read schedule way (rounds + more) m x y = some m' := by
  rw [tcp1Read, Option.map_eq_some_iff] at read ⊢
  obtain ⟨w₁, waited, done⟩ := read
  exact ⟨w₁, waitSize_add more waited, done⟩

theorem tcp1Write_add {rounds x y : Nat} (more : Nat)
    (written : tcp1Write schedule way rounds m x y = some m') :
    tcp1Write schedule way (rounds + more) m x y = some m' := by
  rw [tcp1Write, Option.map_eq_some_iff] at written ⊢
  obtain ⟨w₁, waited, done⟩ := written
  exact ⟨w₁, waitSize_add more waited, done⟩

end

/-! ### Calls one after another -/

/-- A call of `Tcp1Read` or `Tcp1Write`, with what is in X and in Y. -/
inductive Call
  | read (x y : Nat)
  | write (x y : Nat)

/-- The bytes are no more than fit the ring, and there are some. -/
def Call.Fits : Call → Prop
  | .read x y | .write x y => x < SPACE ∧ 0 < y ∧ y ≤ RING_SIZE

/-- How many bytes a call takes. -/
def Call.taken : Call → Nat
  | .read _ y => y
  | .write _ _ => 0

def perform (schedule : Nat → List Event) (way : Way) (rounds : Nat) (m : Machine) :
    Call → Option Machine
  | .read x y => tcp1Read schedule way rounds m x y
  | .write x y => tcp1Write schedule way rounds m x y

def performAll (schedule : Nat → List Event) (way : Way) (rounds : Nat) :
    Machine → List Call → Option Machine
  | m, [] => some m
  | m, call :: calls =>
    (perform schedule way rounds m call).bind fun m => performAll schedule way rounds m calls

/-- What the socket is for: a stream to the other end, and one from there. -/
structure Streams where
  ram : Nat → UInt8
  sent : List UInt8
  coming : List UInt8

/-- A call that reads takes the first bytes that come, and one that writes sends those in memory. -/
def Streams.perform (s : Streams) : Call → Streams
  | .read x y => ⟨put 0 SPACE s.ram x (s.coming.take y), s.sent, s.coming.drop y⟩
  | .write x y => ⟨s.ram, s.sent ++ window 0 SPACE s.ram x y, s.coming⟩

def Machine.streams (m : Machine) : Streams :=
  ⟨m.ram, m.world.chip.outStream sock1, m.world.chip.inStream sock1⟩

section

variable {schedule : Nat → List Event} {way : Way} {m m' : Machine} {rounds : Nat}

theorem perform_streams (exact : way.Exact) (idle : Idle m.world.chip) {call : Call}
    (fits : call.Fits) (done : perform schedule way rounds m call = some m') :
    Idle m'.world.chip ∧ m'.streams = m.streams.perform call := by
  cases call with
  | read x y =>
    obtain ⟨inside, some_, -⟩ := fits
    obtain ⟨bytes, length, moves, ram⟩ := moves_tcp1Read exact idle inside some_ done
    have out := moves.outStream
    rw [List.append_nil] at out
    refine ⟨moves.idle, ?_⟩
    rw [Machine.streams, Machine.streams, Streams.perform, moves.inStream, ram, out,
      List.take_left' length, List.drop_left' length]
  | write x y =>
    obtain ⟨inside, some_, -⟩ := fits
    obtain ⟨moves, ram⟩ := moves_tcp1Write exact idle inside some_ done
    refine ⟨moves.idle, ?_⟩
    rw [Machine.streams, Machine.streams, Streams.perform, moves.outStream, ram, moves.inStream,
      List.nil_append]

theorem perform_add {call : Call} (more : Nat)
    (done : perform schedule way rounds m call = some m') :
    perform schedule way (rounds + more) m call = some m' := by
  cases call with
  | read x y => exact tcp1Read_add more done
  | write x y => exact tcp1Write_add more done

theorem performAll_add {calls : List Call} (more : Nat)
    (done : performAll schedule way rounds m calls = some m') :
    performAll schedule way (rounds + more) m calls = some m' := by
  induction calls generalizing m with
  | nil => exact done
  | cons call calls inductionHypothesis =>
    obtain ⟨next, first, later⟩ := Option.bind_eq_some_iff.mp done
    exact Option.bind_eq_some_iff.mpr ⟨next, perform_add more first, inductionHypothesis later⟩

/-- A call returns if the bytes it takes are coming. -/
theorem exists_perform (lively : Lively schedule) (way : Way) (idle : Idle m.world.chip) {call : Call}
    (fits : call.Fits) (coming : call.taken ≤ m.streams.coming.length) :
    ∃ rounds m', perform schedule way rounds m call = some m' := by
  cases call with
  | read x y => exact exists_tcp1Read lively way idle.sane fits.2.2 coming x
  | write x y => exact exists_tcp1Write lively way idle.sane fits.2.2 x

end

/-- The pointers of both rings are before their ends, and six bytes are coming. -/
def edge : Machine where
  world := ⟨⟨fun _ => 0, 2046, 2046, 2046, 2047, 2047, 2047, 0, [], [1, 2, 3, 4, 5, 6]⟩, 0⟩
  ram a := UInt8.ofNat a

end Frobio.Tcp1
