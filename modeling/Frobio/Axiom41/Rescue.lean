/-
This file models `axiom41/rescue.c`: the receiver of the broadcast packets, which burns
their data. It has a square on its screen for each record, and turns it to GOT when the
data of the record are written.

`Command` writes a one to the command register, whatever its argument. So the parameter
`commands`, which says what the chip does for each command, is only used at that one.
-/

import Frobio.Burning.Segments
import Frobio.Wiz.Receive
import Frobio.Lib.Transcript

namespace Frobio.Axiom41

open Burning Coms Memory Ring Transcript Wiz

/-! ### Receiving -/

def R : Nat := 0x6800

def PACKET_SIZE : Nat := 8 + 128

abbrev Ram := Nat → UInt8

def rambuf : Nat := 0x0400

def command (commands : UInt8 → Chip → Chip) (_cmd : UInt8) (c : Chip) : Chip := commands 1 c

def receiveSpan (c : Chip) (ram : Ram) (offset rambuf size : Nat) : Ram :=
  store ram rambuf (load c.memory (R + offset) size)

/-- What is in the packet buffer after the spans are received. -/
def receiveSpans (c : Chip) (ram : Ram) : Ram :=
  let offset := c.rxRd % RX_SIZE
  if offset + PACKET_SIZE ≤ RX_SIZE then receiveSpan c ram offset rambuf PACKET_SIZE
  else
    let firstSize := RX_SIZE - offset
    let secondSize := PACKET_SIZE - firstSize
    receiveSpan c (receiveSpan c ram offset rambuf firstSize) offset (rambuf + firstSize) secondSize

/-- The read pointer is moved behind a packet. -/
def moved (c : Chip) : Chip := { c with rxRd := (c.rxRd + PACKET_SIZE) % 65536 }

def receiveIfPacketAvailable (commands : UInt8 → Chip → Chip) (c : Chip) (ram : Ram) :
    Bool × Chip × Ram :=
  if c.rsr < PACKET_SIZE then (false, c, ram)
  else (true, command commands 0x40 (moved c), receiveSpans c ram)

/-! ### Burning -/

def C_EMPTY : UInt8 := 0x2E

def C_WANT : UInt8 := 0x0F

def C_GOT : UInt8 := 0x58

def barStart : Nat := 0x0500

def startOfBurnData : Nat := 0x408 + 64

/-- The fields of `struct tiny_burn`. -/
def ithRecord (ram : Ram) : Nat := (ram (startOfBurnData - 5)).toNat

def numRecords (ram : Ram) : Nat := (ram (startOfBurnData - 4)).toNat

def payloadLen (ram : Ram) : Nat := (ram (startOfBurnData - 3)).toNat

def payloadAddr (ram : Ram) : Nat := hiLo (ram (startOfBurnData - 2)) (ram (startOfBurnData - 1))

/-- The squares of the first loop. -/
def showSquares (ram : Ram) : Ram :=
  store ram barStart ((List.range (512 - 32)).map fun i =>
    if i < numRecords ram then C_WANT else C_EMPTY)

/-- The loop that writes the data. Its counter is a byte, and so is the length. -/
def burnBytes : Nat → Ram → Nat → Ram
  | 0, ram, _ => ram
  | fuel + 1, ram, i =>
    if i < payloadLen ram then
      burnBytes fuel
        (Function.update ram ((payloadAddr ram + i) % 65536) (ram (startOfBurnData + i))) (i + 1)
    else ram

def burn (ram : Ram) : Ram :=
  let ith := ithRecord ram
  if ram (barStart + ith) = C_WANT then
    Function.update (burnBytes 255 ram 0) (barStart + ith) C_GOT
  else ram

inductive Phase
  /-- The loop that waits for a key. -/
  | waiting
  /-- The loop that burns, as long as the key is down. -/
  | burning
  | finished
  deriving DecidableEq

structure State where
  chip : Chip
  ram : Ram
  phase : Phase
  /-- The datagrams that were stored and not received. -/
  queue : List Datagram

inductive Action
  | arrive (d : Datagram)
  /-- One look at the key, and the round that follows. -/
  | look (keyDown : Bool)

/-- Does the round receive? -/
def receives (phase : Phase) (keyDown : Bool) : Bool :=
  match phase with
  | .waiting => !keyDown
  | .burning => keyDown
  | .finished => false

/-- What a loop does with the packet that it received. -/
def handle (phase : Phase) (ram : Ram) : Ram :=
  match phase with
  | .waiting => showSquares ram
  | .burning => burn ram
  | .finished => ram

/-- The loops of `AttemptRescue123`. What `AllowWrites` and `ForbidWrites` write are commands to
the EEPROM, and no data. -/
def look (commands : UInt8 → Chip → Chip) (x : State) (keyDown : Bool) : State :=
  if receives x.phase keyDown then
    match receiveIfPacketAvailable commands x.chip x.ram with
    | (true, chip, ram) => { x with chip := chip, ram := handle x.phase ram, queue := x.queue.tail }
    | (false, chip, ram) => { x with chip := chip, ram := ram }
  else
    match x.phase with
    | .waiting => { x with phase := .burning }
    | .burning => { x with phase := .finished }
    | .finished => x

def step (commands : UInt8 → Chip → Chip) (x : State) : Action → State × Unit
  | .arrive d =>
    ({ x with
        chip := x.chip.arrive R d
        queue := if x.chip.rsr + d.bytes.length ≤ RX_SIZE then x.queue ++ [d] else x.queue }, ())
  | .look keyDown => (look commands x keyDown, ())

/-! ### The law -/

/-- A call that returns true has the next datagram in the buffer, and is past it. -/
def ReceivesNext (commands : UInt8 → Chip → Chip) (c : Chip) (ram : Ram) (queue : List Datagram) :
    Prop :=
  (receiveIfPacketAvailable commands c ram).1 = true →
    ∃ d rest, queue = d :: rest ∧
      load (receiveIfPacketAvailable commands c ram).2.2 rambuf PACKET_SIZE = d.bytes ∧
      Holds R (receiveIfPacketAvailable commands c ram).2.1 (allBytes rest)

/-- The packet does not reach the end of the ring, or what is behind its first part is also at the
start of the packet. -/
def SpansFit (c : Chip) : Prop :=
  let offset := c.rxRd % RX_SIZE
  let secondSize := PACKET_SIZE - (RX_SIZE - offset)
  offset + PACKET_SIZE ≤ RX_SIZE ∨ load c.memory (R + offset) secondSize = load c.memory R secondSize

/-- If there are enough bytes for a packet, there is a datagram, its spans fit, and the chip takes
the command 1 as it takes RECV: it drops the datagram and keeps the others. -/
def CanReceive (commands : UInt8 → Chip → Chip) (c : Chip) (queue : List Datagram) : Prop :=
  PACKET_SIZE ≤ c.rsr → ∃ d rest, queue = d :: rest ∧ SpansFit c ∧
    Holds R (commands 1 (moved c)) (allBytes rest)

/-- The packet buffer and the squares. -/
def Own (a : Nat) : Prop :=
  rambuf ≤ a ∧ a < rambuf + PACKET_SIZE ∨ barStart ≤ a ∧ a < barStart + (512 - 32)

/-- A group has a byte for an address. -/
def Wanted (groups : List Group) (a : Nat) (byte : UInt8) : Prop :=
  ∃ group ∈ groups, ∃ i, group.data[i]? = some byte ∧ group.addr + i = a

/-- The groups do not contradict each other, are apart from the memory that the program uses, and
none of them begins within the first page. -/
structure CanBurn (groups : List Group) : Prop where
  agree : ∀ a byte byte', Wanted groups a byte → Wanted groups a byte' → byte = byte'
  apart : ∀ a byte, Wanted groups a byte → ¬Own a
  page : ∀ group ∈ groups, group.data = [] ∨ group.addr = 0 ∨ 64 ≤ group.addr

/-- When every square is GOT, every byte of every group is in its place; and nothing else was
written. -/
structure Burned (groups : List Group) (ram0 : Ram) (count : Nat) (x : State) : Prop where
  burned : (∀ k < count, x.ram (barStart + k) = C_GOT) →
    ∀ a byte, Wanted groups a byte → x.ram a = byte
  untouched : ∀ a, ¬Own a → (∀ byte, ¬Wanted groups a byte) → x.ram a = ram0 a

/-- The state before the loops: the screen is filled, and nothing was received yet. -/
def start (c : Chip) (ram : Ram) : State :=
  ⟨c, store ram barStart (List.replicate 512 0x3A), .waiting, []⟩

/-- The condition of a call, and its law, in a run. -/
def CanStep (commands : UInt8 → Chip → Chip) (x : State) : Action → Prop
  | .arrive _ => True
  | .look keyDown => receives x.phase keyDown = true → CanReceive commands x.chip x.queue

def ReceivesStep (commands : UInt8 → Chip → Chip) (x : State) : Action → Prop
  | .arrive _ => True
  | .look keyDown => receives x.phase keyDown = true → ReceivesNext commands x.chip x.ram x.queue

/-! ### One call -/

section

variable {c : Chip} {ram : Ram}

/-- The bytes that the spans bring. -/
def spans (c : Chip) : List UInt8 :=
  let offset := c.rxRd % RX_SIZE
  if offset + PACKET_SIZE ≤ RX_SIZE then load c.memory (R + offset) PACKET_SIZE
  else
    load c.memory (R + offset) (RX_SIZE - offset) ++
      load c.memory (R + offset) (PACKET_SIZE - (RX_SIZE - offset))

theorem length_spans (c : Chip) : (spans c).length = PACKET_SIZE := by
  have below : c.rxRd % RX_SIZE < RX_SIZE := Nat.mod_lt _ (by decide)
  simp only [spans]
  split
  · exact length_load ..
  · rw [List.length_append, length_load, length_load]
    omega

theorem receiveSpans_eq (c : Chip) (ram : Ram) : receiveSpans c ram = store ram rambuf (spans c) := by
  simp only [receiveSpans, spans]
  split
  · rfl
  · have first := length_load c.memory (R + c.rxRd % RX_SIZE) (RX_SIZE - c.rxRd % RX_SIZE)
    have both := store_append ram rambuf
      (load c.memory (R + c.rxRd % RX_SIZE) (RX_SIZE - c.rxRd % RX_SIZE))
      (load c.memory (R + c.rxRd % RX_SIZE) (PACKET_SIZE - (RX_SIZE - c.rxRd % RX_SIZE)))
    rw [first] at both
    exact both

/-- The buffer holds what the spans bring, and nothing else changes. -/
theorem load_receiveSpans (c : Chip) (ram : Ram) :
    load (receiveSpans c ram) rambuf PACKET_SIZE = spans c := by
  rw [receiveSpans_eq, ← length_spans c, load_store_self]

theorem receiveSpans_apply (c : Chip) (ram : Ram) {a : Nat}
    (outside : a < rambuf ∨ rambuf + PACKET_SIZE ≤ a) : receiveSpans c ram a = ram a := by
  rw [receiveSpans_eq]
  rcases outside with before | behind
  · exact store_apply_of_before _ _ before
  · exact store_apply_of_after _ (by rw [length_spans]; exact behind)

/-- The spans are the packet at the read pointer just when they fit. -/
theorem spans_eq_iff {d : Datagram} {bytes : List UInt8} (holds : Holds R c (d.bytes ++ bytes))
    (size : d.bytes.length = PACKET_SIZE) : spans c = d.bytes ↔ SpansFit c := by
  have below : c.rxRd % RX_SIZE < RX_SIZE := Nat.mod_lt _ (by decide)
  have whole : get R RX_SIZE c.memory (c.rxRd % RX_SIZE) PACKET_SIZE = d.bytes := by
    rw [get_eq_window below (by decide), window_mod _ (Nat.mod_mod _ _), ← size]
    exact holds.front
  rw [← whole, Ring.get]
  simp only [spans, SpansFit]
  by_cases straight : c.rxRd % RX_SIZE + PACKET_SIZE ≤ RX_SIZE
  · rw [if_pos straight]
    refine iff_of_true ?_ (.inl straight)
    split
    · rename_i edge
      have exact : PACKET_SIZE - (RX_SIZE - c.rxRd % RX_SIZE) = 0 := by omega
      have all : RX_SIZE - c.rxRd % RX_SIZE = PACKET_SIZE := by omega
      rw [exact, all, load_zero, List.append_nil]
    · rfl
  · have wraps : RX_SIZE ≤ c.rxRd % RX_SIZE + PACKET_SIZE := by omega
    rw [if_neg straight, if_pos wraps, List.append_cancel_left_eq]
    exact (or_iff_right straight).symm

/-- A call receives the next datagram just when it can. -/
theorem receivesNext_iff (commands : UInt8 → Chip → Chip) (ram : Ram) {queue : List Datagram}
    (holds : Holds R c (allBytes queue)) (whole : ∀ d ∈ queue, d.data.length = 128) :
    ReceivesNext commands c ram queue ↔ CanReceive commands c queue := by
  rw [ReceivesNext, CanReceive, receiveIfPacketAvailable]
  by_cases few : c.rsr < PACKET_SIZE
  · rw [if_pos few]
    exact iff_of_true nofun fun enough => absurd few (Nat.not_lt.mpr enough)
  · rw [if_neg few]
    refine ⟨fun next _ => ?_, fun can _ => ?_⟩
    · obtain ⟨d, rest, queue_eq, buffer, after⟩ := next rfl
      have size : d.bytes.length = PACKET_SIZE := by
        rw [d.length_bytes, whole d (queue_eq ▸ List.mem_cons_self)]
        rfl
      have held := holds
      rw [queue_eq, allBytes_cons] at held
      refine ⟨d, rest, queue_eq, (spans_eq_iff held size).mp ?_, after⟩
      exact (load_receiveSpans c ram).symm.trans buffer
    · obtain ⟨d, rest, queue_eq, fits, after⟩ := can (Nat.not_lt.mp few)
      have size : d.bytes.length = PACKET_SIZE := by
        rw [d.length_bytes, whole d (queue_eq ▸ List.mem_cons_self)]
        rfl
      have held := holds
      rw [queue_eq, allBytes_cons] at held
      refine ⟨d, rest, queue_eq, ?_, after⟩
      exact (load_receiveSpans c ram).trans ((spans_eq_iff held size).mpr fits)

end

end Frobio.Axiom41
