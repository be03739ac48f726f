/-
This file models one socket of the network chip as `axiom41/axcore.c` sees it.

The socket has a ring of 2048 bytes to transmit from and one to receive into, each
with two pointers of 16 bits. The program writes `txWr` and `rxRd`, and the commands
SEND and RECV make the chip take them over. On its own time the chip puts bytes in
the receive ring as they arrive, transmits the bytes that were sent, and raises
interrupts: these are the events. It receives no more than there is room for, and
the sizes it reports are the true ones.
-/

import Frobio.Lib.Ring

namespace Frobio.Axcore

open Memory Ring

def RING_SIZE : Nat := 2048

def SK_IR_DISC : UInt8 := 0x02

def SK_IR_TOUT : UInt8 := 0x08

/-- The fields `tx_ring` and `rx_ring` of `struct sock`. -/
structure Sock where
  txRing : Nat
  rxRing : Nat

/-- The table `Socks`. -/
def socks : List Sock := [⟨0x4000, 0x6000⟩, ⟨0x4800, 0x6800⟩]

structure Chip where
  memory : Nat → UInt8
  /-- The register `SK_TX_WR0`. -/
  txWr : Nat
  /-- Where the bytes end that were sent, and where those begin that are not transmitted yet. -/
  txEnd : Nat
  txRd : Nat
  /-- The register `SK_RX_RD0`. -/
  rxRd : Nat
  /-- Where the bytes begin that were not received yet, and where they end. -/
  rxStart : Nat
  rxWr : Nat
  /-- The register `SK_IR`. -/
  ir : UInt8
  /-- The bytes put on the connection. -/
  out : List UInt8
  /-- The bytes of the other end that have not arrived. -/
  incoming : List UInt8

namespace Chip

/-- The bytes that were sent and are not transmitted yet. -/
def waiting (c : Chip) : Nat := (c.txEnd + 65536 - c.txRd) % 65536

/-- The register `SK_TX_FSR0`. -/
def txFsr (c : Chip) : Nat := RING_SIZE - c.waiting

/-- The register `SK_RX_RSR0`. -/
def rxRsr (c : Chip) : Nat := (c.rxWr + 65536 - c.rxStart) % 65536

end Chip

/-! ### Events -/

inductive Event
  | arrive (count : Nat)
  | transmit (count : Nat)
  | interrupt (bits : UInt8)

def Chip.arrive (sock : Sock) (c : Chip) (count : Nat) : Chip :=
  let room := min count (min (RING_SIZE - c.rxRsr) c.incoming.length)
  { c with
    memory :=
      put sock.rxRing RING_SIZE c.memory (c.rxWr % RING_SIZE) (c.incoming.take room)
    rxWr := (c.rxWr + room) % 65536
    incoming := c.incoming.drop room }

def Chip.transmit (sock : Sock) (c : Chip) (count : Nat) : Chip :=
  let sent := min count c.waiting
  { c with
    out := c.out ++ window sock.txRing RING_SIZE c.memory c.txRd sent
    txRd := (c.txRd + sent) % 65536 }

def Chip.event (sock : Sock) (c : Chip) : Event → Chip
  | .arrive count => c.arrive sock count
  | .transmit count => c.transmit sock count
  | .interrupt bits => { c with ir := c.ir ||| bits }

/-! ### Streams -/

/-- All that was sent: what is on the connection, and what is still to be transmitted. -/
def Chip.outStream (sock : Sock) (c : Chip) : List UInt8 :=
  c.out ++ window sock.txRing RING_SIZE c.memory c.txRd c.waiting

/-- All that is still to be received: what has arrived, and what has not. -/
def Chip.inStream (sock : Sock) (c : Chip) : List UInt8 :=
  window sock.rxRing RING_SIZE c.memory c.rxStart c.rxRsr ++ c.incoming

/-- The rings are one beside the other, and so for every socket. -/
def Sock.Apart (sock : Sock) : Prop := sock.txRing + RING_SIZE ≤ sock.rxRing

instance (sock : Sock) : Decidable sock.Apart := inferInstanceAs (Decidable (_ ≤ _))

theorem apart_of_mem {sock : Sock} (member : sock ∈ socks) : sock.Apart := by
  simp only [socks, List.mem_cons, List.not_mem_nil, or_false] at member
  rcases member with rfl | rfl
  · decide
  · decide

/-- The pointers have 16 bits, and no more is in a ring than it holds. -/
structure Sane (c : Chip) : Prop where
  txEnd : c.txEnd < 65536
  txRd : c.txRd < 65536
  rxStart : c.rxStart < 65536
  rxWr : c.rxWr < 65536
  waiting : c.waiting ≤ RING_SIZE
  rxRsr : c.rxRsr ≤ RING_SIZE

/-- What events leave alone: the program's registers, both streams, the free part of the transmit
ring; and they only make room there and bring bytes. -/
structure Passes (sock : Sock) (c c' : Chip) : Prop where
  sane : Sane c'
  txWr : c'.txWr = c.txWr
  txEnd : c'.txEnd = c.txEnd
  rxRd : c'.rxRd = c.rxRd
  rxStart : c'.rxStart = c.rxStart
  waiting : c'.waiting ≤ c.waiting
  rxRsr : c.rxRsr ≤ c'.rxRsr
  outStream : c'.outStream sock = c.outStream sock
  inStream : c'.inStream sock = c.inStream sock
  free : ∀ count, c.waiting + count ≤ RING_SIZE →
    window sock.txRing RING_SIZE c'.memory c.txEnd count =
      window sock.txRing RING_SIZE c.memory c.txEnd count

section

variable {sock : Sock} {c c' c'' : Chip}

theorem Passes.refl (sane : Sane c) : Passes sock c c :=
  ⟨sane, rfl, rfl, rfl, rfl, Nat.le_refl _, Nat.le_refl _, rfl, rfl, fun _ _ => rfl⟩

theorem Passes.trans (first : Passes sock c c') (second : Passes sock c' c'') :
    Passes sock c c'' where
  sane := second.sane
  txWr := second.txWr.trans first.txWr
  txEnd := second.txEnd.trans first.txEnd
  rxRd := second.rxRd.trans first.rxRd
  rxStart := second.rxStart.trans first.rxStart
  waiting := second.waiting.trans first.waiting
  rxRsr := first.rxRsr.trans second.rxRsr
  outStream := second.outStream.trans first.outStream
  inStream := second.inStream.trans first.inStream
  free := by
    intro count fits
    have after := second.free count (le_trans (Nat.add_le_add_right first.waiting count) fits)
    rw [first.txEnd] at after
    exact after.trans (first.free count fits)

theorem length_inStream (sock : Sock) (c : Chip) :
    (c.inStream sock).length = c.rxRsr + c.incoming.length := by
  rw [Chip.inStream, List.length_append, length_window]

theorem Chip.rxWr_mod (sane : Sane c) : c.rxWr % RING_SIZE = (c.rxStart + c.rxRsr) % RING_SIZE := by
  have := sane.rxStart
  have := sane.rxWr
  simp only [Chip.rxRsr, RING_SIZE]
  omega

/-- The bytes that arrive are appended to those that wait. -/
theorem window_arrived (sane : Sane c) {data : List UInt8}
    (fits : c.rxRsr + data.length ≤ RING_SIZE) :
    window sock.rxRing RING_SIZE
        (put sock.rxRing RING_SIZE c.memory (c.rxWr % RING_SIZE) data) c.rxStart
        (c.rxRsr + data.length) =
      window sock.rxRing RING_SIZE c.memory c.rxStart c.rxRsr ++ data := by
  have sized : 0 < RING_SIZE := by decide
  have inside := Nat.mod_lt (c.rxStart + c.rxRsr) sized
  rw [Chip.rxWr_mod sane, window_add, window_put_of_before sized fits,
    window_mod data.length (Nat.mod_mod _ _).symm, window_put_self inside (by omega)]

/-- How many bytes may arrive. -/
def Chip.room (c : Chip) (count : Nat) : Nat :=
  min count (min (RING_SIZE - c.rxRsr) c.incoming.length)

theorem rxRsr_arrive (sock : Sock) (sane : Sane c) (count : Nat) :
    (c.arrive sock count).rxRsr = c.rxRsr + c.room count := by
  have start := sane.rxStart
  have finish := sane.rxWr
  have few := sane.rxRsr
  obtain ⟨room, room_eq⟩ : ∃ room, room = c.room count := ⟨_, rfl⟩
  have fits : c.rxRsr + room ≤ RING_SIZE := by
    rw [Chip.room] at room_eq
    omega
  have after : (c.arrive sock count).rxRsr =
      ((c.rxWr + room) % 65536 + 65536 - c.rxStart) % 65536 := by
    rw [room_eq]
    rfl
  rw [after, ← room_eq]
  simp only [Chip.rxRsr, RING_SIZE] at fits ⊢
  omega

theorem waiting_transmit (sock : Sock) (sane : Sane c) (count : Nat) :
    (c.transmit sock count).waiting = c.waiting - min count c.waiting := by
  have finish := sane.txEnd
  have start := sane.txRd
  obtain ⟨sent, sent_eq⟩ : ∃ sent, sent = min count c.waiting := ⟨_, rfl⟩
  have fits : sent ≤ c.waiting := by omega
  have after : (c.transmit sock count).waiting =
      (c.txEnd + 65536 - (c.txRd + sent) % 65536) % 65536 := by
    rw [sent_eq]
    rfl
  rw [after, ← sent_eq]
  simp only [Chip.waiting] at fits ⊢
  omega

theorem passes_arrive (sane : Sane c) (apart : sock.Apart) (count : Nat) :
    Passes sock c (c.arrive sock count) := by
  have sized : 0 < RING_SIZE := by decide
  have counted := rxRsr_arrive sock sane count
  obtain ⟨room, room_eq⟩ : ∃ room, room = c.room count := ⟨_, rfl⟩
  have after : c.arrive sock count = { c with
      memory := put sock.rxRing RING_SIZE c.memory (c.rxWr % RING_SIZE) (c.incoming.take room)
      rxWr := (c.rxWr + room) % 65536
      incoming := c.incoming.drop room } := by
    rw [room_eq]
    rfl
  have length : (c.incoming.take room).length = room := by
    rw [List.length_take]
    rw [Chip.room] at room_eq
    omega
  have fits : c.rxRsr + (c.incoming.take room).length ≤ RING_SIZE := by
    have := sane.rxRsr
    rw [Chip.room] at room_eq
    omega
  have more : (c.arrive sock count).rxRsr = c.rxRsr + (c.incoming.take room).length := by
    rw [counted, length, room_eq]
  have untouched : ∀ start count',
      window sock.txRing RING_SIZE (c.arrive sock count).memory start count' =
        window sock.txRing RING_SIZE c.memory start count' := by
    intro start count'
    rw [after]
    exact window_put_of_apart sized (Nat.mod_lt _ sized) (by omega) (.inl apart)
  refine ⟨⟨?_, ?_, ?_, ?_, ?_, ?_⟩, ?_, ?_, ?_, ?_, ?_, ?_, ?_, ?_, fun count' _ => untouched ..⟩
  · rw [after]
    exact sane.txEnd
  · rw [after]
    exact sane.txRd
  · rw [after]
    exact sane.rxStart
  · rw [after]
    exact Nat.mod_lt _ (by decide)
  · rw [after]
    exact sane.waiting
  · rw [more]
    exact fits
  · rw [after]
  · rw [after]
  · rw [after]
  · rw [after]
  · rw [after]
    exact Nat.le_refl _
  · rw [more]
    exact Nat.le_add_right _ _
  · rw [Chip.outStream, untouched, after]
    rfl
  · rw [Chip.inStream, more, after]
    dsimp only
    rw [window_arrived sane fits, List.append_assoc, List.take_append_drop, Chip.inStream]

theorem passes_transmit (sane : Sane c) (count : Nat) :
    Passes sock c (c.transmit sock count) := by
  obtain ⟨sent, sent_eq⟩ : ∃ sent, sent = min count c.waiting := ⟨_, rfl⟩
  have after : c.transmit sock count = { c with
      out := c.out ++ window sock.txRing RING_SIZE c.memory c.txRd sent
      txRd := (c.txRd + sent) % 65536 } := by
    rw [Chip.transmit, ← sent_eq]
  have fewer : (c.transmit sock count).waiting = c.waiting - sent := by
    rw [waiting_transmit sock sane, sent_eq]
  refine ⟨⟨?_, ?_, ?_, ?_, ?_, ?_⟩, ?_, ?_, ?_, ?_, ?_, ?_, ?_, ?_, fun count' _ => ?_⟩
  · rw [after]
    exact sane.txEnd
  · rw [after]
    exact Nat.mod_lt _ (by decide)
  · rw [after]
    exact sane.rxStart
  · rw [after]
    exact sane.rxWr
  · rw [fewer]
    exact (Nat.sub_le _ _).trans sane.waiting
  · rw [after]
    exact sane.rxRsr
  · rw [after]
  · rw [after]
  · rw [after]
  · rw [after]
  · rw [fewer]
    exact Nat.sub_le _ _
  · rw [after]
    exact Nat.le_refl _
  · have split : c.waiting = sent + (c.waiting - sent) := by omega
    have wrap : (c.txRd + sent) % 65536 % RING_SIZE = (c.txRd + sent) % RING_SIZE :=
      Nat.mod_mod_of_dvd _ (by decide)
    rw [Chip.outStream, fewer, after]
    dsimp only
    rw [window_mod _ wrap, List.append_assoc, ← window_add, ← split, Chip.outStream]
  · rw [after]
    rfl
  · rw [after]

theorem passes_event (sane : Sane c) (apart : sock.Apart) (event : Event) :
    Passes sock c (c.event sock event) := by
  cases event with
  | arrive count => exact passes_arrive sane apart count
  | transmit count => exact passes_transmit sane count
  | interrupt bits =>
    exact ⟨⟨sane.txEnd, sane.txRd, sane.rxStart, sane.rxWr, sane.waiting, sane.rxRsr⟩, rfl, rfl,
      rfl, rfl, Nat.le_refl _, Nat.le_refl _, rfl, rfl, fun _ _ => rfl⟩

theorem passes_events (sane : Sane c) (apart : sock.Apart) (events : List Event) :
    Passes sock c (events.foldl (Chip.event sock) c) := by
  induction events generalizing c with
  | nil => exact .refl sane
  | cons event rest inductionHypothesis =>
    have one := passes_event sane apart event
    exact one.trans (inductionHypothesis one.sane)

end

end Frobio.Axcore
