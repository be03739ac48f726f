/-
This file models the receive side of a UDP socket of the network chip, as the programs
that read datagrams from it see it.

The chip stores each datagram that arrives in a ring of 2048 bytes, after a header that
says where it is from and how long it is, and drops it if there is no room. The program
reads the ring, writes the pointer `rxRd` and issues the command RECV, and only then has
the chip its bytes back. The pointers have 16 bits. The chip raises bit 2 of its
interrupt register when it stores a datagram, and after RECV if there are bytes left.
-/

import Frobio.Lib.Ring
import Frobio.Coms.Quint

namespace Frobio.Wiz

open Coms Memory Ring

def RX_SIZE : Nat := 2048

/-! ### Datagrams -/

structure Datagram where
  addr : List UInt8
  port : List UInt8
  data : List UInt8
  length_addr : addr.length = 4
  length_port : port.length = 2

/-- A datagram as the chip stores it, after a `struct UdpRecvHeader`. -/
def Datagram.bytes (d : Datagram) : List UInt8 :=
  d.addr ++ d.port ++ [hi d.data.length, lo d.data.length] ++ d.data

def UDP_HEADER : Nat := 8

@[simp] theorem Datagram.length_bytes (d : Datagram) :
    d.bytes.length = UDP_HEADER + d.data.length := by
  simp only [Datagram.bytes, List.length_append, List.length_cons, List.length_nil, d.length_addr,
    d.length_port, UDP_HEADER]

/-- The bytes of the datagrams, one after the other. -/
def allBytes (ds : List Datagram) : List UInt8 := ds.flatMap Datagram.bytes

@[simp] theorem allBytes_cons (d : Datagram) (ds : List Datagram) :
    allBytes (d :: ds) = d.bytes ++ allBytes ds := List.flatMap_cons

theorem allBytes_append (ds ds' : List Datagram) :
    allBytes (ds ++ ds') = allBytes ds ++ allBytes ds' := List.flatMap_append

/-- The header of a datagram. -/
def Datagram.header (d : Datagram) : List UInt8 :=
  d.addr ++ (d.port ++ [hi d.data.length, lo d.data.length])

theorem Datagram.bytes_eq (d : Datagram) : d.bytes = d.header ++ d.data := by
  rw [bytes, header, List.append_assoc d.addr]

theorem Datagram.length_header (d : Datagram) : d.header.length = UDP_HEADER := by
  simp only [header, List.length_append, List.length_cons, List.length_nil, d.length_addr,
    d.length_port, UDP_HEADER]

theorem Datagram.header_fields (d : Datagram) (small : d.data.length < 65536) :
    hiLo (d.header.getD 6 0) (d.header.getD 7 0) = d.data.length ∧ d.header.take 4 = d.addr ∧
      (d.header.drop 4).take 2 = d.port := by
  have behindAddr : d.header.drop 4 = d.port ++ [hi d.data.length, lo d.data.length] :=
    List.drop_left' d.length_addr
  have behindPort : d.header.drop 6 = [hi d.data.length, lo d.data.length] := by
    rw [show 6 = 4 + 2 from rfl, ← List.drop_drop, behindAddr]
    exact List.drop_left' d.length_port
  have sixth : d.header.getD 6 0 = hi d.data.length := by
    rw [List.getD_eq_getElem?_getD, ← Nat.add_zero 6, ← List.getElem?_drop, behindPort]
    rfl
  have seventh : d.header.getD 7 0 = lo d.data.length := by
    rw [List.getD_eq_getElem?_getD, show 7 = 6 + 1 from rfl, ← List.getElem?_drop, behindPort]
    rfl
  refine ⟨?_, List.take_left' d.length_addr, ?_⟩
  · rw [sixth, seventh, hiLo_hi_lo, Nat.mod_eq_of_lt small]
  · rw [behindAddr]
    exact List.take_left' d.length_port

theorem allBytes_eq_nil_iff (ds : List Datagram) : (allBytes ds).length = 0 ↔ ds = [] := by
  cases ds with
  | nil => exact iff_of_true rfl rfl
  | cons d ds =>
    rw [allBytes_cons, List.length_append, d.length_bytes]
    refine iff_of_false ?_ (List.cons_ne_nil _ _)
    simp only [UDP_HEADER]
    omega

/-- The port is in the header. -/
theorem Datagram.getD_header (d : Datagram) {i : Nat} (inside : i < 2) :
    d.header.getD (4 + i) 0 = d.port.getD i 0 := by
  rw [header, List.getD_eq_getElem?_getD, List.getD_eq_getElem?_getD,
    List.getElem?_append_right (by rw [d.length_addr]; omega), d.length_addr,
    List.getElem?_append_left (by rw [d.length_port]; omega), Nat.add_sub_cancel_left]

/-! ### The chip -/

structure Chip where
  memory : Nat → UInt8
  /-- The register `SK_RX_RD0`. -/
  rxRd : Nat
  /-- Where the bytes begin that the chip has not back yet, and where they end. -/
  rxStart : Nat
  rxWr : Nat
  /-- The register `SK_IR`. -/
  ir : UInt8
  /-- The register `SK_SR`. -/
  status : UInt8
  /-- The datagrams stored, from the first one on. -/
  stored : List Datagram

/-- The register `SK_RX_RSR0`. -/
def Chip.rsr (c : Chip) : Nat := (c.rxWr + 65536 - c.rxStart) % 65536

def IR_RECV : UInt8 := 0x04

/-- A datagram arrives. -/
def Chip.arrive (ring : Nat) (c : Chip) (d : Datagram) : Chip :=
  if c.rsr + d.bytes.length ≤ RX_SIZE then
    { c with
      memory := put ring RX_SIZE c.memory (c.rxWr % RX_SIZE) d.bytes
      rxWr := (c.rxWr + d.bytes.length) % 65536
      ir := c.ir ||| IR_RECV
      stored := c.stored ++ [d] }
  else c

/-- The command RECV. -/
def Chip.recv (c : Chip) : Chip :=
  let c' := { c with rxStart := c.rxRd }
  if c'.rsr = 0 then c' else { c' with ir := c.ir ||| IR_RECV }

/-! ### What a socket holds -/

/-- The bytes from the read pointer on, up to the last one stored. -/
structure Holds (ring : Nat) (c : Chip) (bytes : List UInt8) : Prop where
  window : window ring RX_SIZE c.memory c.rxRd bytes.length = bytes
  rxRd : c.rxRd < 65536
  rxStart : c.rxStart < 65536
  rxWr : c.rxWr = (c.rxRd + bytes.length) % 65536
  rsr : c.rsr ≤ RX_SIZE
  behind : c.rsr = (c.rxRd + 65536 - c.rxStart) % 65536 + bytes.length

section

variable {ring : Nat} {c : Chip} {bytes : List UInt8}

theorem Holds.length_le (holds : Holds ring c bytes) : bytes.length ≤ RX_SIZE := by
  have := holds.rsr
  have := holds.behind
  omega

theorem arrive_of_room {d : Datagram} (room : c.rsr + d.bytes.length ≤ RX_SIZE) :
    c.arrive ring d = { c with
      memory := put ring RX_SIZE c.memory (c.rxWr % RX_SIZE) d.bytes
      rxWr := (c.rxWr + d.bytes.length) % 65536
      ir := c.ir ||| IR_RECV
      stored := c.stored ++ [d] } := if_pos room

theorem arrive_of_full {d : Datagram} (full : ¬c.rsr + d.bytes.length ≤ RX_SIZE) :
    c.arrive ring d = c := if_neg full

/-- What is stored is put behind what is there. -/
theorem Holds.arrive (holds : Holds ring c bytes) {d : Datagram}
    (room : c.rsr + d.bytes.length ≤ RX_SIZE) : Holds ring (c.arrive ring d) (bytes ++ d.bytes) := by
  obtain ⟨held, rxRd, rxStart, rxWr, few, behind⟩ := holds
  have sized : 0 < RX_SIZE := by decide
  obtain ⟨new, new_eq⟩ : ∃ new, new = d.bytes := ⟨_, rfl⟩
  rw [← new_eq] at room ⊢
  have fits : bytes.length + new.length ≤ RX_SIZE := by omega
  have place : c.rxWr % RX_SIZE = (c.rxRd + bytes.length) % RX_SIZE := by
    rw [rxWr]
    exact Nat.mod_mod_of_dvd _ (by decide)
  have inside := Nat.mod_lt (c.rxRd + bytes.length) sized
  rw [arrive_of_room (new_eq ▸ room), ← new_eq]
  have count : ({ c with rxWr := (c.rxWr + new.length) % 65536 } : Chip).rsr =
      c.rsr + new.length := by
    simp only [Chip.rsr, RX_SIZE] at room ⊢
    omega
  refine ⟨?_, rxRd, rxStart, ?_, ?_, ?_⟩
  · rw [List.length_append, window_add, place, window_put_of_before sized fits, held,
      ← window_mod new.length (Nat.mod_mod _ _), window_put_self inside (by omega)]
  · rw [List.length_append]
    show (c.rxWr + new.length) % 65536 = (c.rxRd + (bytes.length + new.length)) % 65536
    omega
  · exact count.trans_le room
  · rw [List.length_append]
    have sum : c.rsr + new.length =
        (c.rxRd + 65536 - c.rxStart) % 65536 + (bytes.length + new.length) := by omega
    exact count.trans sum

theorem Holds.recv (holds : Holds ring c bytes) :
    Holds ring c.recv bytes ∧ c.recv.rsr = bytes.length := by
  obtain ⟨held, rxRd, rxStart, rxWr, few, behind⟩ := holds
  have count : ({ c with rxStart := c.rxRd } : Chip).rsr = bytes.length := by
    simp only [Chip.rsr, RX_SIZE] at few behind ⊢
    omega
  have fits : bytes.length ≤ RX_SIZE := by omega
  have same : bytes.length = (c.rxRd + 65536 - c.rxRd) % 65536 + bytes.length := by omega
  have taken : Holds ring { c with rxStart := c.rxRd } bytes :=
    ⟨held, rxRd, rxRd, rxWr, count.trans_le fits, count.trans same⟩
  rw [Chip.recv]
  split
  · exact ⟨taken, count⟩
  · exact ⟨⟨taken.window, rxRd, rxRd, rxWr, taken.rsr, taken.behind⟩, count⟩

/-- The first bytes are read from the read pointer on. -/
theorem Holds.front {front back : List UInt8} (holds : Holds ring c (front ++ back)) :
    Ring.window ring RX_SIZE c.memory c.rxRd front.length = front := by
  have all := holds.window
  rw [List.length_append, window_add] at all
  exact (List.append_inj all (length_window ..)).1

/-- The read pointer is moved behind the first bytes, and no further. -/
theorem Holds.advance {front back : List UInt8} (holds : Holds ring c (front ++ back)) {rxRd : Nat}
    (small : rxRd < 65536) :
    Holds ring { c with rxRd := rxRd } back ↔ rxRd = (c.rxRd + front.length) % 65536 := by
  obtain ⟨held, below, rxStart, rxWr, few, behind⟩ := holds
  rw [List.length_append] at held behind rxWr
  constructor
  · intro advanced
    have wrote := advanced.rxWr
    have fits := advanced.length_le
    change c.rxWr = (rxRd + back.length) % 65536 at wrote
    have frontFits : front.length ≤ RX_SIZE := by omega
    simp only [RX_SIZE] at *
    omega
  · rintro rfl
    rw [window_add] at held
    refine ⟨?_, small, rxStart, ?_, few, ?_⟩
    · have wrap : (c.rxRd + front.length) % 65536 % RX_SIZE = (c.rxRd + front.length) % RX_SIZE :=
        Nat.mod_mod_of_dvd _ (by decide)
      show Ring.window ring RX_SIZE c.memory ((c.rxRd + front.length) % 65536) back.length = back
      rw [window_mod _ wrap]
      exact (List.append_inj held (length_window ..)).2
    · show c.rxWr = _
      rw [rxWr]
      show _ = ((c.rxRd + front.length) % 65536 + back.length) % 65536
      omega
    · show c.rsr = ((c.rxRd + front.length) % 65536 + 65536 - c.rxStart) % 65536 + back.length
      simp only [RX_SIZE] at few
      omega

end

end Frobio.Wiz
