/-
This file models how `net-games/spacewario.c` takes packets from its UDP socket, and
compares it with a game that takes the datagrams one by one and keeps its memory but for
the ships and missiles it is sent.

A packet that is not a broadcast of the game is read as well, to address 0 of the memory.
So the memory is kept just as long as these packets are empty, or what is there already.
-/

import Frobio.Lib.Run
import Frobio.Wiz.Receive

namespace Frobio.Spacewar

open Coms Memory Frobio.Ring Run Wiz

/-! ### The memory -/

def CASBUF : Nat := 0x01DA

/-- The addresses of `Vars->mode`, `Vars->ship`, `Vars->missile` and `Vars->buffer`. -/
def modeAddr : Nat := CASBUF + 6
def shipAddr : Nat := CASBUF + 15
def missileAddr : Nat := CASBUF + 95
def bufferAddr : Nat := CASBUF + 185

def NUM_SHIPS : Nat := 4

/-- `sizeof(struct body)` and `sizeof(struct broadcast_payload)`. -/
def sizeofBody : Nat := 20
def sizeofPayload : Nat := 50

def SPACE_WAR_PORT : Nat := 3210

structure Game where
  chip : Chip
  memory : Nat → UInt8
  /-- Where the chip is: what `Vars->wiz_port` is meant to be. -/
  port : UInt8 × UInt8

/-- Does `WIZ` point to the chip? -/
def Game.wiz (g : Game) : Bool := g.memory CASBUF = g.port.1 ∧ g.memory (CASBUF + 1) = g.port.2

/-! ### Reading the ring -/

def R : Nat := 0x6000

def SK_IR_TOUT : UInt8 := 0x08
def SK_IR_DISC : UInt8 := 0x02

inductive Errnum
  | OKAY
  | NOTYET
  | interrupted (ir : UInt8)
  deriving DecidableEq

/-- `none` if another device than the chip is read. -/
def wizGetN (g : Game) (reg buffer size : Nat) : Option Game :=
  if g.wiz then some { g with memory := store g.memory buffer (load g.chip.memory reg size) }
  else none

/-- Put the read pointer, and issue the command RECV. -/
def wizRecv (g : Game) (rd : Nat) : Option Game :=
  if g.wiz then some { g with chip := ({ g.chip with rxRd := rd % 65536 } : Chip).recv } else none

/-- The part of `WizRecvChunkTry` that reads the ring, in one piece or in two. -/
def wizReadRing (g : Game) (start buf n : Nat) : Option Game :=
  if RX_SIZE ≤ (start + n) % 65536 then
    let first := RX_SIZE - start
    (wizGetN g (R + start) buf first).bind fun g => wizGetN g R (buf + first) (n - first)
  else wizGetN g (R + start) buf n

def wizRecvChunkTry (g : Game) (buf n : Nat) : Option (Game × Errnum) :=
  if ¬g.wiz then none
  else if g.chip.ir &&& SK_IR_TOUT ≠ 0 then some (g, .interrupted SK_IR_TOUT)
  else if g.chip.ir &&& SK_IR_DISC ≠ 0 then some (g, .interrupted SK_IR_DISC)
  else if g.chip.rsr < n then some (g, .NOTYET)
  else
    let rd := g.chip.rxRd
    (wizReadRing g (rd % RX_SIZE) buf n).bind fun g =>
      (wizRecv g (rd + n)).map fun g => (g, Errnum.OKAY)

/-- `none` also if the bytes do not come in as many rounds. -/
def wizRecvChunk : Nat → Game → Nat → Nat → Option Game
  | 0, _, _, _ => none
  | rounds + 1, g, buf, n =>
    (wizRecvChunkTry g buf n).bind fun (g, e) =>
      if e = .NOTYET then wizRecvChunk rounds g buf n else some g

/-! ### Packets -/

def processIncomingPacket (g : Game) : Game :=
  if g.memory bufferAddr ≠ 0xAA then g
  else
    let n := (g.memory (bufferAddr + 1)).toNat
    if NUM_SHIPS ≤ n then g
    else
      let ship := load g.memory (bufferAddr + 2) sizeofBody
      let g := { g with memory := store g.memory (shipAddr + n * sizeofBody) ship }
      let missile := load g.memory (bufferAddr + 2 + sizeofBody) sizeofBody
      { g with memory := store g.memory (missileAddr + n * sizeofBody) missile }

def checkIncomingPackets (rounds : Nat) (g : Game) : Option Game :=
  if g.memory modeAddr = 0x53 then some g
  else
    (wizRecvChunkTry g bufferAddr 8).bind fun (g, e) =>
      if e = .OKAY then
        let port := hiLo (g.memory (bufferAddr + 4)) (g.memory (bufferAddr + 5))
        let len := hiLo (g.memory (bufferAddr + 6)) (g.memory (bufferAddr + 7))
        if port = SPACE_WAR_PORT ∧ len = sizeofPayload then
          (wizRecvChunk rounds g bufferAddr len).map processIncomingPacket
        else wizRecvChunk rounds g 0 len
      else some g

inductive Action
  | arrive (d : Datagram)
  | check

def step (rounds : Nat) (g : Game) : Action → Option Game
  | .arrive d => some { g with chip := g.chip.arrive R d }
  | .check => checkIncomingPackets rounds g

/-! ### The game as it is meant -/

/-- The datagrams that are waiting, and the memory. -/
structure Expected where
  queue : List Datagram
  memory : Nat → UInt8

/-- Is the datagram of the size of a broadcast, and from the port of the game? -/
def Broadcast (d : Datagram) : Prop :=
  hiLo (d.port.getD 0 0) (d.port.getD 1 0) = SPACE_WAR_PORT ∧ d.data.length = sizeofPayload

instance (d : Datagram) : Decidable (Broadcast d) := inferInstanceAs (Decidable (_ ∧ _))

/-- The ship and the missile of the datagram, if it has any. -/
def delivered (memory : Nat → UInt8) (d : Datagram) : Nat → UInt8 :=
  let n := (d.data.getD 1 0).toNat
  if Broadcast d ∧ d.data.getD 0 0 = 0xAA ∧ n < NUM_SHIPS then
    store (store memory (shipAddr + n * sizeofBody) ((d.data.drop 2).take sizeofBody))
      (missileAddr + n * sizeofBody) ((d.data.drop (2 + sizeofBody)).take sizeofBody)
  else memory

def expectedStep (e : Expected) : Action → Option Expected
  | .arrive d =>
    if (allBytes e.queue).length + d.bytes.length ≤ RX_SIZE then
      some { e with queue := e.queue ++ [d] }
    else some e
  | .check =>
    if e.memory modeAddr = 0x53 then some e
    else
      match e.queue with
      | [] => some e
      | d :: rest => some ⟨rest, delivered e.memory d⟩

def InBuffer (a : Nat) : Prop := bufferAddr ≤ a ∧ a < bufferAddr + 80

instance (a : Nat) : Decidable (InBuffer a) := inferInstanceAs (Decidable (_ ∧ _))

/-- The chip holds the datagrams that are waiting, and the memory is the same but for
`Vars->buffer`. -/
structure Agrees (g : Game) (e : Expected) : Prop where
  holds : Holds R g.chip (allBytes e.queue)
  waiting : g.chip.rsr = (allBytes e.queue).length
  quiet : g.chip.ir &&& SK_IR_TOUT = 0 ∧ g.chip.ir &&& SK_IR_DISC = 0
  wiz : g.wiz = true
  memory : ∀ a, ¬InBuffer a → g.memory a = e.memory a

/-- The program agrees with the game as it is meant all along. -/
def Follows (rounds : Nat) (g : Game) (e : Expected) (actions : List Action) : Prop :=
  ∀ before after, actions = before ++ after → ∃ g' e', run (step rounds) g before = some g' ∧
    run expectedStep e before = some e' ∧ Agrees g' e'

/-- The next packet is a broadcast, or it is at address 0 already, but for `Vars->buffer`. -/
def Harmless (e : Expected) : Action → Prop
  | .arrive _ => True
  | .check => e.memory modeAddr = 0x53 ∨ ∀ d rest, e.queue = d :: rest →
      Broadcast d ∨ ∀ a < d.data.length, ¬InBuffer a → d.data.getD a 0 = e.memory a

/-! ### Reading a chunk -/

section

variable {g g' : Game} {e : Expected}

/-- The game with these bytes stored. -/
def Game.stored (g : Game) (buf : Nat) (data : List UInt8) : Game :=
  { g with memory := store g.memory buf data }

/-- The game after a chunk: the bytes are stored, and the chip has them back. -/
def Game.chunk (g : Game) (buf : Nat) (data : List UInt8) : Game :=
  { g.stored buf data with
    chip := ({ g.chip with rxRd := (g.chip.rxRd + data.length) % 65536 } : Chip).recv }

theorem wiz_iff : g.wiz = true ↔
    g.memory CASBUF = g.port.1 ∧ g.memory (CASBUF + 1) = g.port.2 :=
  decide_eq_true_iff

theorem wizGetN_eq_some {reg buffer size : Nat} : wizGetN g reg buffer size = some g' ↔
    g.wiz = true ∧ g' = g.stored buffer (load g.chip.memory reg size) := by
  rw [wizGetN]
  by_cases wiz : g.wiz = true
  · rw [if_pos wiz, Option.some.injEq, and_iff_right wiz]
    exact eq_comm
  · rw [if_neg wiz]
    exact iff_of_false nofun fun both => wiz both.1

/-- The pieces that are read are the bytes from the read pointer on. -/
theorem pieces_eq {start n : Nat} (inside : start < RX_SIZE) (fits : n ≤ RX_SIZE)
    (wraps : RX_SIZE ≤ start + n) (memory : Nat → UInt8) :
    load memory (R + start) (RX_SIZE - start) ++ load memory R (n - (RX_SIZE - start)) =
      window R RX_SIZE memory start n := by
  rw [← get_eq_window inside fits, Ring.get, if_pos wraps]

theorem stored_stored (buf : Nat) (first second : List UInt8) :
    (g.stored buf first).stored (buf + first.length) second = g.stored buf (first ++ second) := by
  rw [Game.stored, Game.stored, Game.stored, store_append]

theorem eq_of_wizReadRing {start buf n : Nat} (inside : start < RX_SIZE) (fits : n ≤ RX_SIZE)
    (read : wizReadRing g start buf n = some g') :
    g' = g.stored buf (window R RX_SIZE g.chip.memory start n) := by
  have small : (start + n) % 65536 = start + n := Nat.mod_eq_of_lt (by simp only [RX_SIZE] at *; omega)
  rw [wizReadRing, small] at read
  split at read
  · rename_i wraps
    obtain ⟨g₁, one, two⟩ := Option.bind_eq_some_iff.mp read
    obtain ⟨-, rfl⟩ := wizGetN_eq_some.mp one
    obtain ⟨-, rfl⟩ := wizGetN_eq_some.mp two
    have length := length_load g.chip.memory (R + start) (RX_SIZE - start)
    have twice := @stored_stored g buf (load g.chip.memory (R + start) (RX_SIZE - start))
      (load g.chip.memory R (n - (RX_SIZE - start)))
    rw [length, pieces_eq inside fits wraps] at twice
    exact twice
  · rename_i straight
    obtain ⟨-, rfl⟩ := wizGetN_eq_some.mp read
    rw [← get_eq_window inside fits, Ring.get, if_neg straight]

/-- The part of some bytes that is stored first does not lose the chip, if the bytes do not. -/
theorem wiz_stored_first {buf : Nat} {first second : List UInt8} (wiz : g.wiz = true)
    (after : (g.stored buf (first ++ second)).wiz = true) : (g.stored buf first).wiz = true := by
  rw [wiz_iff] at wiz after ⊢
  have each : ∀ a b, g.memory a = b → (g.stored buf (first ++ second)).memory a = b →
      (g.stored buf first).memory a = b := by
    intro a b before whole
    rw [Game.stored] at whole ⊢
    dsimp only at whole ⊢
    rw [← store_append] at whole
    by_cases inside : a < buf + first.length
    · rw [store_apply_of_before _ _ inside] at whole
      exact whole
    · rw [store_apply_of_after _ (by omega)]
      exact before
  exact ⟨each _ _ wiz.1 after.1, each _ _ wiz.2 after.2⟩

theorem wizReadRing_of_wiz {start buf n : Nat} (inside : start < RX_SIZE) (fits : n ≤ RX_SIZE)
    (wiz : g.wiz = true)
    (after : (g.stored buf (window R RX_SIZE g.chip.memory start n)).wiz = true) :
    wizReadRing g start buf n = some (g.stored buf (window R RX_SIZE g.chip.memory start n)) := by
  have small : (start + n) % 65536 = start + n := Nat.mod_eq_of_lt (by simp only [RX_SIZE] at *; omega)
  rw [wizReadRing, small]
  split
  · rename_i wraps
    rw [← pieces_eq inside fits wraps] at after ⊢
    have length := length_load g.chip.memory (R + start) (RX_SIZE - start)
    refine Option.bind_eq_some_iff.mpr ⟨_, wizGetN_eq_some.mpr ⟨wiz, rfl⟩, ?_⟩
    refine wizGetN_eq_some.mpr ⟨wiz_stored_first wiz after, ?_⟩
    rw [← stored_stored, length]
    rfl
  · rename_i straight
    refine wizGetN_eq_some.mpr ⟨wiz, ?_⟩
    rw [← get_eq_window inside fits, Ring.get, if_neg straight]

/-- The chip holds these bytes, and no others, and has raised no error. -/
structure Ready (g : Game) (bytes : List UInt8) : Prop where
  holds : Holds R g.chip bytes
  waiting : g.chip.rsr = bytes.length
  quiet : g.chip.ir &&& SK_IR_TOUT = 0 ∧ g.chip.ir &&& SK_IR_DISC = 0
  wiz : g.wiz = true

theorem Ready.window_front {front back : List UInt8} (ready : Ready g (front ++ back)) :
    window R RX_SIZE g.chip.memory (g.chip.rxRd % RX_SIZE) front.length = front := by
  rw [window_mod front.length (Nat.mod_mod g.chip.rxRd RX_SIZE)]
  exact ready.holds.front

theorem Ready.front_fits {front back : List UInt8} (ready : Ready g (front ++ back)) :
    front.length ≤ RX_SIZE := by
  have all := ready.holds.length_le
  rw [List.length_append] at all
  omega

theorem recv_quiet {c : Chip} {bit : UInt8} (apart : IR_RECV &&& bit = 0) (quiet : c.ir &&& bit = 0) :
    c.recv.ir &&& bit = 0 := by
  rw [Chip.recv]
  dsimp only
  split
  · exact quiet
  · show (c.ir ||| IR_RECV) &&& bit = 0
    rw [or_and_bits, quiet, apart]
    rfl

/-- The chip has the bytes of a chunk back. -/
theorem Ready.chunk {front back : List UInt8} (ready : Ready g (front ++ back)) (buf : Nat)
    (after : (g.stored buf front).wiz = true) : Ready (g.chunk buf front) back := by
  have moved : Holds R { g.chip with rxRd := (g.chip.rxRd + front.length) % 65536 } back :=
    (ready.holds.advance (Nat.mod_lt _ (by decide))).mpr rfl
  obtain ⟨holds, waiting⟩ := moved.recv
  exact ⟨holds, waiting, ⟨recv_quiet (by decide) ready.quiet.1, recv_quiet (by decide) ready.quiet.2⟩,
    after⟩

theorem Ready.chunkTry_eq {front back : List UInt8} (ready : Ready g (front ++ back)) (buf : Nat) :
    wizRecvChunkTry g buf front.length =
      (wizReadRing g (g.chip.rxRd % RX_SIZE) buf front.length).bind fun g' =>
        (wizRecv g' (g.chip.rxRd + front.length)).map fun g => (g, Errnum.OKAY) := by
  have enough : ¬g.chip.rsr < front.length := by
    rw [ready.waiting, List.length_append]
    omega
  rw [wizRecvChunkTry, if_neg (not_not_intro ready.wiz), if_neg (not_not_intro ready.quiet.1),
    if_neg (not_not_intro ready.quiet.2), if_neg enough]

theorem Ready.eq_of_chunkTry {front back : List UInt8} (ready : Ready g (front ++ back)) {buf : Nat}
    {e : Errnum} (tried : wizRecvChunkTry g buf front.length = some (g', e)) :
    e = .OKAY ∧ g' = g.chunk buf front ∧ (g.stored buf front).wiz = true := by
  rw [ready.chunkTry_eq] at tried
  obtain ⟨g₁, read, rest⟩ := Option.bind_eq_some_iff.mp tried
  have stored := eq_of_wizReadRing (Nat.mod_lt _ (by decide)) ready.front_fits read
  rw [ready.window_front] at stored
  obtain ⟨g₂, received, same⟩ := Option.map_eq_some_iff.mp rest
  rw [wizRecv] at received
  split at received
  · rename_i wiz
    rw [Prod.mk.injEq] at same
    rw [← same.1, ← same.2, ← Option.some.inj received, stored]
    exact ⟨rfl, rfl, stored ▸ wiz⟩
  · cases received

theorem Ready.chunkTry_of_wiz {front back : List UInt8} (ready : Ready g (front ++ back)) {buf : Nat}
    (after : (g.stored buf front).wiz = true) :
    wizRecvChunkTry g buf front.length = some (g.chunk buf front, .OKAY) := by
  have whole := ready.window_front
  rw [ready.chunkTry_eq, wizReadRing_of_wiz (Nat.mod_lt _ (by decide)) ready.front_fits ready.wiz
    (by rw [whole]; exact after), whole, Option.bind_some, wizRecv, if_pos after]
  rfl

/-- Nothing is stored outside of `Vars->buffer`, or nothing new. -/
def Keeps (g : Game) (buf : Nat) (data : List UInt8) : Prop :=
  ∀ a, ¬InBuffer a → store g.memory buf data a = g.memory a

theorem Keeps.wiz {buf : Nat} {data : List UInt8} (keeps : Keeps g buf data) (wiz : g.wiz = true) :
    (g.stored buf data).wiz = true := by
  rw [wiz_iff] at wiz ⊢
  refine ⟨(keeps CASBUF (by decide)).trans wiz.1, (keeps (CASBUF + 1) (by decide)).trans wiz.2⟩

theorem keeps_buffer {data : List UInt8} (small : data.length ≤ 80) : Keeps g bufferAddr data := by
  intro a outside
  rw [InBuffer] at outside
  by_cases before : a < bufferAddr
  · exact store_apply_of_before _ _ before
  · exact store_apply_of_after _ (by omega)

/-- Bytes that go to address 0 are there already. -/
theorem keeps_zero_iff {data : List UInt8} : Keeps g 0 data ↔
    ∀ a < data.length, ¬InBuffer a → data.getD a 0 = g.memory a := by
  have read : ∀ a (inside : a < data.length), store g.memory 0 data a = data.getD a 0 := by
    intro a inside
    have same := @store_apply_of_lt _ g.memory 0 a data inside
    rw [Nat.zero_add] at same
    rw [same, List.getD_eq_getElem?_getD, List.getElem?_eq_getElem inside, Option.getD_some]
  constructor
  · intro keeps a inside outside
    rw [← read a inside]
    exact keeps a outside
  · intro same a outside
    by_cases inside : a < data.length
    · rw [read a inside]
      exact same a inside outside
    · exact store_apply_of_after _ (by omega)

/-! ### A packet -/

theorem Agrees.ready (agrees : Agrees g e) : Ready g (allBytes e.queue) :=
  ⟨agrees.holds, agrees.waiting, agrees.quiet, agrees.wiz⟩

theorem getD_stored {memory : Nat → UInt8} {buf i : Nat} {data : List UInt8}
    (inside : i < data.length) : store memory buf data (buf + i) = data.getD i 0 := by
  rw [store_apply_of_lt _ inside, List.getD_eq_getElem?_getD, List.getElem?_eq_getElem inside,
    Option.getD_some]

theorem wizRecvChunk_of_wiz {front back : List UInt8} (ready : Ready g (front ++ back)) {buf : Nat}
    (after : (g.stored buf front).wiz = true) (rounds : Nat) :
    wizRecvChunk (rounds + 1) g buf front.length = some (g.chunk buf front) := by
  rw [wizRecvChunk, ready.chunkTry_of_wiz after, Option.bind_some]
  exact if_neg nofun

theorem eq_of_wizRecvChunk {front back : List UInt8} (ready : Ready g (front ++ back)) {buf rounds : Nat}
    (received : wizRecvChunk (rounds + 1) g buf front.length = some g') :
    g' = g.chunk buf front := by
  rw [wizRecvChunk] at received
  obtain ⟨⟨g₁, e⟩, tried, rest⟩ := Option.bind_eq_some_iff.mp received
  obtain ⟨rfl, rfl, -⟩ := ready.eq_of_chunkTry tried
  exact (Option.some.inj rest).symm

/-- After the header is read, the packet is a broadcast, or is read to address 0. -/
theorem check_of_cons (agrees : Agrees g e) (plays : g.memory modeAddr ≠ 0x53) {d : Datagram}
    {rest : List Datagram} (queue : e.queue = d :: rest) (rounds : Nat) :
    let g₁ := g.chunk bufferAddr d.header
    Ready g₁ (d.data ++ allBytes rest) ∧ (∀ a, ¬InBuffer a → g₁.memory a = e.memory a) ∧
      checkIncomingPackets rounds g =
        if Broadcast d then (wizRecvChunk rounds g₁ bufferAddr d.data.length).map
          processIncomingPacket
        else wizRecvChunk rounds g₁ 0 d.data.length := by
  intro g₁
  have ready : Ready g (d.header ++ (d.data ++ allBytes rest)) := by
    rw [← List.append_assoc, ← d.bytes_eq, ← allBytes_cons, ← queue]
    exact agrees.ready
  have keeps : Keeps g bufferAddr d.header := keeps_buffer (by rw [d.length_header]; decide)
  have small : d.data.length < 65536 := by
    have all := ready.holds.length_le
    rw [List.length_append, List.length_append] at all
    simp only [RX_SIZE] at all
    omega
  have byte : ∀ i < 8, g₁.memory (bufferAddr + i) = d.header.getD i 0 := by
    intro i inside
    exact getD_stored (by rw [d.length_header]; exact inside)
  refine ⟨ready.chunk bufferAddr (keeps.wiz ready.wiz), ?_, ?_⟩
  · exact fun a outside => (keeps a outside).trans (agrees.memory a outside)
  · have tried := ready.chunkTry_of_wiz (keeps.wiz ready.wiz)
    rw [d.length_header, UDP_HEADER] at tried
    rw [checkIncomingPackets, if_neg plays, tried, Option.bind_some]
    dsimp only
    rw [if_pos rfl]
    show (if hiLo (g₁.memory (bufferAddr + 4)) (g₁.memory (bufferAddr + 5)) = SPACE_WAR_PORT ∧
      hiLo (g₁.memory (bufferAddr + 6)) (g₁.memory (bufferAddr + 7)) = sizeofPayload then _ else _) = _
    rw [byte 4 (by decide), byte 5 (by decide), byte 6 (by decide), byte 7 (by decide),
      (d.header_fields small).1, d.getD_header (i := 0) (by decide), d.getD_header (i := 1) (by decide)]
    rfl

theorem store_apply_congr {first second : Nat → UInt8} {a : Nat} (same : first a = second a)
    (addr : Nat) (data : List UInt8) : store first addr data a = store second addr data a := by
  rw [store, store, same]

/-- A part of the packet, in the buffer. -/
theorem load_buffer {memory : Nat → UInt8} {data : List UInt8}
    (held : ∀ i < data.length, memory (bufferAddr + i) = data.getD i 0) {skip count : Nat}
    (inside : skip + count ≤ data.length) :
    load memory (bufferAddr + skip) count = (data.drop skip).take count := by
  refine List.ext_getElem? fun i => ?_
  rw [List.getElem?_take, List.getElem?_drop]
  by_cases near : i < count
  · rw [getElem?_load _ _ near, if_pos near, Nat.add_assoc, held _ (by omega),
      List.getD_eq_getElem?_getD, List.getElem?_eq_getElem (by omega), Option.getD_some]
  · rw [if_neg near]
    exact List.getElem?_eq_none (by rw [length_load]; omega)

/-- The ship and the missile of a broadcast are stored, and nothing else. -/
theorem memory_processIncomingPacket {d : Datagram} {memory : Nat → UInt8} (broadcast : Broadcast d)
    (held : ∀ i < d.data.length, g.memory (bufferAddr + i) = d.data.getD i 0)
    (same : ∀ a, ¬InBuffer a → g.memory a = memory a) {a : Nat} (outside : ¬InBuffer a) :
    (processIncomingPacket g).memory a = delivered memory d a := by
  have length : d.data.length = 50 := broadcast.2
  have magic : g.memory bufferAddr = d.data.getD 0 0 := held 0 (by omega)
  have num : g.memory (bufferAddr + 1) = d.data.getD 1 0 := held 1 (by omega)
  rw [processIncomingPacket, delivered, magic, num]
  by_cases right : d.data.getD 0 0 = 0xAA
  · rw [if_neg (not_not_intro right)]
    by_cases inRange : (d.data.getD 1 0).toNat < NUM_SHIPS
    · rw [if_neg (Nat.not_le.mpr inRange), if_pos ⟨broadcast, right, inRange⟩]
      dsimp only
      have ship : load g.memory (bufferAddr + 2) sizeofBody = (d.data.drop 2).take sizeofBody :=
        load_buffer held (by rw [length]; decide)
      -- the ship is stored in front of the buffer
      have missile : load (store g.memory (shipAddr + (d.data.getD 1 0).toNat * sizeofBody)
          ((d.data.drop 2).take sizeofBody)) (bufferAddr + (2 + sizeofBody)) sizeofBody =
            (d.data.drop (2 + sizeofBody)).take sizeofBody := by
        rw [load_store_of_apart]
        · exact load_buffer held (by rw [length]; decide)
        · right
          rw [List.length_take, List.length_drop, length]
          simp only [shipAddr, bufferAddr, sizeofBody, NUM_SHIPS] at inRange ⊢
          omega
      rw [ship, Nat.add_assoc bufferAddr, missile]
      exact store_apply_congr (store_apply_congr (same a outside) _ _) _ _
    · rw [if_pos (Nat.not_lt.mp inRange), if_neg (fun all => inRange all.2.2)]
      exact same a outside
  · rw [if_pos right, if_neg (fun all => right all.2.1)]
    exact same a outside

theorem chip_processIncomingPacket (g : Game) : (processIncomingPacket g).chip = g.chip := by
  rw [processIncomingPacket]
  split
  · rfl
  · dsimp only
    split
    · rfl
    · rfl

theorem port_processIncomingPacket (g : Game) : (processIncomingPacket g).port = g.port := by
  rw [processIncomingPacket]
  split
  · rfl
  · dsimp only
    split
    · rfl
    · rfl

/-- What is delivered leaves `Vars->wiz_port` and `Vars->mode` alone. -/
theorem delivered_of_before (memory : Nat → UInt8) (d : Datagram) {a : Nat} (before : a < shipAddr) :
    delivered memory d a = memory a := by
  rw [delivered]
  split
  · rw [store_apply_of_before _ _ (by simp only [shipAddr, missileAddr] at *; omega),
      store_apply_of_before _ _ (by omega)]
  · rfl

/-- A broadcast is taken as it is meant. -/
theorem agrees_of_broadcast {d : Datagram} {rest : List Datagram}
    (ready : Ready g (d.data ++ allBytes rest)) (same : ∀ a, ¬InBuffer a → g.memory a = e.memory a)
    (broadcast : Broadcast d) (rounds : Nat) :
    ∃ g', (wizRecvChunk (rounds + 1) g bufferAddr d.data.length).map processIncomingPacket = some g' ∧
      Agrees g' ⟨rest, delivered e.memory d⟩ := by
  have keeps : Keeps g bufferAddr d.data := keeps_buffer (by rw [broadcast.2]; decide)
  have taken := ready.chunk bufferAddr (keeps.wiz ready.wiz)
  refine ⟨_, by rw [wizRecvChunk_of_wiz ready (keeps.wiz ready.wiz), Option.map_some], ?_⟩
  have memory : ∀ {a}, ¬InBuffer a →
      (processIncomingPacket (g.chunk bufferAddr d.data)).memory a = delivered e.memory d a :=
    fun outside => memory_processIncomingPacket broadcast (fun i inside => getD_stored inside)
      (fun a outside => (keeps a outside).trans (same a outside)) outside
  refine ⟨?_, ?_, ?_, ?_, fun a outside => memory outside⟩
  · rw [chip_processIncomingPacket]
    exact taken.holds
  · rw [chip_processIncomingPacket]
    exact taken.waiting
  · rw [chip_processIncomingPacket]
    exact taken.quiet
  · have wiz := wiz_iff.mp ready.wiz
    rw [wiz_iff, port_processIncomingPacket, memory (by decide), memory (by decide),
      delivered_of_before _ _ (by decide), delivered_of_before _ _ (by decide),
      ← same _ (by decide), ← same _ (by decide)]
    exact wiz

/-- Another packet is taken as it is meant just when its bytes are at address 0 already. -/
theorem agrees_iff_of_not_broadcast {d : Datagram} {rest : List Datagram}
    (ready : Ready g (d.data ++ allBytes rest)) (same : ∀ a, ¬InBuffer a → g.memory a = e.memory a)
    (rounds : Nat) :
    (∃ g', wizRecvChunk (rounds + 1) g 0 d.data.length = some g' ∧ Agrees g' ⟨rest, e.memory⟩) ↔
      ∀ a < d.data.length, ¬InBuffer a → d.data.getD a 0 = e.memory a := by
  have there : (∀ a < d.data.length, ¬InBuffer a → d.data.getD a 0 = e.memory a) ↔
      Keeps g 0 d.data := by
    rw [keeps_zero_iff]
    refine forall₃_congr fun a _ outside => ?_
    rw [same a outside]
  rw [there]
  constructor
  · rintro ⟨g', received, agrees⟩ a outside
    obtain rfl := eq_of_wizRecvChunk ready received
    exact (agrees.memory a outside).trans (same a outside).symm
  · intro keeps
    have taken := ready.chunk 0 (keeps.wiz ready.wiz)
    exact ⟨_, wizRecvChunk_of_wiz ready (keeps.wiz ready.wiz) rounds, taken.holds, taken.waiting,
      taken.quiet, taken.wiz, fun a outside => (keeps a outside).trans (same a outside)⟩

/-! ### Steps and runs -/

theorem delivered_of_not_broadcast {d : Datagram} (other : ¬Broadcast d) (memory : Nat → UInt8) :
    delivered memory d = memory := if_neg fun all => other all.1

theorem Agrees.arrive (agrees : Agrees g e) (d : Datagram) : ∃ e',
    expectedStep e (.arrive d) = some e' ∧ Agrees { g with chip := g.chip.arrive R d } e' := by
  rw [expectedStep]
  by_cases room : (allBytes e.queue).length + d.bytes.length ≤ RX_SIZE
  · have fits : g.chip.rsr + d.bytes.length ≤ RX_SIZE := by
      rw [agrees.waiting]
      exact room
    have holds := agrees.holds.arrive fits
    have bytes : allBytes (e.queue ++ [d]) = allBytes e.queue ++ d.bytes := by
      rw [allBytes_append, allBytes_cons]
      exact congrArg _ (List.append_nil _)
    refine ⟨_, if_pos room, ?_, ?_, ?_, agrees.wiz, agrees.memory⟩
    · show Holds R (g.chip.arrive R d) (allBytes (e.queue ++ [d]))
      rw [bytes]
      exact holds
    · have before := agrees.holds.behind
      have after := holds.behind
      have waiting := agrees.waiting
      show (g.chip.arrive R d).rsr = (allBytes (e.queue ++ [d])).length
      rw [bytes, after]
      rw [arrive_of_room fits] at after ⊢
      dsimp only at after ⊢
      omega
    · rw [arrive_of_room fits]
      constructor
      · show (g.chip.ir ||| IR_RECV) &&& SK_IR_TOUT = 0
        rw [or_and_bits, agrees.quiet.1]
        decide
      · show (g.chip.ir ||| IR_RECV) &&& SK_IR_DISC = 0
        rw [or_and_bits, agrees.quiet.2]
        decide
  · have full : ¬g.chip.rsr + d.bytes.length ≤ RX_SIZE := by
      rw [agrees.waiting]
      exact room
    rw [arrive_of_full full]
    exact ⟨e, if_neg room, agrees⟩

theorem exists_check_iff (agrees : Agrees g e) (rounds : Nat) :
    (∃ g' e', checkIncomingPackets (rounds + 1) g = some g' ∧ expectedStep e .check = some e' ∧
      Agrees g' e') ↔ Harmless e .check := by
  have mode : g.memory modeAddr = e.memory modeAddr := agrees.memory _ (by decide)
  rw [expectedStep, Harmless]
  by_cases solo : e.memory modeAddr = 0x53
  · rw [if_pos solo, checkIncomingPackets, if_pos (mode.trans solo)]
    exact iff_of_true ⟨g, e, rfl, rfl, agrees⟩ (.inl solo)
  · rw [if_neg solo, or_iff_right solo]
    have plays : g.memory modeAddr ≠ 0x53 := by
      rw [mode]
      exact solo
    cases queue : e.queue with
    | nil =>
      have few : g.chip.rsr < 8 := by
        rw [agrees.waiting, queue]
        exact Nat.zero_lt_succ 7
      have ready := agrees.ready
      refine iff_of_true ⟨g, e, ?_, rfl, agrees⟩ nofun
      rw [checkIncomingPackets, if_neg plays, wizRecvChunkTry, if_neg (not_not_intro ready.wiz),
        if_neg (not_not_intro ready.quiet.1), if_neg (not_not_intro ready.quiet.2), if_pos few,
        Option.bind_some]
      exact if_neg nofun
    | cons d rest =>
      obtain ⟨ready, same, checked⟩ := check_of_cons agrees plays queue (rounds + 1)
      have here : (∀ d' rest', d :: rest = d' :: rest' → Broadcast d' ∨
          ∀ a < d'.data.length, ¬InBuffer a → d'.data.getD a 0 = e.memory a) ↔
          (Broadcast d ∨ ∀ a < d.data.length, ¬InBuffer a → d.data.getD a 0 = e.memory a) :=
        ⟨fun each => each d rest rfl, fun this d' rest' eq => by cases eq; exact this⟩
      have one : (∃ g' e', checkIncomingPackets (rounds + 1) g = some g' ∧
          some (Expected.mk rest (delivered e.memory d)) = some e' ∧ Agrees g' e') ↔
          ∃ g', checkIncomingPackets (rounds + 1) g = some g' ∧
            Agrees g' ⟨rest, delivered e.memory d⟩ := by
        constructor
        · rintro ⟨g', e', reached, same', agrees'⟩
          exact ⟨g', reached, Option.some.inj same' ▸ agrees'⟩
        · rintro ⟨g', reached, agrees'⟩
          exact ⟨g', _, reached, rfl, agrees'⟩
      dsimp only
      rw [here, one, checked]
      by_cases broadcast : Broadcast d
      · rw [if_pos broadcast]
        exact iff_of_true (agrees_of_broadcast ready same broadcast rounds) (.inl broadcast)
      · rw [if_neg broadcast, or_iff_right broadcast, delivered_of_not_broadcast broadcast]
        exact agrees_iff_of_not_broadcast ready same rounds

theorem exists_step_iff (agrees : Agrees g e) (rounds : Nat) (action : Action) :
    (∃ g' e', step (rounds + 1) g action = some g' ∧ expectedStep e action = some e' ∧
      Agrees g' e') ↔ Harmless e action := by
  cases action with
  | arrive d =>
    obtain ⟨e', arrived, agrees'⟩ := agrees.arrive d
    exact iff_of_true ⟨_, e', rfl, arrived, agrees'⟩ trivial
  | check => exact exists_check_iff agrees rounds

theorem follows_nil (rounds : Nat) : Follows rounds g e [] ↔ Agrees g e := by
  constructor
  · intro follows
    obtain ⟨g', e', here, there, agrees⟩ := follows [] [] rfl
    rw [Option.some.inj here, Option.some.inj there]
    exact agrees
  · rintro agrees before after empty
    obtain ⟨rfl, rfl⟩ := List.append_eq_nil_iff.mp empty.symm
    exact ⟨g, e, rfl, rfl, agrees⟩

theorem follows_cons (rounds : Nat) (agrees : Agrees g e) (action : Action) (rest : List Action) :
    Follows rounds g e (action :: rest) ↔ ∃ g' e', step rounds g action = some g' ∧
      expectedStep e action = some e' ∧ Agrees g' e' ∧ Follows rounds g' e' rest := by
  constructor
  · intro follows
    obtain ⟨g', e', here, there, agrees'⟩ := follows [action] rest rfl
    obtain ⟨g₁, taken, same⟩ := run_cons_eq_some.mp here
    obtain ⟨e₁, taken', same'⟩ := run_cons_eq_some.mp there
    cases same
    cases same'
    refine ⟨g', e', taken, taken', agrees', fun before after split => ?_⟩
    obtain ⟨g'', e'', reached, reached', agrees''⟩ := follows (action :: before) after (by rw [split]; rfl)
    obtain ⟨g₂, first, onward⟩ := run_cons_eq_some.mp reached
    obtain ⟨e₂, first', onward'⟩ := run_cons_eq_some.mp reached'
    cases taken.symm.trans first
    cases taken'.symm.trans first'
    exact ⟨g'', e'', onward, onward', agrees''⟩
  · rintro ⟨g', e', taken, taken', agrees', follows⟩ before after split
    cases before with
    | nil => exact ⟨g, e, rfl, rfl, agrees⟩
    | cons first before =>
      rw [List.cons_append, List.cons.injEq] at split
      obtain ⟨rfl, rfl⟩ := split
      obtain ⟨g'', e'', reached, reached', agrees''⟩ := follows before after rfl
      exact ⟨g'', e'', run_cons_eq_some.mpr ⟨g', taken, reached⟩,
        run_cons_eq_some.mpr ⟨e', taken', reached'⟩, agrees''⟩

/-- The program does as it is meant just as long as every packet that is no broadcast is at address
0 already. -/
theorem follows_iff_harmless (rounds : Nat) (agrees : Agrees g e) (actions : List Action) :
    Follows (rounds + 1) g e actions ↔ Meets expectedStep Harmless e actions := by
  induction actions generalizing g e with
  | nil =>
    rw [follows_nil]
    exact iff_of_true agrees trivial
  | cons action rest inductionHypothesis =>
    rw [follows_cons _ agrees]
    constructor
    · rintro ⟨g', e', taken, taken', agrees', follows⟩
      rw [meets_cons_of_taken taken']
      exact ⟨(exists_step_iff agrees rounds action).mp ⟨g', e', taken, taken', agrees'⟩,
        (inductionHypothesis agrees').mp follows⟩
    · rintro ⟨harmless, onward⟩
      obtain ⟨g', e', taken, taken', agrees'⟩ := (exists_step_iff agrees rounds action).mpr harmless
      exact ⟨g', e', taken, taken', agrees',
        (inductionHypothesis agrees').mpr (onward e' taken')⟩

end

/-! ### Two packets that do no harm, and one that does -/

/-- A game of two ships, with its chip at 0xFF68. -/
def ownMemory : Nat → UInt8 := fun a =>
  if a = CASBUF then 0xFF else if a = CASBUF + 1 then 0x68 else if a = modeAddr then 0x47 else 9

/-- Nothing has come yet, and the next header goes over the end of the ring. -/
def playing : Game := ⟨⟨fun _ => 0, 2044, 2044, 2044, 0, 0, []⟩, ownMemory, (0xFF, 0x68)⟩

theorem agrees_playing : Agrees playing ⟨[], ownMemory⟩ :=
  ⟨⟨rfl, by decide, by decide, rfl, by decide, rfl⟩, rfl, ⟨rfl, rfl⟩, rfl, fun _ _ => rfl⟩

/-- The second ship and its missile. -/
def otherShip : Datagram :=
  ⟨[10, 0, 0, 2], [0x0C, 0x8A],
    [0xAA, 1] ++ List.replicate 20 5 ++ List.replicate 20 6 ++ List.replicate 8 0, rfl, rfl⟩

/-- A packet without data, from another port. -/
def emptyPacket : Datagram := ⟨[10, 0, 0, 1], [0, 7], [], rfl, rfl⟩

theorem expectedStep_check {e : Expected} {d : Datagram} {rest : List Datagram}
    (plays : e.memory modeAddr ≠ 0x53) (queue : e.queue = d :: rest) :
    expectedStep e .check = some ⟨rest, delivered e.memory d⟩ := by
  rw [expectedStep, if_neg plays, queue]

/-- The broadcast is taken, the empty packet changes nothing, and then nothing is waiting. -/
theorem follows_otherShip :
    Follows 1 playing ⟨[], ownMemory⟩
        [.check, .arrive otherShip, .arrive emptyPacket, .check, .check, .check] ∧
      delivered ownMemory otherShip (shipAddr + sizeofBody) = 5 ∧
      delivered ownMemory otherShip (missileAddr + sizeofBody) = 6 := by
  refine ⟨(follows_iff_harmless 0 agrees_playing _).mpr ?_, by decide +kernel,
    by decide +kernel⟩
  have nothing : ∀ memory, Harmless ⟨[], memory⟩ .check := by
    refine fun memory => .inr fun d rest queue => ?_
    cases queue
  have start : expectedStep ⟨[], ownMemory⟩ .check = some ⟨[], ownMemory⟩ := by
    rw [expectedStep, if_neg (by decide)]
  have first : expectedStep ⟨[], ownMemory⟩ (.arrive otherShip) =
      some ⟨[otherShip], ownMemory⟩ := by
    rw [expectedStep, if_pos (by decide +kernel)]
    rfl
  have second : expectedStep ⟨[otherShip], ownMemory⟩ (.arrive emptyPacket) =
      some ⟨[otherShip, emptyPacket], ownMemory⟩ := by
    rw [expectedStep, if_pos (by decide +kernel)]
    rfl
  have third : expectedStep ⟨[otherShip, emptyPacket], ownMemory⟩ .check =
      some ⟨[emptyPacket], delivered ownMemory otherShip⟩ :=
    expectedStep_check (by decide) rfl
  have mode : delivered ownMemory otherShip modeAddr ≠ 0x53 := by
    rw [delivered_of_before _ _ (by decide)]
    decide
  generalize delivered ownMemory otherShip = memory at third mode
  have fourth : expectedStep ⟨[emptyPacket], memory⟩ .check = some ⟨[], memory⟩ := by
    rw [expectedStep_check mode rfl, delivered_of_not_broadcast (by decide)]
  refine (meets_cons_of_taken start).mpr ⟨nothing _, ?_⟩
  refine (meets_cons_of_taken first).mpr ⟨trivial, ?_⟩
  refine (meets_cons_of_taken second).mpr ⟨trivial, ?_⟩
  refine (meets_cons_of_taken third).mpr ⟨.inr fun d rest queue => ?_, ?_⟩
  · cases queue
    exact .inl (by decide)
  refine (meets_cons_of_taken fourth).mpr
    ⟨.inr fun d rest queue => ?_, nothing _, fun _ _ => trivial⟩
  cases queue
  exact .inr fun a inside => absurd inside (Nat.not_lt_zero a)

/-- Nothing has come yet, and all of the memory is 0. -/
def quietGame : Game :=
  ⟨⟨fun _ => 0, 0, 0, 0, 0, 0, []⟩, fun _ => 0, (0, 0)⟩

theorem agrees_quietGame : Agrees quietGame ⟨[], fun _ => 0⟩ :=
  ⟨⟨rfl, by decide, by decide, rfl, by decide, rfl⟩, rfl, ⟨rfl, rfl⟩, rfl, fun _ _ => rfl⟩

/-- A packet of one byte, from another port. -/
def strayPacket : Datagram := ⟨[10, 0, 0, 1], [0, 7], [7], rfl, rfl⟩

/-- The byte of the stray packet is stored at address 0. -/
theorem not_follows_strayPacket :
    ¬Follows 1 quietGame ⟨[], fun _ => 0⟩ [.arrive strayPacket, .check] := by
  intro follows
  obtain ⟨g', e', -, arrived, agrees, onward⟩ := (follows_cons 1 agrees_quietGame _ _).mp follows
  obtain rfl : ⟨[strayPacket], fun _ => 0⟩ = e' := Option.some.inj arrived
  obtain ⟨g'', e'', checked, taken, agrees', -⟩ := (follows_cons 1 agrees _ _).mp onward
  have harmless := (exists_check_iff agrees 0).mp ⟨g'', e'', checked, taken, agrees'⟩
  rcases harmless with solo | each
  · exact absurd solo (by decide)
  · rcases each strayPacket [] rfl with broadcast | there
    · exact absurd broadcast (by decide)
    · exact absurd (there 0 (by decide) (by decide)) (by decide)

end Frobio.Spacewar
