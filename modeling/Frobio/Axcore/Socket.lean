/-
This file models the sending and receiving of `axiom41/axcore.c`, from `WizCheck` to
`TcpSend`.

Every time the program turns to the chip, the chip may have gone on: `schedule` says
with which events, from the start of the run on. A loop that waits for the chip is
given the number of rounds it may take, and has no result if it takes more. A call
gives its error number, what it put in the buffer, and the world after it.
-/

import Frobio.Axcore.Chip

namespace Frobio.Axcore

open Memory Ring

def TCP_CHUNK_SIZE : Nat := 1024

def OKAY : UInt8 := 0

def NOTYET : UInt8 := 1

structure World where
  chip : Chip
  /-- How often the program has turned to the chip. -/
  turns : Nat

variable (sock : Sock) (schedule : Nat → List Event)

/-- Turn to the chip. -/
def access (w : World) : World :=
  ⟨(schedule w.turns).foldl (Chip.event sock) w.chip, w.turns + 1⟩

def wizCheck (w : World) : UInt8 × World :=
  let w := access sock schedule w
  if w.chip.ir &&& SK_IR_TOUT ≠ 0 then (SK_IR_TOUT, w)
  else if w.chip.ir &&& SK_IR_DISC ≠ 0 then (SK_IR_DISC, w)
  else (OKAY, w)

/-! ### Receiving -/

def wizRecvGetBytesWaiting (w : World) : UInt8 × Nat × World :=
  let (e, w) := wizCheck sock schedule w
  if e ≠ OKAY then (e, 0, w)
  else
    let w := access sock schedule w
    (OKAY, w.chip.rxRsr, w)

def wizRecvChunkTry (w : World) (n : Nat) : UInt8 × List UInt8 × World :=
  let (e, bytesWaiting, w) := wizRecvGetBytesWaiting sock schedule w
  if e ≠ OKAY then (e, [], w)
  else if bytesWaiting < n then (NOTYET, [], w)
  else
    let w := access sock schedule w
    let rd := w.chip.rxRd
    let w := access sock schedule w
    let buf := get sock.rxRing RING_SIZE w.chip.memory (rd % RING_SIZE) n
    let w := access sock schedule w
    let w := { w with chip := { w.chip with rxRd := (rd + n) % 65536 } }
    -- the command RECV
    let w := access sock schedule w
    (OKAY, buf, { w with chip := { w.chip with rxStart := w.chip.rxRd } })

def wizRecvChunk : Nat → World → Nat → Option (UInt8 × List UInt8 × World)
  | 0, _, _ => none
  | rounds + 1, w, n =>
    match wizRecvChunkTry sock schedule w n with
    | (e, buf, w) => if e = NOTYET then wizRecvChunk rounds w n else some (e, buf, w)

def chunkOf (n : Nat) : Nat := if n < TCP_CHUNK_SIZE then n else TCP_CHUNK_SIZE

def tcpRecv : Nat → World → Nat → Option (UInt8 × List UInt8 × World)
  | 0, _, _ => none
  | rounds + 1, w, n =>
    if n = 0 then some (OKAY, [], w)
    else
      match wizRecvChunk sock schedule rounds w (chunkOf n) with
      | none => none
      | some (e, buf, w) =>
        if e ≠ OKAY then some (e, buf, w)
        else
          match tcpRecv rounds w (n - chunkOf n) with
          | none => none
          | some (e, rest, w) => some (e, buf ++ rest, w)

/-! ### Sending -/

def wizReserveToSend : Nat → World → Nat → Option (Nat × World)
  | 0, _, _ => none
  | rounds + 1, w, n =>
    let w := access sock schedule w
    if w.chip.txFsr < n then wizReserveToSend rounds w n
    else
      let w := access sock schedule w
      some (w.chip.txWr % RING_SIZE, w)

def wizDataToSend (w : World) (txPtr : Nat) (data : List UInt8) : World :=
  let w := access sock schedule w
  { w with chip :=
    { w.chip with memory := put sock.txRing RING_SIZE w.chip.memory txPtr data } }

def wizFinalizeSend (w : World) (n : Nat) : World :=
  let w := access sock schedule w
  let txWr := (w.chip.txWr + n) % 65536
  let w := access sock schedule w
  let w := { w with chip := { w.chip with txWr } }
  -- the command SEND
  let w := access sock schedule w
  { w with chip := { w.chip with txEnd := w.chip.txWr } }

def wizSendChunk (rounds : Nat) (w : World) (data : List UInt8) : Option (UInt8 × World) :=
  let (e, w) := wizCheck sock schedule w
  if e ≠ OKAY then some (e, w)
  else
    match wizReserveToSend sock schedule rounds w data.length with
    | none => none
    | some (txPtr, w) =>
      let w := wizDataToSend sock schedule w txPtr data
      some (OKAY, wizFinalizeSend sock schedule w data.length)

def tcpSend : Nat → World → List UInt8 → Option (UInt8 × World)
  | 0, _, _ => none
  | rounds + 1, w, p =>
    if p.length = 0 then some (OKAY, w)
    else
      match wizSendChunk sock schedule rounds w (p.take (chunkOf p.length)) with
      | none => none
      | some (e, w) =>
        if e ≠ OKAY then some (e, w)
        else tcpSend rounds w (p.drop (chunkOf p.length))

/-! ### Calls -/

inductive Call
  | send (p : List UInt8)
  | recv (n : Nat)

/-- What a call gives back: its error number, and what it put in the buffer. -/
abbrev Returned := UInt8 × List UInt8

def call (rounds : Nat) (w : World) : Call → Option (Returned × World)
  | .send p =>
    match tcpSend sock schedule rounds w p with
    | none => none
    | some (e, w) => some ((e, []), w)
  | .recv n =>
    match tcpRecv sock schedule rounds w n with
    | none => none
    | some (e, buf, w) => some ((e, buf), w)

/-- One call after the other. -/
def calls (rounds : Nat) : World → List Call → Option (List Returned × World)
  | w, [] => some ([], w)
  | w, first :: rest =>
    match call sock schedule rounds w first with
    | none => none
    | some (returned, w) =>
      match calls rounds w rest with
      | none => none
      | some (others, w) => some (returned :: others, w)

end Frobio.Axcore
