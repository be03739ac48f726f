/-
This file puts one connection of the conduit between its two ends: the client of
`drivers/rblemmac.c`, which has at most one block request outstanding, and the
block requests of `ReadFiveLoop` in `lemma/waiter.go`.

The client and the server each handle one request in one step. What they read and
write on the way is at the end of a queue that nobody else reads, so nothing can
be told apart that finer steps would show.

The log is the client's own view of the disk: every block it wrote and every block
it was given, the newest first.
-/

import Frobio.Conduit.Transparency
import Frobio.Lib.Positional

namespace Frobio.Conduit

open Coms Run Positional

/-! ### The disk -/

/-- The logical sector `SeekSectorReturnLSN` seeks: `(int64(n&255) << 16) | int64(p)`. -/
def SeekSectorReturnLSN (n p : Nat) : Nat := n % 256 * 65536 + p

/-- `block0.Read(buf)` after the seek. A read at the end of the file leaves the zeros of
`make([]byte, 256)`; a short read is a panic. -/
def readSector (disk : List UInt8) (lsn : Nat) : Option Block :=
  let buf := readAt (256 * lsn) 256 disk
  if buf.length = 0 ∨ buf.length = 256 then some (Block.copy buf) else none

/-- `block0.Write(buf)` after the seek. -/
def writeSector (disk : List UInt8) (lsn : Nat) (buf : List UInt8) : List UInt8 :=
  writeAt 0 (256 * lsn) buf disk

/-- What the sector reads as, a sector past the end of the disk included. -/
def sector (disk : List UInt8) (lsn : Nat) : Block := Block.copy (readAt (256 * lsn) 256 disk)

theorem readSector_eq_some {disk : List UInt8} {lsn : Nat} {block : Block}
    (read : readSector disk lsn = some block) : block = sector disk lsn := by
  unfold readSector at read
  dsimp only at read
  split at read
  · exact (Option.some_inj.mp read).symm
  · cases read

theorem Block.eq_of_getD {first second : Block}
    (same : ∀ position < 256, first.bytes.getD position 0 = second.bytes.getD position 0) :
    first = second := by
  obtain ⟨first, firstSize⟩ := first
  obtain ⟨second, secondSize⟩ := second
  rw [Block.mk.injEq]
  refine List.ext_getElem (firstSize.trans secondSize.symm) fun position inFirst inSecond => ?_
  simpa [inFirst, inSecond] using same position (firstSize ▸ inFirst)

theorem Block.getD_copy (payload : List UInt8) {position : Nat} (inside : position < 256) :
    (Block.copy payload).bytes.getD position 0 = payload.getD position 0 := by
  simp only [Block.copy, List.getD_eq_getElem?_getD]
  by_cases covered : position < payload.length
  · rw [List.getElem?_append_left (by rw [List.length_take]; omega), List.getElem?_take,
      if_pos inside]
  · rw [List.getElem?_append_right (by rw [List.length_take]; omega), List.getElem?_replicate,
      List.getElem?_eq_none (by omega)]
    split <;> rfl

theorem getD_sector (disk : List UInt8) (lsn : Nat) {position : Nat} (inside : position < 256) :
    (sector disk lsn).bytes.getD position 0 = disk.getD (256 * lsn + position) 0 := by
  rw [sector, Block.getD_copy _ inside, getD_readAt, if_pos inside]

/-- A write changes the sector it is made to and no other. -/
theorem sector_writeSector (disk : List UInt8) (written : Nat) (block : Block) (lsn : Nat) :
    sector (writeSector disk written block.bytes) lsn =
      if lsn = written then block else sector disk lsn := by
  refine Block.eq_of_getD fun position inside => ?_
  rw [getD_sector _ _ inside, writeSector, getD_writeAt, block.size]
  by_cases same : lsn = written
  · subst same
    rw [if_pos (by omega), if_pos rfl]
    congr 1
    omega
  · rw [if_neg (by omega), if_neg same, getD_sector _ _ inside]

/-! ### The client's log -/

inductive Op
  /-- The client wrote the block to the logical sector. -/
  | wrote (lsn : Nat) (block : Block)
  /-- The client read the logical sector and was given the block. -/
  | got (lsn : Nat) (block : Block)
  deriving DecidableEq

/-- The block most recently written to a sector, the initial one if none ever was. -/
def latest (initial : Nat → Block) : List Op → Nat → Block
  | [], lsn => initial lsn
  | .wrote written block :: older, lsn =>
    if lsn = written then block else latest initial older lsn
  | .got _ _ :: older, lsn => latest initial older lsn

/-- Every block the client was given is the one most recently written to its sector. -/
def Coherent (initial : Nat → Block) : List Op → Prop
  | [] => True
  | .wrote _ _ :: older => Coherent initial older
  | .got lsn block :: older => block = latest initial older lsn ∧ Coherent initial older

/-! ### The two ends -/

/-- Where the client stands in `BlockRead` or `BlockWrite`. -/
inductive Client
  | idle
  /-- `BlockRead` sent the quint. -/
  | blockRead (q : Quint)
  /-- `BlockWrite` sent the quint and the buffer. -/
  | blockWrite (q : Quint)
  deriving DecidableEq

structure System where
  conduit : State
  client : Client
  disk : List UInt8
  log : List Op

inductive Action
  | blockRead (driveNum lsn1 : UInt8) (lsn2 : UInt16)
  | blockWrite (driveNum lsn1 : UInt8) (lsn2 : UInt16) (buffer : Block)
  /-- The client takes the answer it waits for. -/
  | receive
  | copy (turn : Turn)
  /-- The server handles the next request. -/
  | serve

/-- The quint of `BlockRead` and `BlockWrite`: `(driveNum<<8)|lsn1` and `lsn2`. -/
def blockQuint (command driveNum lsn1 : UInt8) (lsn2 : UInt16) : Quint :=
  newQuint command (hiLo driveNum lsn1) lsn2.toNat

def lsnOf (q : Quint) : Nat := SeekSectorReturnLSN q.n q.p

def blockRead (s : System) (q : Quint) : Option System :=
  match s.client with
  | .idle =>
    some { s with
      conduit := { s.conduit with fromClient := s.conduit.fromClient ++ q.bytes }
      client := .blockRead q }
  | _ => none

def blockWrite (s : System) (q : Quint) (buffer : Block) : Option System :=
  match s.client with
  | .idle =>
    some { s with
      conduit := { s.conduit with
        fromClient := s.conduit.fromClient ++ (q.bytes ++ buffer.bytes) }
      client := .blockWrite q
      log := .wrote (lsnOf q) buffer :: s.log }
  | _ => none

def receive (s : System) : Option System :=
  match s.client with
  | .idle => none
  | .blockRead q =>
    (readQuint s.conduit.toClient).bind fun (answer, rest) =>
      if answer.command = CMD_BLOCK_OKAY then
        (readFull 256 rest).map fun (buffer, rest) =>
          { s with
            conduit := { s.conduit with toClient := rest }
            client := .idle
            log := .got (lsnOf q) (Block.copy buffer) :: s.log }
      else
        -- an error code is returned, and no block
        some { s with conduit := { s.conduit with toClient := rest }, client := .idle }
  | .blockWrite _ =>
    (readQuint s.conduit.toClient).map fun (_, rest) =>
      { s with conduit := { s.conduit with toClient := rest }, client := .idle }

/-- One round of `ReadFiveLoop`. The client sends no other command than these, and a panic is the
end of the session, so then the server takes no step. -/
def serve (s : System) : Option System :=
  (readQuint s.conduit.toServer).bind fun (q, rest) =>
    if q.command = CMD_BLOCK_READ ∨ q.command = CMD_CACHE_READ then
      (readSector s.disk (lsnOf q)).map fun buf =>
        let replyCmd := if q.command = CMD_BLOCK_READ then CMD_BLOCK_OKAY else CMD_CACHE_OKAY
        { s with
          conduit := { s.conduit with
            toServer := rest
            fromServer := s.conduit.fromServer ++ ((newQuint replyCmd q.n q.p).bytes ++ buf.bytes) } }
    else if q.command = CMD_BLOCK_WRITE then
      (readFull 256 rest).map fun (buf, rest) =>
        { s with
          conduit := { s.conduit with
            toServer := rest
            fromServer := s.conduit.fromServer ++ writeConfirmation.bytes }
          disk := writeSector s.disk (lsnOf q) buf }
    else none

theorem serve_of_read {s : System} {q : Quint} {rest : List UInt8}
    (parsed : readQuint s.conduit.toServer = some (q, rest))
    (read : q.command = CMD_BLOCK_READ ∨ q.command = CMD_CACHE_READ) :
    serve s = (readSector s.disk (lsnOf q)).map fun buf =>
      let replyCmd := if q.command = CMD_BLOCK_READ then CMD_BLOCK_OKAY else CMD_CACHE_OKAY
      { s with
        conduit := { s.conduit with
          toServer := rest
          fromServer := s.conduit.fromServer ++
            ((newQuint replyCmd q.n q.p).bytes ++ buf.bytes) } } := by
  rw [serve, parsed, Option.bind_some]
  exact if_pos read

theorem serve_of_write {s : System} {q : Quint} {rest : List UInt8}
    (parsed : readQuint s.conduit.toServer = some (q, rest))
    (write : q.command = CMD_BLOCK_WRITE) :
    serve s = (readFull 256 rest).map fun (buf, rest) =>
      { s with
        conduit := { s.conduit with
          toServer := rest
          fromServer := s.conduit.fromServer ++ writeConfirmation.bytes }
        disk := writeSector s.disk (lsnOf q) buf } := by
  rw [serve, parsed, Option.bind_some]
  exact (if_neg (by rw [write]; decide)).trans (if_pos write)

def systemStep (cacheBlocks : Nat) (s : System) : Action → Option System
  | .blockRead driveNum lsn1 lsn2 => blockRead s (blockQuint CMD_BLOCK_READ driveNum lsn1 lsn2)
  | .blockWrite driveNum lsn1 lsn2 buffer =>
    blockWrite s (blockQuint CMD_BLOCK_WRITE driveNum lsn1 lsn2) buffer
  | .receive => receive s
  | .copy turn => (step cacheBlocks s.conduit turn).map fun conduit => { s with conduit }
  | .serve => serve s

/-- A fresh connection to a server with this disk. -/
def systemStart (disk : List UInt8) : System where
  conduit := start [] []
  client := .idle
  disk := disk
  log := []

/-! ### Reading the queues -/

/-- The messages a stream consists of, when `count` tells how long their payloads are. -/
def messages (count : Quint → Nat) : Nat → List UInt8 → List (Quint × List UInt8)
  | 0, _ => []
  | fuel + 1, stream =>
    match readQuint stream with
    | none => []
    | some (q, rest) => (q, rest.take (count q)) :: messages count fuel (rest.drop (count q))

theorem messages_flatMap (count : Quint → Nat) (carried : List (Quint × List UInt8))
    (whole : ∀ message ∈ carried, message.2.length = count message.1) (fuel : Nat)
    (enough : (carried.flatMap fun message => message.1.bytes ++ message.2).length ≤ fuel) :
    messages count fuel (carried.flatMap fun message => message.1.bytes ++ message.2) =
      carried := by
  induction carried generalizing fuel with
  | nil => cases fuel <;> rfl
  | cons message rest inductionHypothesis =>
    obtain ⟨q, payload⟩ := message
    rw [List.flatMap_cons] at enough ⊢
    simp only [List.length_append, Quint.length_bytes] at enough
    cases fuel with
    | zero => omega
    | succ fuel =>
      have counted : payload.length = count q := whole (q, payload) List.mem_cons_self
      rw [messages, List.append_assoc, readQuint_bytes]
      simp only [← counted, List.take_left, List.drop_left]
      rw [inductionHypothesis
        (fun message member => whole message (List.mem_cons_of_mem _ member)) fuel (by omega)]

/-- The requests that wait to be read by the server. -/
def requestsInFlight (s : State) : List (Quint × List UInt8) :=
  messages clientPayload s.toServer.length s.toServer

/-- The payload length `CopyFromServer` goes by. -/
def serverReads (q : Quint) : Nat := if serverReadsPayload q then serverCount q else 0

/-- The answers `CopyFromServer` is yet to deal with, the one it is reading included. -/
def answersInFlight (s : State) : List (Quint × List UInt8) :=
  match s.serverCopy with
  | .payload q =>
    (q, s.fromServer.take (serverReads q)) ::
      messages serverReads s.fromServer.length (s.fromServer.drop (serverReads q))
  | _ => messages serverReads s.fromServer.length s.fromServer

end Frobio.Conduit
