/-
This file models the block driver of `drivers/rblemma.asm` and `drivers/rblemmac.c` on one
connection to the waiter, and compares it with four disks of their own.

The glue in assembly calls the C function with its own command code for the drive number, and
takes the registers that come back for those that it had before the call: B for the high byte of
the sector number, and A for the error code. So the driver does what it is meant to as long as no
call fails, no sector is shared by two drives that write different bytes to it, and only sector 0
has a low word that is zero.
-/

import Frobio.Conduit.System
import Frobio.Tcp1.Rings

namespace Frobio.Rblemma

open Coms Memory Run Axcore Tcp1
open Conduit hiding Event step System

/-! ### The functions in C -/

def errOkay : UInt8 := 0

def CMD_BLOCK_ERROR : UInt8 := 209

section

variable (schedule : Nat → List Event)

/-- `TcpCheck` has its own numbers for the errors, and so have all that call it. -/
def errnum (e : UInt8) : UInt8 :=
  if e = SK_IR_TOUT then 246 else if e = SK_IR_DISC then 240 else e

/-- `TcpRecvData` is `WizRecvChunk` of `axcore.c` but for the numbers. -/
def tcpRecvData (rounds : Nat) (w : World) (n : Nat) : Option (UInt8 × List UInt8 × World) :=
  (wizRecvChunk sock1 schedule rounds w n).map fun (e, buf, w) => (errnum e, buf, w)

/-- `WizSend` is `WizSendChunk` of `axcore.c` but for the numbers. -/
def wizSend (rounds : Nat) (w : World) (data : List UInt8) : Option (UInt8 × World) :=
  (wizSendChunk sock1 schedule rounds w data).map fun (e, w) => (errnum e, w)

/-- The answer is received, and then so many bytes into the buffer of the path. -/
def confirm (rounds n : Nat) (w : World) : Option (UInt8 × List UInt8 × World) :=
  (tcpRecvData schedule rounds w 5).bind fun (e, bytes, w) =>
    if e ≠ errOkay then some (e, [], w)
    else
      let command := bytes.getD 0 0
      let p := hiLo (bytes.getD 3 0) (bytes.getD 4 0)
      if command = CMD_BLOCK_ERROR then some (if p ≠ 0 then lo p else 187, [], w)
      else if command ≠ CMD_BLOCK_OKAY then some (192, [], w)
      else if n = 0 then some (errOkay, [], w)
      else tcpRecvData schedule rounds w n

/-- The error number, and what comes into the buffer of the path. -/
def blockReadC (rounds : Nat) (w : World) (driveNum lsn1 : UInt8) (lsn2 : UInt16) :
    Option (UInt8 × List UInt8 × World) :=
  (wizSend schedule rounds w (blockQuint CMD_BLOCK_READ driveNum lsn1 lsn2).bytes).bind fun (e, w) =>
    if e ≠ errOkay then some (e, [], w) else confirm schedule rounds 256 w

def blockWriteC (rounds : Nat) (w : World) (driveNum lsn1 : UInt8) (lsn2 : UInt16)
    (buffer : Block) : Option (UInt8 × List UInt8 × World) :=
  (wizSend schedule rounds w (blockQuint CMD_BLOCK_WRITE driveNum lsn1 lsn2).bytes).bind fun (e, w) =>
    if e ≠ errOkay then some (e, [], w)
    else
      (wizSend schedule rounds w buffer.bytes).bind fun (e, w) =>
        if e ≠ errOkay then some (e, [], w) else confirm schedule rounds 0 w

end

/-! ### The waiter -/

inductive Command
  | read
  | write
  deriving DecidableEq

/-- A call of the driver: the drive number and the buffer of the path, and B:X. -/
structure Call where
  command : Command
  drv : UInt8
  lsn1 : UInt8
  lsn2 : UInt16
  buffer : Block
  deriving DecidableEq

def Call.lsn (call : Call) : Nat := call.lsn1.toNat * 65536 + call.lsn2.toNat

/-- The codes that READ and WRITE give to `GetSect` in A. -/
def Command.code : Command → UInt8
  | .read => 0
  | .write => 1

/-- What the function in C sends, with this drive number. -/
def Call.request (driveNum : UInt8) (call : Call) : Quint × List UInt8 :=
  match call.command with
  | .read => (blockQuint CMD_BLOCK_READ driveNum call.lsn1 call.lsn2, [])
  | .write => (blockQuint CMD_BLOCK_WRITE driveNum call.lsn1 call.lsn2, call.buffer.bytes)

/-- What the waiter writes when it handles the request. It panics, and writes nothing, if the file
ends inside of the sector. -/
def answer (disk : List UInt8) (request : Quint × List UInt8) : List UInt8 :=
  if request.1.command = CMD_BLOCK_READ then
    match readSector disk (lsnOf request.1) with
    | some buf => (newQuint CMD_BLOCK_OKAY request.1.n request.1.p).bytes ++ buf.bytes
    | none => []
  else writeConfirmation.bytes

/-- The disk when the request is handled. -/
def handled (disk : List UInt8) (request : Quint × List UInt8) : List UInt8 :=
  if request.1.command = CMD_BLOCK_READ then disk
  else writeSector disk (lsnOf request.1) request.2

/-! ### The driver -/

/-- Where the drive tables are in the storage of a device, how far apart, and how many of their
bytes are in sector 0. -/
structure Defs where
  DRVBEG : Nat
  DRVMEM : Nat
  DD_SIZ : Nat

structure Regs where
  a : UInt8
  b : UInt8
  x : UInt16
  zero : Bool
  carry : Bool

/-- What a call came to: the error that `BlockRead` or `BlockWrite` reported, B and the carry, the
buffer, and whether the waiter had the whole request. -/
structure Entry where
  call : Call
  reported : UInt8
  b : UInt8
  carry : Bool
  buffer : Block
  served : Bool
  before : Nat → UInt8
  after : Nat → UInt8

structure System where
  world : World
  disk : List UInt8
  /-- The storage of the device. -/
  storage : Nat → UInt8
  /-- What the calls came to, the newest first. -/
  log : List Entry

def N_Drives : UInt8 := 4

section

variable (defs : Defs) (schedule : Nat → List Event) (rounds : Nat)

/-- What a call of `GetSect` leaves. -/
structure Got where
  regs : Regs
  reported : UInt8
  buffer : Block
  served : Bool
  world : World
  disk : List UInt8

/-- The call of `_BlockRead` or of `_BlockWrite`. -/
def callC (driveNum : UInt8) (call : Call) (w : World) : Option (UInt8 × List UInt8 × World) :=
  match call.command with
  | .read => blockReadC schedule rounds w driveNum call.lsn1 call.lsn2
  | .write => blockWriteC schedule rounds w driveNum call.lsn1 call.lsn2 call.buffer

/-- The registers after the call, and what it came to. The waiter handles the request if it has all
of it. -/
def afterC (s : System) (call : Call) (request : Quint × List UInt8) (e : UInt8)
    (bytes : List UInt8) (w : World) : Got :=
  let served : Bool :=
    w.chip.outStream sock1 = s.world.chip.outStream sock1 ++ (request.1.bytes ++ request.2)
  { regs := ⟨if e = 0 then 0 else 0xFF, e, call.lsn2, e = 0, e ≠ 0⟩
    reported := e
    buffer := if bytes = [] then call.buffer else Block.copy bytes
    served := served
    world := w
    disk := if served then handled s.disk request else s.disk }

/-- The chip, with what the waiter is going to write among the bytes that have not arrived. -/
def System.expecting (s : System) (bytes : List UInt8) : World :=
  ⟨{ s.world.chip with incoming := s.world.chip.incoming ++ bytes }, s.world.turns⟩

/-- `GetSect`, with the command code in A. -/
def getSect (s : System) (call : Call) : Option Got :=
  if N_Drives ≤ call.drv then
    -- the drive number is still in A
    some ⟨⟨call.drv, 240, call.lsn2, false, false⟩, errOkay, call.buffer, false, s.world, s.disk⟩
  else
    -- the command code goes for the drive number
    let driveNum := call.command.code
    let request := call.request driveNum
    (callC schedule rounds driveNum call (s.expecting (answer s.disk request))).map
      fun (e, bytes, w) => afterC s call request e bytes w

/-- `reterr`: the error code is taken from A. -/
def reterr (regs : Regs) : Regs := { regs with b := regs.a, carry := true }

/-- `noerr`. -/
def noerr (regs : Regs) : Regs := { regs with b := 0, carry := false }

/-- The table that sector 0 of the drive is copied to. -/
def tableOf (drv : UInt8) : Nat := if drv = 0 then defs.DRVBEG else defs.DRVBEG + defs.DRVMEM

/-- READ and WRITE, after `GetSect`: the registers and the storage. -/
def finish (storage : Nat → UInt8) (call : Call) (got : Got) : Regs × (Nat → UInt8) :=
  if ¬got.regs.zero then (reterr got.regs, storage)
  else
    match call.command with
    | .write => (noerr got.regs, storage)
    | .read =>
      -- B is the error number now
      if got.regs.b ≠ 0 then (noerr got.regs, storage)
      else if got.regs.x ≠ 0 then (noerr got.regs, storage)
      else
        (noerr got.regs, store storage (tableOf defs call.drv) (got.buffer.bytes.take defs.DD_SIZ))

def step (s : System) (call : Call) : Option System :=
  (getSect schedule rounds s call).map fun got =>
    let (regs, storage) := finish defs s.storage call got
    { world := got.world
      disk := got.disk
      storage := storage
      log := ⟨call, got.reported, regs.b, regs.carry, got.buffer, got.served, s.storage, storage⟩ ::
        s.log }

end

/-! ### The law -/

/-- The block most recently written to the sector of the drive, the initial one if none ever was. -/
def latest (initial : Nat → Block) : List Entry → UInt8 → Nat → Block
  | [], _, lsn => initial lsn
  | entry :: older, drv, lsn =>
    if entry.call.command = .write ∧ entry.served ∧ entry.call.drv = drv ∧ entry.call.lsn = lsn then
      entry.call.buffer
    else latest initial older drv lsn

/-- The bytes of the table of a drive. -/
def InTable (defs : Defs) (drv : UInt8) (a : Nat) : Prop :=
  defs.DRVBEG + drv.toNat * defs.DRVMEM ≤ a ∧ a < defs.DRVBEG + drv.toNat * defs.DRVMEM + defs.DD_SIZ

/-- The call did what a driver of four disks does, after the older ones. -/
structure Lawful (defs : Defs) (initial : Nat → Block) (older : List Entry) (entry : Entry) :
    Prop where
  filled : entry.call.command = .read → entry.carry = false →
    entry.buffer = latest initial older entry.call.drv entry.call.lsn
  failed : entry.reported ≠ 0 → entry.carry = true ∧ entry.b = entry.reported
  tooLarge : N_Drives ≤ entry.call.drv → entry.carry = true ∧ entry.b = 240
  tables : ∀ a, entry.after a ≠ entry.before a → entry.call.command = .read ∧
    entry.carry = false ∧ entry.call.lsn = 0 ∧ InTable defs entry.call.drv a

def AllLawful (defs : Defs) (initial : Nat → Block) : List Entry → Prop
  | [] => True
  | entry :: older => Lawful defs initial older entry ∧ AllLawful defs initial older

/-- No error is raised; the drive is one of the four, and if the sector is read, no other drive has
written other bytes to it, and only sector 0 of the first two drives has a low word that is zero. -/
structure Plain (schedule : Nat → List Event) (initial : Nat → Block) (s : System) (call : Call) :
    Prop where
  quiet : Quiet schedule
  calm : Calm s.world.chip
  drive : call.drv < N_Drives
  own : call.command = .read → sector s.disk call.lsn = latest initial s.log call.drv call.lsn
  table : call.command = .read → call.lsn2 = 0 → call.lsn1 = 0 ∧ call.drv ≤ 1

/-! ### The functions in C, while no error is raised -/

section

variable {schedule : Nat → List Event} {rounds : Nat} {w w' : World} {e : UInt8}
  {buf : List UInt8} {s s' : System} {call : Call}

theorem errnum_okay : errnum OKAY = errOkay := by decide

theorem wizSend_okay (quiet : Quiet schedule) (idle : Idle w.chip) (calm : Calm w.chip)
    {data : List UInt8} (sent : wizSend schedule rounds w data = some (e, w')) :
    e = errOkay ∧ Calm w'.chip ∧ Moves sock1 w.chip w'.chip data [] := by
  obtain ⟨⟨e₁, w₁⟩, chunk, same⟩ := Option.map_eq_some_iff.mp sent
  rw [Prod.mk.injEq] at same
  obtain ⟨rfl, rfl⟩ := same
  obtain ⟨rfl, calm'⟩ := quiet.wizSendChunk_okay calm chunk
  exact ⟨errnum_okay, calm', (moves_wizSendChunk apart_sock1 idle chunk).1 rfl⟩

theorem tcpRecvData_okay (quiet : Quiet schedule) (idle : Idle w.chip) (calm : Calm w.chip) {n : Nat}
    (received : tcpRecvData schedule rounds w n = some (e, buf, w')) :
    e = errOkay ∧ Calm w'.chip ∧ Moves sock1 w.chip w'.chip [] buf ∧ buf.length = n := by
  obtain ⟨⟨e₁, buf₁, w₁⟩, chunk, same⟩ := Option.map_eq_some_iff.mp received
  rw [Prod.mk.injEq, Prod.mk.injEq] at same
  obtain ⟨rfl, rfl, rfl⟩ := same
  obtain ⟨rfl, calm'⟩ := quiet.wizRecvChunk_okay calm chunk
  obtain ⟨moves, full, -⟩ := moves_wizRecvChunk apart_sock1 idle chunk
  exact ⟨errnum_okay, calm', moves, full rfl⟩

/-- The bytes taken are the first of the stream. -/
theorem take_of_moves {c c' : Chip} {bytes front rest : List UInt8} (moves : Moves sock1 c c' [] bytes)
    (stream : c.inStream sock1 = front ++ rest) (length : bytes.length = front.length) :
    bytes = front ∧ c'.inStream sock1 = rest := by
  have both := moves.inStream
  rw [stream] at both
  obtain ⟨same, same'⟩ := List.append_inj both length.symm
  exact ⟨same.symm, same'.symm⟩

/-- The answer is that all went well, and then come these bytes. -/
theorem confirm_okay (quiet : Quiet schedule) (idle : Idle w.chip) (calm : Calm w.chip) {n : Nat}
    {q : Quint} {rest : List UInt8} (okay : q.command = CMD_BLOCK_OKAY) (length : rest.length = n)
    (stream : w.chip.inStream sock1 = q.bytes ++ rest)
    (confirmed : confirm schedule rounds n w = some (e, buf, w')) :
    e = errOkay ∧ Calm w'.chip ∧ buf = rest ∧ Moves sock1 w.chip w'.chip [] (q.bytes ++ rest) := by
  rw [confirm] at confirmed
  obtain ⟨⟨e₁, bytes, w₁⟩, received, onward⟩ := Option.bind_eq_some_iff.mp confirmed
  obtain ⟨rfl, calm₁, moves, five⟩ := tcpRecvData_okay quiet idle calm received
  obtain ⟨rfl, left⟩ := take_of_moves moves stream five
  have command : q.bytes.getD 0 0 = CMD_BLOCK_OKAY := okay
  have notError : CMD_BLOCK_OKAY ≠ CMD_BLOCK_ERROR := by decide
  dsimp only at onward
  rw [if_neg (not_not_intro rfl), command, if_neg notError, if_neg (not_not_intro rfl)] at onward
  by_cases nothing : n = 0
  · rw [if_pos nothing] at onward
    cases onward
    obtain rfl := List.length_eq_zero_iff.mp (length.trans nothing)
    rw [List.append_nil]
    exact ⟨rfl, calm₁, rfl, moves⟩
  · rw [if_neg nothing] at onward
    obtain ⟨rfl, calm₂, moves', full⟩ := tcpRecvData_okay quiet moves.idle calm₁ onward
    obtain ⟨rfl, -⟩ := take_of_moves moves' (left.trans (List.append_nil _).symm)
      (full.trans length.symm)
    exact ⟨rfl, calm₂, rfl, moves.trans moves'⟩

/-- Without an answer, there is no confirmation. -/
theorem confirm_of_nothing (quiet : Quiet schedule) (idle : Idle w.chip) (calm : Calm w.chip) {n : Nat}
    (stream : w.chip.inStream sock1 = []) : confirm schedule rounds n w = none := by
  rw [confirm, Option.bind_eq_none_iff]
  rintro ⟨e, bytes, w₁⟩ received
  obtain ⟨-, -, moves, five⟩ := tcpRecvData_okay quiet idle calm received
  have both := moves.inStream
  rw [stream] at both
  obtain ⟨rfl, -⟩ := List.append_eq_nil_iff.mp both.symm
  cases five

/-! ### `GetSect`, while no error is raised -/

theorem lsnOf_blockQuint (command driveNum lsn1 : UInt8) (lsn2 : UInt16) :
    lsnOf (blockQuint command driveNum lsn1 lsn2) = lsn1.toNat * 65536 + lsn2.toNat := by
  have one := lsn1.toNat_lt
  have two := lsn2.toNat_lt
  have low : hiLo driveNum lsn1 % 65536 % 256 = lsn1.toNat := by
    rw [hiLo]
    omega
  rw [lsnOf, SeekSectorReturnLSN, blockQuint, n_newQuint, p_newQuint, low,
    Nat.mod_eq_of_lt (show lsn2.toNat < 65536 from two)]

/-- Between the calls, the stream is empty. -/
structure Steady (s : System) : Prop where
  idle : Idle s.world.chip
  empty : s.world.chip.inStream sock1 = []

theorem Steady.expecting (steady : Steady s) (calm : Calm s.world.chip) (bytes : List UInt8) :
    Idle (s.expecting bytes).chip ∧ Calm (s.expecting bytes).chip ∧
      (s.expecting bytes).chip.inStream sock1 = bytes := by
  have idle := steady.idle
  refine ⟨⟨⟨idle.sane.txEnd, idle.sane.txRd, idle.sane.rxStart, idle.sane.rxWr,
    idle.sane.waiting, idle.sane.rxRsr⟩, idle.txWr, idle.rxRd⟩, calm, ?_⟩
  show _ ++ (s.world.chip.incoming ++ bytes) = bytes
  rw [← List.append_assoc]
  exact congrArg (· ++ bytes) steady.empty

/-- The sector is read, and the stream is empty again. -/
theorem blockReadC_okay (quiet : Quiet schedule) (steady : Steady s) (calm : Calm s.world.chip)
    {driveNum lsn1 : UInt8} {lsn2 : UInt16}
    (called : blockReadC schedule rounds (s.expecting (answer s.disk
      (blockQuint CMD_BLOCK_READ driveNum lsn1 lsn2, []))) driveNum lsn1 lsn2 = some (e, buf, w')) :
    e = errOkay ∧ buf = (sector s.disk (lsn1.toNat * 65536 + lsn2.toNat)).bytes ∧
      Idle w'.chip ∧ w'.chip.inStream sock1 = [] ∧ w'.chip.outStream sock1 =
        s.world.chip.outStream sock1 ++ (blockQuint CMD_BLOCK_READ driveNum lsn1 lsn2).bytes := by
  obtain ⟨q, asked⟩ : ∃ q, q = blockQuint CMD_BLOCK_READ driveNum lsn1 lsn2 := ⟨_, rfl⟩
  have lsn := lsnOf_blockQuint CMD_BLOCK_READ driveNum lsn1 lsn2
  rw [← asked] at called lsn ⊢
  have answered : answer s.disk (q, []) = match readSector s.disk (lsnOf q) with
      | some buf => (newQuint CMD_BLOCK_OKAY q.n q.p).bytes ++ buf.bytes
      | none => [] := by
    have read : q.command = CMD_BLOCK_READ := by rw [asked]; rfl
    exact if_pos read
  obtain ⟨idle, calm₀, stream⟩ := steady.expecting calm (answer s.disk (q, []))
  have out : (s.expecting (answer s.disk (q, []))).chip.outStream sock1 =
    s.world.chip.outStream sock1 := rfl
  generalize s.expecting (answer s.disk (q, [])) = w₀ at called idle calm₀ stream out
  rw [blockReadC, ← asked] at called
  obtain ⟨⟨e₁, w₁⟩, sent, onward⟩ := Option.bind_eq_some_iff.mp called
  obtain ⟨rfl, calm₁, sends⟩ := wizSend_okay quiet idle calm₀ sent
  dsimp only at onward
  rw [if_neg (not_not_intro rfl)] at onward
  have left : w₁.chip.inStream sock1 = answer s.disk (q, []) := sends.inStream.symm.trans stream
  rw [answered] at left
  cases found : readSector s.disk (lsnOf q) with
  | none =>
    rw [found] at left
    rw [confirm_of_nothing quiet sends.idle calm₁ left] at onward
    cases onward
  | some block =>
    rw [found] at left
    obtain ⟨rfl, -, rfl, moves⟩ := confirm_okay quiet sends.idle calm₁ rfl block.size left onward
    have through := sends.trans moves
    rw [← lsn, ← readSector_eq_some found]
    refine ⟨rfl, rfl, through.idle, ?_, ?_⟩
    · have both := moves.inStream
      rw [left] at both
      exact List.append_right_eq_self.mp both.symm
    · rw [through.outStream, out, List.append_nil]

theorem answer_write (disk : List UInt8) (driveNum lsn1 : UInt8) (lsn2 : UInt16)
    (data : List UInt8) :
    answer disk (blockQuint CMD_BLOCK_WRITE driveNum lsn1 lsn2, data) = writeConfirmation.bytes := by
  have write : (blockQuint CMD_BLOCK_WRITE driveNum lsn1 lsn2).command ≠ CMD_BLOCK_READ := by
    show CMD_BLOCK_WRITE ≠ CMD_BLOCK_READ
    decide
  exact if_neg write

/-- The sector is sent, and the stream is empty again. -/
theorem blockWriteC_okay (quiet : Quiet schedule) (steady : Steady s) (calm : Calm s.world.chip)
    {driveNum lsn1 : UInt8} {lsn2 : UInt16} {buffer : Block}
    (called : blockWriteC schedule rounds (s.expecting writeConfirmation.bytes) driveNum lsn1 lsn2
      buffer = some (e, buf, w')) :
    e = errOkay ∧ buf = [] ∧ Idle w'.chip ∧ w'.chip.inStream sock1 = [] ∧
      w'.chip.outStream sock1 = s.world.chip.outStream sock1 ++
        ((blockQuint CMD_BLOCK_WRITE driveNum lsn1 lsn2).bytes ++ buffer.bytes) := by
  obtain ⟨idle, calm₀, stream⟩ := steady.expecting calm writeConfirmation.bytes
  have out : (s.expecting writeConfirmation.bytes).chip.outStream sock1 =
    s.world.chip.outStream sock1 := rfl
  generalize s.expecting writeConfirmation.bytes = w₀ at called idle calm₀ stream out
  rw [blockWriteC] at called
  obtain ⟨⟨e₁, w₁⟩, sent, onward⟩ := Option.bind_eq_some_iff.mp called
  obtain ⟨rfl, calm₁, sends⟩ := wizSend_okay quiet idle calm₀ sent
  dsimp only at onward
  rw [if_neg (not_not_intro rfl)] at onward
  obtain ⟨⟨e₂, w₂⟩, sent', onward⟩ := Option.bind_eq_some_iff.mp onward
  obtain ⟨rfl, calm₂, sends'⟩ := wizSend_okay quiet sends.idle calm₁ sent'
  dsimp only at onward
  rw [if_neg (not_not_intro rfl)] at onward
  have both := sends.trans sends'
  have left : w₂.chip.inStream sock1 = writeConfirmation.bytes ++ [] := by
    rw [List.append_nil]
    exact both.inStream.symm.trans stream
  obtain ⟨rfl, -, rfl, moves⟩ := confirm_okay quiet both.idle calm₂ rfl rfl left onward
  have through := both.trans moves
  refine ⟨rfl, rfl, through.idle, ?_, ?_⟩
  · have inStream := moves.inStream
    rw [left] at inStream
    exact List.append_right_eq_self.mp inStream.symm
  · rw [through.outStream, out, List.append_nil]

/-- What `GetSect` leaves while no error is raised. -/
structure GotOkay (s : System) (call : Call) (got : Got) : Prop where
  reported : got.reported = 0
  zero : got.regs.zero = true
  b : got.regs.b = 0
  x : got.regs.x = call.lsn2
  served : got.served = true
  idle : Idle got.world.chip
  empty : got.world.chip.inStream sock1 = []
  buffer : got.buffer = match call.command with
    | .read => sector s.disk call.lsn
    | .write => call.buffer
  disk : got.disk = match call.command with
    | .read => s.disk
    | .write => writeSector s.disk call.lsn call.buffer.bytes

theorem getSect_okay (quiet : Quiet schedule) (steady : Steady s) (calm : Calm s.world.chip)
    (drive : call.drv < N_Drives) {got : Got}
    (called : getSect schedule rounds s call = some got) : GotOkay s call got := by
  rw [getSect, if_neg (UInt8.not_le.mpr drive)] at called
  obtain ⟨⟨e, bytes, w⟩, ran, rfl⟩ := Option.map_eq_some_iff.mp called
  cases command : call.command with
  | read =>
    have request : call.request Command.read.code =
        (blockQuint CMD_BLOCK_READ 0 call.lsn1 call.lsn2, []) := by
      rw [Call.request, command]
      rfl
    rw [callC, command, request] at ran
    obtain ⟨rfl, rfl, idle, empty, out⟩ := blockReadC_okay quiet steady calm ran
    rw [request]
    have some : ¬(sector s.disk (call.lsn1.toNat * 65536 + call.lsn2.toNat)).bytes = [] := by
      intro none
      have size := (sector s.disk (call.lsn1.toNat * 65536 + call.lsn2.toNat)).size
      rw [none] at size
      cases size
    have served : w.chip.outStream sock1 = s.world.chip.outStream sock1 ++
        ((blockQuint CMD_BLOCK_READ 0 call.lsn1 call.lsn2).bytes ++ []) := by
      rw [List.append_nil]
      exact out
    refine ⟨rfl, rfl, rfl, rfl, decide_eq_true served, idle, empty, ?_, ?_⟩
    · rw [command]
      exact (if_neg some).trans (Block.copy_bytes _)
    · rw [command]
      exact (if_pos (decide_eq_true served)).trans (if_pos rfl)
  | write =>
    have request : call.request Command.write.code =
        (blockQuint CMD_BLOCK_WRITE 1 call.lsn1 call.lsn2, call.buffer.bytes) := by
      rw [Call.request, command]
      rfl
    rw [callC, command, request, answer_write] at ran
    obtain ⟨rfl, rfl, idle, empty, served⟩ := blockWriteC_okay quiet steady calm ran
    rw [request]
    have write : CMD_BLOCK_WRITE ≠ CMD_BLOCK_READ := by decide
    refine ⟨rfl, rfl, rfl, rfl, decide_eq_true served, idle, empty, ?_, ?_⟩
    · rw [command]
      show (if ([] : List UInt8) = [] then call.buffer else Block.copy []) = call.buffer
      exact if_pos rfl
    · rw [command]
      refine (if_pos (decide_eq_true served)).trans ((if_neg write).trans ?_)
      rw [lsnOf_blockQuint]
      rfl

/-! ### Runs -/

theorem finish_okay {defs : Defs} {got : Got} (okay : GotOkay s call got) (storage : Nat → UInt8) :
    (finish defs storage call got).1.carry = false ∧
      ((finish defs storage call got).2 = storage ∨
        (call.command = .read ∧ call.lsn2 = 0 ∧ (finish defs storage call got).2 =
          store storage (tableOf defs call.drv) (got.buffer.bytes.take defs.DD_SIZ))) := by
  rw [finish, if_neg (not_not_intro okay.zero)]
  cases command : call.command with
  | write => exact ⟨rfl, .inl rfl⟩
  | read =>
    dsimp only
    rw [if_neg (not_not_intro okay.b), okay.x]
    by_cases zero : call.lsn2 = 0
    · rw [if_neg (not_not_intro zero)]
      exact ⟨rfl, .inr ⟨rfl, zero, rfl⟩⟩
    · rw [if_pos zero]
      exact ⟨rfl, .inl rfl⟩

/-- The first two drives have the tables that sector 0 is copied to. -/
theorem tableOf_eq (defs : Defs) {drv : UInt8} (first : drv ≤ 1) :
    tableOf defs drv = defs.DRVBEG + drv.toNat * defs.DRVMEM := by
  have either : drv = 0 ∨ drv = 1 := by
    have small : drv.toNat ≤ 1 := first
    rcases Nat.le_one_iff_eq_zero_or_eq_one.mp small with zero | one
    · exact .inl (UInt8.toNat.inj zero)
    · exact .inr (UInt8.toNat.inj one)
  rcases either with rfl | rfl
  · rw [tableOf, if_pos rfl]
    show defs.DRVBEG = defs.DRVBEG + 0 * defs.DRVMEM
    omega
  · rw [tableOf, if_neg (by decide)]
    show defs.DRVBEG + defs.DRVMEM = defs.DRVBEG + 1 * defs.DRVMEM
    omega

theorem Plain.step {defs : Defs} {initial : Nat → Block} (plain : Plain schedule initial s call)
    (steady : Steady s) (stepped : step defs schedule rounds s call = some s') :
    Steady s' ∧ ∃ entry, s'.log = entry :: s.log ∧ Lawful defs initial s.log entry := by
  obtain ⟨got, called, rfl⟩ := Option.map_eq_some_iff.mp stepped
  have okay := getSect_okay plain.quiet steady plain.calm plain.drive called
  obtain ⟨carry, changed⟩ := @finish_okay s call defs got okay s.storage
  refine ⟨⟨okay.idle, okay.empty⟩, _, rfl, ?_, ?_, ?_, ?_⟩
  · intro read _
    have buffer := okay.buffer
    rw [read] at buffer
    exact buffer.trans (plain.own read)
  · exact fun failed => absurd okay.reported failed
  · exact fun tooLarge => absurd tooLarge (UInt8.not_le.mpr plain.drive)
  · intro a different
    rcases changed with same | ⟨read, zero, stored⟩
    · exact absurd (congrFun same a) different
    · obtain ⟨high, first⟩ := plain.table read zero
      refine ⟨read, carry, ?_, ?_⟩
      · show call.lsn1.toNat * 65536 + call.lsn2.toNat = 0
        rw [high, zero]
        rfl
      · dsimp only at different
        rw [stored, tableOf_eq defs first] at different
        refine ⟨Nat.not_lt.mp fun before => different (store_apply_of_before _ _ before), ?_⟩
        refine Nat.not_le.mp fun behind => different (store_apply_of_after _ ?_)
        rw [List.length_take]
        exact le_trans (Nat.add_le_add_left (Nat.min_le_left _ _) _) behind

end

/-! ### A connection, and one that is lost -/

/-- The offsets of NitrOS-9. -/
def nitros9 : Defs := ⟨15, 38, 21⟩

/-- Nothing is sent or received yet, and these interrupts are raised. -/
def connected (ir : UInt8) : System :=
  ⟨⟨⟨fun _ => 0, 2040, 2040, 2040, 2040, 2040, 2040, ir, [], []⟩, 0⟩, [], fun _ => 0, []⟩

theorem steady_connected : Steady (connected 0) :=
  ⟨⟨⟨by decide, by decide, by decide, by decide, by decide, by decide⟩, rfl, rfl⟩, rfl⟩

/-- All that is sent goes out at once, and all that comes arrives at once. -/
def prompt : Nat → List Event := fun _ => [.transmit 2048, .arrive 2048]

theorem quiet_prompt : Quiet prompt := by
  intro turn bits member
  rcases List.mem_cons.mp member with first | second
  · cases first
  · cases List.mem_singleton.mp second

/-- For a chip that raises no interrupt, it can be decided whether a call is plain. -/
instance decidablePlain (initial : Nat → Block) (s : System) (call : Call) :
    Decidable (Plain prompt initial s call) :=
  decidable_of_iff ((s.world.chip.ir &&& SK_IR_TOUT = 0 ∧ s.world.chip.ir &&& SK_IR_DISC = 0) ∧
      call.drv < N_Drives ∧
      (call.command = .read → sector s.disk call.lsn = latest initial s.log call.drv call.lsn) ∧
      (call.command = .read → call.lsn2 = 0 → call.lsn1 = 0 ∧ call.drv ≤ 1))
    ⟨fun checked => ⟨quiet_prompt, checked.1, checked.2.1, checked.2.2.1, checked.2.2.2⟩,
      fun plain => ⟨plain.calm, plain.drive, plain.own, plain.table⟩⟩

/-- A sector of the same bytes. -/
def blockOf (byte : UInt8) : Block := Block.copy (List.replicate 256 byte)

/-- Two drives write each its own sector, and read it back. -/
def twoDrives : List Call :=
  [⟨.write, 0, 0, 0, blockOf 65⟩, ⟨.write, 1, 0, 2, blockOf 66⟩, ⟨.read, 0, 0, 0, blockOf 0⟩,
    ⟨.read, 1, 0, 2, blockOf 0⟩]

/-- A read of sector 5 of the first drive. -/
def readFive : Call := ⟨.read, 0, 0, 5, Block.copy []⟩

end Frobio.Rblemma
