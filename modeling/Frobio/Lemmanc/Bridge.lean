/-
This file models `Bridge2` of `drivers/lemmanc.c`, the file manager of the CoCo that has the
waiter carry out each operation on a path, together with the branch of `lemma/waiter.go` that
answers it.

What the kernel does when it is asked for memory, or to move some, comes as its answers. The
stores are kept in a list, so that what an operation may store to can be told apart from what it
happens to change.
-/

import Frobio.LemMan.File
import Frobio.Lib.Ring

namespace Frobio.Lemmanc

open Coms SlashPath Memory Frobio.Ring LemMan

/-! ### The machine -/

def RING_SIZE : Nat := 2048

def MAX_PATH_LEN : Nat := 255

def CR : UInt8 := 13

def E_UNKSVC : UInt8 := 0xD0

def E_NORAM : UInt8 := 0xED

def F_SRQMEM : UInt8 := 0x28

def F_SRTMEM : UInt8 := 0x29

def F_BOOT : UInt8 := 0x35

/-- What `TcpCheck` reports once the other side has closed the connection. -/
def unitError : UInt8 := 240

/-- The addresses of a task are a ring of 64K. -/
def SPACE : Nat := 65536

/-- The struct `Regs`. -/
structure Regs where
  (rcc ra rb rdp : UInt8)
  (rx ry ru rpc : UInt16)
  deriving DecidableEq

/-- The registers as the waiter has them. -/
def Regs.words (r : Regs) : LMRegs :=
  ⟨r.rcc, r.ra, r.rb, r.rdp, r.rx.toNat, r.ry.toNat, r.ru.toNat, r.rpc.toNat⟩

/-- The twelve bytes of the struct. -/
def Regs.bytes (r : Regs) : Text := r.words.writeBytes

/-- `memcpy` over the struct. -/
def Regs.ofBytes (bytes : Text) : Regs :=
  let r := newLMRegs bytes
  ⟨r.rcc, r.ra, r.rb, r.rdp, UInt16.ofNat r.rx, UInt16.ofNat r.ry, UInt16.ofNat r.ru,
    UInt16.ofNat r.rpc⟩

inductive Task
  | user
  | system
  deriving DecidableEq

/-- A store: the task, the address in it, and how many bytes. -/
structure Store where
  task : Task
  address : Nat
  count : Nat
  deriving DecidableEq

/-- A request to the kernel about system memory: the code of the function, and the address. -/
structure Service where
  code : UInt8
  address : UInt16
  deriving DecidableEq

/-- The memories of the two tasks, the field `buffer` of the path descriptor, and what has been
stored to and asked for. -/
structure Machine where
  memory : Task → Nat → UInt8
  buffer : UInt16
  stores : List Store
  services : List Service

def Machine.load (m : Machine) (task : Task) (address count : Nat) : Text :=
  window 0 SPACE (m.memory task) address count

def Machine.put (m : Machine) (task : Task) (address : Nat) (data : Text) : Machine :=
  { m with
    memory := Function.update m.memory task (Ring.put 0 SPACE (m.memory task) address data)
    stores := m.stores ++ [⟨task, address, data.length⟩] }

/-- What the kernel answers, with the number of an error first, or 0: the size and the address of
the memory it finds, and how it does when it moves from and to the user's task, and with the
request at a Close. -/
structure Kernel where
  srqMem : UInt8 × UInt16 × UInt16
  moveIn : UInt8
  moveOut : UInt8
  atClose : UInt8

/-- The error number 0 stands for the carry being clear. -/
def os9Move (answer : UInt8) (count src : Nat) (srcMap : Task) (dest : Nat) (destMap : Task)
    (m : Machine) : UInt8 × Machine :=
  if answer ≠ 0 then (answer, m) else (0, m.put destMap dest (m.load srcMap src count))

def os9SRqMem (kernel : Kernel) (m : Machine) : UInt8 × UInt16 × Machine :=
  let (e, size, address) := kernel.srqMem
  if e ≠ 0 then (e, 0, m)
  else (0, size, { m with
    buffer := address
    services := m.services ++ [⟨F_SRQMEM, address⟩] })

/-- The byte that follows the `SWI2` is not the function's code, but that of the instruction
`PULS`, which is the code of another function. -/
def os9SRtMem (kernel : Kernel) (address : UInt16) (m : Machine) : UInt8 × Machine :=
  (kernel.atClose, { m with services := m.services ++ [⟨F_BOOT, address⟩] })

/-! ### The request -/

/-- What comes of an operation before anything is sent. -/
inductive Staged
  | returned (status : UInt8)
  /-- An assertion failed, and the program ends in `GameOver`. -/
  | stopped
  | request (payload : Text)
  deriving DecidableEq

/-- Find a buffer if the path has none. -/
def getBuffer (kernel : Kernel) (m : Machine) : UInt8 × Machine :=
  if m.buffer ≠ 0 then (0, m)
  else
    let (e, size, m) := os9SRqMem kernel m
    if e ≠ 0 then (e, m)
    else if size < 256 then (E_NORAM, m)
    else if m.buffer = 0 then (E_NORAM, m)
    else (0, m)

/-- An address in the buffer. -/
def Machine.inBuffer (m : Machine) (offset : Nat) : Nat := (m.buffer.toNat + offset) % SPACE

/-- The loop from `i` on, for so many more rounds. What ends the copy is not put behind it, but at
the place that the loop has come to. -/
def hyperVerbosity : Nat → Nat → Machine → Machine
  | 0, i, m => m.put .system (m.inBuffer i) [0]
  | rounds + 1, i, m =>
    let b := m.memory .system (m.inBuffer i)
    hyperVerbosity rounds (i + 1)
      (m.put .system (m.inBuffer (192 + i)) [if b = CR then 0 else b])

def stagePath (kernel : Kernel) (regs : Regs) (m : Machine) : Machine × Staged :=
  let (e, m) := getBuffer kernel m
  if e ≠ 0 then (m, .returned e)
  else
    let (e, m) := os9Move kernel.moveIn MAX_PATH_LEN regs.rx.toNat .user m.buffer.toNat .system m
    if e ≠ 0 then (m, .returned e)
    else
      let m := hyperVerbosity 60 0 m
      (m, .request (m.load .system m.buffer.toNat MAX_PATH_LEN))

/-- How many bytes there are up to the first `\r`. -/
def lineLength (data : Text) : Nat := min (data.findIdx (· = CR) + 1) data.length

def stageWrite (kernel : Kernel) (regs : Regs) (linely : Bool) (m : Machine) :
    Machine × Staged :=
  if 256 < regs.ry.toNat then (m, .stopped)
  else
    let (e, m) := os9Move kernel.moveIn regs.ry.toNat regs.rx.toNat .user m.buffer.toNat .system m
    if e ≠ 0 then (m, .returned e)
    else
      let n := if linely then lineLength (m.load .system m.buffer.toNat regs.ry.toNat)
        else regs.ry.toNat
      (m, .request (m.load .system m.buffer.toNat n))

def stage (kernel : Kernel) (op : UInt8) (linkCount : Nat) (regs : Regs) (m : Machine) :
    Machine × Staged :=
  match op.toNat with
  | 1 | 2 | 3 | 4 | 5 => stagePath kernel regs m
  | 8 => stageWrite kernel regs false m
  | 10 => stageWrite kernel regs true m
  | 12 => (m, .returned E_UNKSVC)
  | 13 => if linkCount = 0 then (m, .returned 0) else (m, .request [])
  | _ => (m, .request [])

/-- What follows the quint of a request. -/
def requestBody (op : UInt8) (regs : Regs) (payload : Text) : Text :=
  op :: (regs.bytes ++ (hi payload.length :: lo payload.length :: payload))

/-- What is sent. -/
def wire (pd : UInt16) (op : UInt8) (regs : Regs) (payload : Text) : Text :=
  (newQuint CMD_LEMMAN_REQUEST (headerLen + payload.length) pd.toNat).bytes ++
    requestBody op regs payload

/-! ### The waiter -/

/-- The branch for `CMD_LEMMAN_REQUEST`: the globals, and what is sent back, unless it panics or
the request is not all there. -/
def waiter (host : Host) (info : FileInfo) (g : Globals) (stream : Text) :
    Globals × Option Text :=
  match readQuint stream with
  | none => (g, none)
  | some (quint, rest) =>
    match readFull quint.n rest with
    | none => (g, none)
    | some (buf, _) =>
      let outcome := doLemMan host g ⟨buf, info⟩ quint.p
      (outcome.globals, outcome.reply.map fun reply =>
        (newQuint CMD_LEMMAN_REPLY reply.bytes.length quint.p).bytes ++ reply.bytes)

/-! ### The reply -/

/-- How an operation ends. -/
inductive Result
  | returned (status : UInt8) (regs : Regs)
  /-- It waits for ever, or an assertion failed. -/
  | stuck
  deriving DecidableEq

/-- The chip has so many bytes for the program at once as its ring has. -/
def tcpRecvData (n : Nat) (incoming : Text) : Option (Text × Text) :=
  if RING_SIZE < n then none else readFull n incoming

/-- What is done with the payload of a reply, when it is in the buffer. -/
def deliver (kernel : Kernel) (op : UInt8) (regs : Regs) (size : Nat) (m : Machine) :
    UInt8 × Machine :=
  match op.toNat with
  | 7 | 9 => os9Move kernel.moveOut size m.buffer.toNat .system regs.rx.toNat .user m
  | 11 =>
    if regs.rb = 0x20 then
      os9Move kernel.moveOut (regs.ry.toNat % 256) m.buffer.toNat .system regs.rx.toNat .user m
    else (E_UNKSVC, m)
  | 12 => (E_UNKSVC, m)
  | 13 => if m.buffer ≠ 0 then os9SRtMem kernel m.buffer m else (0, m)
  | _ => (0, m)

/-- The bytes of the struct `reply`. -/
def replySize : Nat := 20

def settle (kernel : Kernel) (op : UInt8) (regs : Regs) (incoming : Text) (m : Machine) :
    Machine × Result :=
  match tcpRecvData replySize incoming with
  | none => (m, .stuck)
  | some (reply, incoming) =>
    if hiLo (reply.getD 1 0) (reply.getD 2 0) < headerLen then (m, .stuck)
    else
      let size := hiLo (reply.getD 18 0) (reply.getD 19 0)
      let finished := Result.returned (reply.getD 5 0) (.ofBytes (reply.drop 6))
      if size = 0 then (m, finished)
      else
        match tcpRecvData size incoming with
        | none => (m, .stuck)
        | some (payload, _) =>
          let (e, m) := deliver kernel op regs size (m.put .system m.buffer.toNat payload)
          if e ≠ 0 then (m, .returned e regs) else (m, finished)

/-! ### Bridge2 -/

/-- A call of `Bridge2`: what it is given, what the kernel and `os.Stat` answer, and what
`TcpCheck` reports as it begins. -/
structure Call where
  op : UInt8
  pd : UInt16
  linkCount : Nat
  regs : Regs
  memory : Task → Nat → UInt8
  buffer : UInt16
  kernel : Kernel
  info : FileInfo
  check : UInt8

/-- The machine as the call begins. -/
def Call.machine (call : Call) : Machine := ⟨call.memory, call.buffer, [], []⟩

structure Ended where
  machine : Machine
  result : Result
  globals : Globals
  check : UInt8

/-- A waiter that panics closes the connection. -/
def bridge2 (host : Host) (g : Globals) (call : Call) : Ended :=
  match stage call.kernel call.op call.linkCount call.regs call.machine with
  | (m, .returned e) => ⟨m, .returned e call.regs, g, call.check⟩
  | (m, .stopped) => ⟨m, .stuck, g, call.check⟩
  | (m, .request payload) =>
    if call.check ≠ 0 then ⟨m, .returned call.check call.regs, g, call.check⟩
    else
      match waiter host call.info g (wire call.pd call.op call.regs payload) with
      | (g, none) => ⟨m, .returned unitError call.regs, g, unitError⟩
      | (g, some bytes) =>
        let (m, result) := settle call.kernel call.op call.regs bytes m
        ⟨m, result, g, call.check⟩

end Frobio.Lemmanc
