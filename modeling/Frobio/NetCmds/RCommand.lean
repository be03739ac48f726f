/-
This file models the OS-9 command `r` of `net-cmds/r.c`. It begins a command of the waiter, and
then takes the messages of the waiter one by one, and does with the local files what they say.

`Recv` takes a quint and then its payload. `TcpRecvBlocking` polls the socket, and the first poll
that finds any bytes has to find all it was asked for, or the command ends with `LogFatal`. Both
parts go to `inbuf`. What a byte that is stored past its end does is not modelled: the control is
`spilled` from then on.
-/

import Frobio.Coms.Quint
import Frobio.Froblib.Stdio
import Frobio.Lib.SlashPath

namespace Frobio.RCommand

open Coms SlashPath

/-! ### Local files -/

def MAX_MSG_LEN : Nat := 255

/-- `sizeof buf` and `sizeof inbuf`. -/
def bufSize : Nat := 5 + 4 + MAX_MSG_LEN

def E_EOF : UInt8 := 211

/-- An open path, and what has not been read from it. -/
structure File where
  path : Text
  rest : Text

/-- What the command works on. -/
structure Local where
  /-- The files on the disk, by their names. -/
  files : Text → Option Text
  /-- `FilePtr`. -/
  filePtr : Option File
  stdIn : Text
  stdOut : Text
  stdErr : Text

/-- The C string at the front of these bytes, which a NUL byte follows. -/
def cString (bytes : Text) : Text := bytes.takeWhile (· ≠ 0)

namespace Local

/-- What has been written to `FilePtr ? FilePtr : StdOut`. -/
def output (here : Local) : Text :=
  match here.filePtr with
  | some f => (here.files f.path).getD []
  | none => here.stdOut

def setOutput (here : Local) (text : Text) : Local :=
  match here.filePtr with
  | some f => { here with files := Function.update here.files f.path (some text) }
  | none => { here with stdOut := text }

/-- `FPuts`, which calls `WritLnAll`. -/
def puts (here : Local) (text : Text) : Local := here.setOutput (here.output ++ text)

/-- `FOpen(name, "w")`. -/
def create (here : Local) (name : Text) : Local :=
  { here with files := Function.update here.files name (some []), filePtr := some ⟨name, []⟩ }

/-- `FOpen(name, "r")`, of a file that there is. -/
def openRead (here : Local) (name : Text) : Option Local :=
  (here.files name).map fun text => { here with filePtr := some ⟨name, text⟩ }

/-- What can be read from `FilePtr ? FilePtr : StdIn`. -/
def input (here : Local) : Text :=
  match here.filePtr with
  | some f => f.rest
  | none => here.stdIn

def setInput (here : Local) (rest : Text) : Local :=
  match here.filePtr with
  | some f => { here with filePtr := some { f with rest } }
  | none => { here with stdIn := rest }

end Local

/-- `Os9ReadLn`: up to a carriage return, and not more than the limit. -/
def readLn : Nat → Text → Text
  | 0, _ => []
  | _, [] => []
  | limit + 1, byte :: rest => if byte = 13 then [byte] else byte :: readLn limit rest

/-! ### The command -/

/-- What the calls of OS-9 for one message come to. -/
inductive Os9
  | done
  | failed (errnum : UInt8)
  /-- The calls of `FWrite` write these parts. -/
  | wrote (answers : List Stdio.Answer)

namespace Os9

def error : Os9 → Option UInt8
  | failed errnum => some errnum
  | _ => none

def answers (os9 : Os9) (n : Nat) : List Stdio.Answer :=
  match os9 with
  | done => [.ok n]
  | failed errnum => [.error errnum]
  | wrote answers => answers

end Os9

inductive Control
  | begins (args : List Text)
  /-- In `Recv` for a message of this command, before its quint. -/
  | quint (cmd : UInt8)
  /-- In `Recv`, before the payload. -/
  | payload (cmd : UInt8) (q : Quint)
  | exited (status : UInt8)
  /-- `LogFatal`, or an assertion that failed. -/
  | fatal
  /-- A byte has been stored past the end of `inbuf`. -/
  | spilled
  deriving DecidableEq

structure Client where
  channel : Nat
  control : Control
  here : Local

/-- `Send(buf, 5)`: a quint without a payload. -/
def bare (command : UInt8) (channel : Nat) : Text := (Message.of command channel []).bytes

/-- What a message leads to: the control, the local files, and what is sent. -/
abbrev Result := Control × Local × Text

/-- The top of the loop. -/
def goOn (channel : Nat) (here : Local) : Result :=
  (.quint CMD_MID_MUX, here, bare CMD_MID_MUX channel)

/-- `FWrite(inbuf+6, recv_paylen-1, ...)`. There is no result while OS-9 has not returned. -/
def writesAll (channel : Nat) (q : Quint) (pay : Text) (os9 : Os9) (here : Local) : Option Result :=
  let n := pay.length - 1
  (Stdio.FWrite (fun a => (q.bytes ++ pay).getD a 0) 6 (os9.answers n) n here.output).map
    fun (e, written) =>
      if e = Stdio.OKAY then goOn channel (here.setOutput written)
      else (.exited e, here.setOutput written, [])

/-- The sub-protocol of `6`, which the command ends with a send of its own. -/
def getsLine (channel : Nat) (os9 : Os9) (here : Local) : Result :=
  match os9.error with
  | some errnum =>
    if errnum = E_EOF then (.quint CMD_MID_MUX, here, bare CMD_MID_MUX channel)
    else
      let text := ascii "- Cannot Read: OS9 ErrNo " ++ decimal errnum.toNat ++ ascii "."
      (.quint CMD_MID_MUX, here, (Message.of CMD_END_MUX channel text).bytes)
  | none =>
    let line := readLn (bufSize - 7 - 1) here.input
    if line = [] then (.quint CMD_MID_MUX, here, bare CMD_MID_MUX channel)
    else
      (.quint CMD_MID_MUX, here.setInput (here.input.drop line.length),
        (Message.of CMD_MID_MUX channel (ascii "6" ++ cString line)).bytes)

/-- The switch on `inbuf[5]`. -/
def onMid (channel : Nat) (q : Quint) (pay : Text) (os9 : Os9) (here : Local) : Option Result :=
  match pay with
  | [] => some (.fatal, here, [])
  | which :: data =>
    if which = 46 then some (.quint CMD_END_MUX, here, bare CMD_END_MUX channel)
    else if which = 49 then
      -- what `FPuts` returns is not looked at
      match os9.error with
      | some _ => some (goOn channel here)
      | none => some (goOn channel (here.puts (cString data)))
    else if which = 50 then
      match os9.error with
      | some _ => some (goOn channel here)
      | none => some (goOn channel { here with stdErr := here.stdErr ++ cString data })
    else if which = 52 then writesAll channel q pay os9 here
    else if which = 54 then some (getsLine channel os9 here)
    else if which = 97 then
      match os9.error with
      | some errnum => some (.exited errnum, here, [])
      | none => some (goOn channel (here.create (cString data)))
    else if which = 98 then
      match os9.error with
      | some errnum => some (.exited errnum, here, [])
      | none => (here.openRead (cString data)).map (goOn channel)
    else if which = 99 then
      match here.filePtr with
      | some _ => some (goOn channel { here with filePtr := none })
      | none => some (.fatal, here, [])
    else some (goOn channel here)

/-- `PayToStdErr`, and the status that is returned. -/
def onEnd (pay : Text) (here : Local) : Result :=
  if pay.getLast? = some 10 ∨ pay.getLast? = some 13 then
    (.exited (if pay.head? = some 43 then 0 else 255),
      { here with stdErr := here.stdErr ++ cString pay }, [])
  else if bufSize < 5 + pay.length + 2 then (.spilled, here, [])
  else
    (.exited (if pay.head? = some 43 then 0 else 255),
      { here with stdErr := here.stdErr ++ cString (pay ++ [13]) }, [])

/-- What is done with a message of the command that was expected. -/
def act (channel : Nat) (cmd : UInt8) (q : Quint) (pay : Text) (os9 : Os9) (here : Local) :
    Option Result :=
  if cmd = CMD_END_MUX then some (onEnd pay here)
  else if cmd = CMD_MID_MUX then onMid channel q pay os9 here
  else some (goOn channel here)

/-- `Recv`, from the quint on. -/
def recvQuint (cmd : UInt8) (here : Local) (arrived : Text) : Option (Result × Text) :=
  if arrived = [] then none
  else
    match readQuint arrived with
    | none => some ((.fatal, here, []), [])
    | some (q, rest) =>
      if q.n = 0 ∨ 1200 < q.n then some ((.fatal, here, []), rest)
      else some ((.payload cmd q, here, []), rest)

/-- `Recv`, from the payload on. -/
def recvPayload (channel : Nat) (cmd : UInt8) (q : Quint) (os9 : Os9) (here : Local)
    (arrived : Text) : Option (Result × Text) :=
  -- `Assert ( n < 1200 )` in `TcpRecvOrNotYet`
  if 1200 ≤ q.n then some ((.fatal, here, []), arrived)
  else if arrived = [] then none
  else
    match readFull q.n arrived with
    | none => some ((.fatal, here, []), [])
    | some (pay, rest) =>
      if bufSize < 5 + q.n then some ((.spilled, here, []), rest)
      else if q.command ≠ cmd ∨ q.p ≠ channel then some ((.fatal, here, []), rest)
      else if bufSize < 5 + q.n + 1 then some ((.spilled, here, []), rest)
      else (act channel cmd q pay os9 here).map fun result => (result, rest)

/-- The payload of the BEGIN. -/
def beginPayload (args : List Text) : Text := ascii "(R) " ++ [32].intercalate args

/-- The command goes on: what it leads to, and what is left of the bytes that have arrived. -/
def Client.next (client : Client) (os9 : Os9) (arrived : Text) : Option (Result × Text) :=
  match client.control with
  | .begins args =>
    if MAX_MSG_LEN < ([32].intercalate args).length then some ((.fatal, client.here, []), arrived)
    else
      some ((.quint CMD_BEGIN_MUX, client.here,
        (Message.of CMD_BEGIN_MUX client.channel (beginPayload args)).bytes), arrived)
  | .quint cmd => recvQuint cmd client.here arrived
  | .payload cmd q => recvPayload client.channel cmd q os9 client.here arrived
  | _ => none

end Frobio.RCommand
