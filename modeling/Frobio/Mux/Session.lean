/-
This file models the goroutines of one session of `lemma/mux.go`: the frame loop,
which handles the BEGIN, MID and END frames of the client, and the goroutine that
`BeginMux` starts for each command.

A goroutine is a stage, the next thing it does that others can see: it waits in
`LowGetOne`, it writes in `LowPutOne`, or it deals with a file of the host. Handing
a packet over an unbuffered channel is one step of both sides. The frame loop logs
the frames it reads and every goroutine logs what it writes to the connection.

`RunCommandFunc` recovers from a panic of the command and calls `Exit3`. A panic in
`Exit3`, or in the assertion in front of the deferred function, leaves the
goroutine and takes the process down: `crashed`.
-/

import Frobio.Mux.Command

namespace Frobio.Mux

open Coms SlashPath

/-! ### Goroutines -/

/-- Where the goroutine of a command stands. -/
inductive Stage
  | start
  /-- In `LowGetOne`, with the message to say and the script after it. -/
  | say (message : Text) (script : Script)
  /-- In `LowPutOne`, with that message. -/
  | said (message : Text) (script : Script)
  /-- `PutTCommand`, in `LowGetOne`, for `error_packet`. -/
  | errorPacket (src dest : Text)
  /-- `PutTCommand`, in `LowPutOne`, asking for more. -/
  | ask (src dest : Text)
  /-- `PutTCommand`, in `LowGetOne`, for `packet`. -/
  | packet (src dest : Text)
  /-- `PutTCommand`, in `w.Write`. -/
  | take (src dest data : Text)
  /-- `PutTCommand`, in `LowPutOne`, closing the client's file. -/
  | close (src dest : Text)
  /-- `Exit3`, in the first `LowGetOne`. -/
  | exitDot (verdict : Text)
  | exitDotted (verdict : Text)
  /-- `Exit3`, in the second `LowGetOne`. -/
  | exitEnd (verdict : Text)
  | exitEnded (verdict : Text)
  | finished
  deriving DecidableEq

/-- The field `InPacket` of the Go type `Proc`. -/
inductive InPacket
  | opened
  | closed
  | nil
  deriving DecidableEq

structure Proc where
  channel : Nat
  fn : CommandFunc
  argv : List Text
  inPacket : InPacket
  stage : Stage
  deriving DecidableEq

def caught (text : Text) : Text := ascii "-255 caught exception: " ++ text

/-- The stage after a script's messages so far. -/
def Script.next : Script → Stage
  | ⟨message :: rest, ending⟩ => .say message ⟨rest, ending⟩
  | ⟨[], .ret verdict⟩ => .exitDot verdict
  | ⟨[], .panics text⟩ => .exitDot (caught text)
  | ⟨[], .putT src dest⟩ => .errorPacket src dest

namespace Stage

/-- The tag the `LowGetOne` of this stage expects. -/
def expected : Stage → Option UInt8
  | say _ _ | errorPacket _ _ | packet _ _ | exitDot _ => some CMD_MID_MUX
  | exitEnd _ => some CMD_END_MUX
  | _ => none

/-- What follows when `LowGetOne` returns the payload: the next stage, or a panic. -/
def accept (host : Host) (pay : Text) : Stage → Except Text Stage
  | say message script => .ok (.said message script)
  | errorPacket src dest =>
    if pay.length > 0 then .error (ascii "Did not local open: " ++ host.quote src)
    else .ok (.ask src dest)
  | packet src dest =>
    match pay with
    | [] => .ok (.close src dest)
    | [54] => .ok (.close src dest)
    | 54 :: data => .ok (.take src dest (data.map fun e => if e = 13 then 10 else e))
    | _ => .error (ascii "Error: " ++ host.quote pay)
  | exitDot verdict => .ok (.exitDotted verdict)
  | exitEnd verdict => .ok (.exitEnded verdict)
  | stage => .ok stage

/-- `LowGetOne`, once it has a packet, and what follows it. -/
def lowGetOne (host : Host) (channel : Nat) (expected tag : UInt8) (pay : Text) (stage : Stage) :
    Except Text Stage :=
  if expected = CMD_MID_MUX ∧ tag = CMD_END_MUX then
    -- "How kill signal is received."
    .error (ascii "KILL Proc " ++ decimal channel ++ ascii ": " ++ host.quote pay)
  else if tag ≠ expected then
    .error (ascii "GetOneLow: got type " ++ decimal tag.toNat ++ ascii ", expected " ++
      decimal expected.toNat)
  else stage.accept host pay

/-- What this stage writes with `LowPutOne`: command, payload, and the stage after it. -/
def puts (host : Host) : Stage → Option (UInt8 × Text × Stage)
  | said message script => some (CMD_MID_MUX, message, script.next)
  | ask src dest => some (CMD_MID_MUX, ascii "6", .packet src dest)
  | close src dest =>
    some (CMD_MID_MUX, ascii "c",
      .exitDot (ascii "+ PutT " ++ host.quote src ++ ascii " to " ++ host.quote dest))
  | exitDotted verdict => some (CMD_MID_MUX, ascii ".", .exitEnd verdict)
  | exitEnded verdict => some (CMD_END_MUX, verdict, .finished)
  | _ => none

/-- The stage is one of `Exit3`, which runs in the deferred function. -/
def exiting : Stage → Bool
  | exitDot _ | exitDotted _ | exitEnd _ | exitEnded _ => true
  | _ => false

end Stage

/-! ### The session -/

/-- Who writes a reply. The loop's reply to a BEGIN it accepts is told apart. -/
inductive Writer
  | loop
  | starting (id : Nat)
  | proc (id : Nat)
  deriving DecidableEq

/-- Where the frame loop stands. -/
inductive Loop
  | ready
  /-- In `ReplyOnChannel`. -/
  | reply (writer : Writer) (q : Quint) (payload : Text)
  /-- In `proc.InPacket <- ...`. -/
  | send (id p : Nat) (tag : UInt8) (pay : Text)
  /-- `EndMux` has sent the packet; the channel is to be closed and the entry deleted. -/
  | close (id p : Nat)
  /-- A panic has ended the session. -/
  | ended
  deriving DecidableEq

inductive Event
  | frame (q : Quint)
  | reply (writer : Writer) (q : Quint) (payload : Text)
  deriving DecidableEq

structure Session where
  id : Nat
  /-- The map `Procs`, by the number of the goroutine. -/
  procTable : Nat → Option Nat
  /-- Every goroutine `BeginMux` started. -/
  procs : List Proc
  loop : Loop
  log : List Event
  crashed : Bool

def muxGood : Text := ascii "+"

/-- The quint in front of a payload. -/
def replyQuint (command : UInt8) (p : Nat) (payload : Text) : Quint :=
  newQuint command payload.length p

def replyOnChannel (s : Session) (writer : Writer) (command : UInt8) (p : Nat) (pay : Text) :
    Session :=
  { s with loop := .reply writer (replyQuint command p pay) pay }

/-- `%v` of the session. -/
def Session.show (s : Session) : Text := ascii "Session(" ++ decimal s.id ++ ascii ")"

def beginMux (host : Host) (s : Session) (p : Nat) (pay : Text) : Session :=
  match s.procTable p with
  | some _ =>
    replyOnChannel s .loop CMD_END_MUX p
      (ascii "- Channel " ++ decimal p ++ ascii " already exists in session " ++ s.show)
  | none =>
    match argvOf pay with
    | [] => replyOnChannel s .loop CMD_END_MUX p (ascii "- Empty Command")
    | name :: args =>
      match commandFuncs.lookup (toLower host name) with
      | none =>
        replyOnChannel s .loop CMD_END_MUX p (ascii "- No such command: " ++ toLower host name)
      | some fn =>
        let proc : Proc := ⟨p, fn, name :: args, .opened, .start⟩
        replyOnChannel
          { s with
            procTable := Function.update s.procTable p (some s.procs.length)
            procs := s.procs ++ [proc] }
          (.starting s.procs.length) CMD_BEGIN_MUX p muxGood

def procNotFound (s : Session) (p : Nat) : Text :=
  ascii "- Proc " ++ decimal p ++ ascii " not found in session " ++ s.show

/-- `MidMux` and `EndMux`, which differ in the command only, up to the send. -/
def sendMux (command : UInt8) (s : Session) (p : Nat) (pay : Text) : Session :=
  match s.procTable p with
  | none => replyOnChannel s .loop command p (procNotFound s p)
  | some id => { s with loop := .send id p command pay }

def midMux : Session → Nat → Text → Session := sendMux CMD_MID_MUX

def endMux : Session → Nat → Text → Session := sendMux CMD_END_MUX

/-! ### Steps -/

inductive Action
  /-- The frame loop reads a frame of the client. -/
  | frame (q : Quint) (pay : Text)
  /-- The frame loop goes on with the frame. -/
  | loop (outcome : Outcome)
  /-- The frame loop hands its packet to the goroutine. -/
  | deliver
  /-- A goroutine goes on. -/
  | run (id : Nat) (outcome : Outcome)
  /-- A goroutine has waited 500 seconds in `LowGetOne`. -/
  | timeout (id : Nat)

/-- One round of `ReadFiveLoop`, for the commands of `mux.go`. -/
def readFrame (host : Host) (s : Session) (q : Quint) (pay : Text) : Option Session :=
  if s.loop = .ready ∧ pay.length = q.n then
    let s := { s with log := s.log ++ [.frame q] }
    if q.command = CMD_BEGIN_MUX then some (beginMux host s q.p pay)
    else if q.command = CMD_MID_MUX then some (midMux s q.p pay)
    else if q.command = CMD_END_MUX then some (endMux s q.p pay)
    else none
  else none

/-- A write that fails is a panic, which ends the session. -/
def loopStep (s : Session) (outcome : Outcome) : Option Session :=
  match s.loop with
  | .reply writer q payload =>
    match outcome with
    | .failed _ => some { s with loop := .ended }
    | _ => some { s with loop := .ready, log := s.log ++ [.reply writer q payload] }
  | .send id _ _ _ =>
    s.procs[id]?.bind fun proc =>
      -- a send on a closed channel is a panic
      if proc.inPacket = .closed then some { s with loop := .ended } else none
  | .close id p =>
    s.procs[id]?.map fun proc =>
      if proc.inPacket = .nil then { s with loop := .ended }
      else
        { s with
          procs := s.procs.set id { proc with inPacket := .closed }
          procTable := Function.update s.procTable p none
          loop := .ready }
  | _ => none

/-- A panic of a goroutine: the deferred function calls `Exit3`, unless it is `Exit3` itself that
panics. -/
def panicStep (s : Session) (id : Nat) (proc : Proc) (text : Text) : Session :=
  if proc.stage.exiting then { s with crashed := true }
  else { s with procs := s.procs.set id { proc with stage := .exitDot (caught text) } }

def deliver (host : Host) (s : Session) : Option Session :=
  match s.loop with
  | .send id p tag pay =>
    s.procs[id]?.bind fun proc =>
      proc.stage.expected.bind fun expected =>
        if proc.inPacket = .opened then
          let s := { s with loop := if tag = CMD_END_MUX then .close id p else .ready }
          match proc.stage.lowGetOne host proc.channel expected tag pay with
          | .ok stage => some { s with procs := s.procs.set id { proc with stage } }
          | .error text => some (panicStep s id proc text)
        else none
  | _ => none

def runStep (host : Host) (s : Session) (id : Nat) (outcome : Outcome) : Option Session :=
  s.procs[id]?.bind fun proc =>
    match proc.stage with
    | .start =>
      -- `AssertGT(o.Channel, 0)` stands in front of the deferred function
      if proc.channel = 0 then some { s with crashed := true }
      else
        let script := runCommand host proc.fn proc.argv outcome
        some { s with procs := s.procs.set id { proc with stage := script.next } }
    | .take src dest _ =>
      match outcome with
      | .failed err =>
        some (panicStep s id proc (ascii "Error writing " ++ host.quote dest ++ ascii ": " ++ err))
      | _ => some { s with procs := s.procs.set id { proc with stage := .ask src dest } }
    | stage =>
      match stage.puts host with
      | some (command, payload, next) =>
        match outcome with
        | .failed err =>
          some (panicStep s id proc
            (ascii "Cannot Write: Proc " ++ decimal proc.channel ++ ascii ": " ++ err))
        | _ =>
          some { s with
            procs := s.procs.set id { proc with stage := next }
            log := s.log ++ [.reply (.proc id) (replyQuint command proc.channel payload) payload] }
      | none =>
        if stage.expected.isSome ∧ proc.inPacket = .closed then
          some (panicStep s id proc (ascii "CLOSED_CHAN Proc " ++ decimal proc.channel))
        else none

def timeoutStep (s : Session) (id : Nat) : Option Session :=
  s.procs[id]?.bind fun proc =>
    if proc.stage.expected.isSome then
      let proc := { proc with inPacket := .nil }
      some (panicStep { s with procs := s.procs.set id proc } id proc
        (ascii "TIMEOUT Proc " ++ decimal proc.channel))
    else none

/-- A step of the session. The process that crashed takes none. -/
def step (host : Host) (s : Session) (action : Action) : Option Session :=
  if s.crashed then none
  else
    match action with
    | .frame q pay => readFrame host s q pay
    | .loop outcome => loopStep s outcome
    | .deliver => deliver host s
    | .run id outcome => runStep host s id outcome
    | .timeout id => timeoutStep s id

def start (id : Nat) : Session where
  id := id
  procTable := fun _ => none
  procs := []
  loop := .ready
  log := []
  crashed := false

end Frobio.Mux
