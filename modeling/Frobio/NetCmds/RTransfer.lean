/-
This file models a transfer: the command `r` on the one side and a mux session of the waiter on
the other, the bytes on their way between them, and the files of both sides.

What a goroutine of the waiter finds in a file of the host is computed from the file: `bufio.Reader`
gives blocks of at most 128 bytes to `getb`, and lines to `gett`.

The two take turns. `Talk` says that from some point on the conversation goes to its end and ends
well, when each side does its part: it is about stages and messages, and not about how the bytes of
the messages arrive. `Phase` says where the ball is, and `Phase.step` that every step of a fair run
hands it on, with less left to do.
-/

import Frobio.Mux.Written
import Frobio.NetCmds.RCommand

namespace Frobio.RCommand

open Coms SlashPath Mux Run

/-! ### The host's files -/

/-- `r.Read(buf)` of a `bufio.Reader`, into 128 bytes, until the end of the file. Each call gives one
byte at least. -/
def readBlocksFrom : Nat → List Nat → Text → List Text
  | 0, _, _ => []
  | rounds + 1, cuts, content =>
    if content = [] then []
    else
      let nc := cuts.headD 127 % 128 + 1
      content.take nc :: readBlocksFrom rounds cuts.tail (content.drop nc)

def readBlocks (cuts : List Nat) (content : Text) : List Text :=
  readBlocksFrom content.length cuts content

/-- The bytes of the buffer of a `bufio.Reader`. -/
def defaultBufSize : Nat := 4096

/-- `r.ReadLine()` until the end of the file, or until it says `isPrefix`. -/
def readLinesFrom : Nat → Text → List Text × FileEnd
  | 0, _ => ([], .eof)
  | rounds + 1, content =>
    if content = [] then ([], .eof)
    else
      let line := content.takeWhile (· ≠ 10)
      if defaultBufSize ≤ line.length then ([], .isPrefix)
      else
        match content.drop line.length with
        | [] => ([line], .eof)
        | _ :: rest =>
          let later := readLinesFrom rounds rest
          ((if line.getLast? = some 13 then line.dropLast else line) :: later.1, later.2)

def readLines (content : Text) : List Text × FileEnd := readLinesFrom content.length content

/-- `P.Join(*FS, name)`. -/
def longName (host : Host) (name : Text) : Text := join [host.fs, name]

/-- What the host answers to a goroutine. -/
inductive Answer
  /-- No error. The reads of a file are cut like this. -/
  | done (cuts : List Nat)
  | failed (err : Text)
  /-- A read fails, after some others. -/
  | stops (cuts : List Nat) (count : Nat) (err : Text)

def Answer.fails : Answer → Bool
  | done _ => false
  | _ => true

/-- What a goroutine of a command that reads a file finds in it. -/
def fileReads (host : Host) (remote : Text → Text) (proc : Proc) (cuts : List Nat) :
    Option (List Text × FileEnd) :=
  match proc.stage, proc.fn, getPaths proc.argv with
  | .start, .getb, some (src, _) => some (readBlocks cuts (remote (longName host src)), .eof)
  | .start, .gett, some (src, _) => some (readLines (remote (longName host src)))
  | _, _, _ => none

def outcomeOf (host : Host) (remote : Text → Text) (proc : Proc) : Answer → Outcome
  | .failed err => .failed err
  | .done cuts =>
    match fileReads host remote proc cuts with
    | some (reads, ending) => .opened reads ending
    | none => .done
  | .stops cuts count err =>
    match fileReads host remote proc cuts with
    | some (reads, _) => .opened (reads.take count) (.failed err)
    | none => .failed err

/-- `os.Create`, and `w.Write`. -/
def rewrites (host : Host) (remote : Text → Text) (proc : Proc) : Answer → Text → Text
  | .done _ =>
    match proc.stage, proc.fn, putPaths proc.argv with
    | .start, .putt, some (_, dest) =>
      if host.fs = [] then remote else Function.update remote (longName host dest) []
    | .take _ dest data, _, _ =>
      Function.update remote (longName host dest) (remote (longName host dest) ++ data)
    | _, _, _ => remote
  | _ => remote

/-! ### The system -/

structure State where
  client : Client
  toServer : Text
  /-- What the waiter has written and the chip has not received. -/
  inFlight : Text
  /-- What the chip has received and the command has not taken. -/
  arrived : Text
  session : Session
  /-- The files of the host, by their long names. -/
  remote : Text → Text

inductive Action
  | client (os9 : Os9)
  | arrive (count : Nat)
  /-- The frame loop reads a frame. -/
  | frame
  /-- The frame loop goes on with the frame. -/
  | loop (answer : Answer)
  | deliver
  /-- A goroutine goes on. -/
  | run (id : Nat) (answer : Answer)
  | timeout (id : Nat)

/-- A step of the session, and what it writes to the connection. -/
def serve (host : Host) (s : State) (remote : Text → Text) (action : Mux.Action) : Option State :=
  (Mux.step host s.session action).map fun session =>
    { s with
      session
      remote
      inFlight := s.inFlight ++ bytesOf (written host s.session action) }

def step (host : Host) (s : State) : Action → Option State
  | .client os9 =>
    (s.client.next os9 s.arrived).map fun ((control, here, sent), rest) =>
      { s with
        client := { s.client with control, here }
        arrived := rest
        toServer := s.toServer ++ sent }
  | .arrive count =>
    if 0 < count ∧ count ≤ s.inFlight.length then
      some { s with
        arrived := s.arrived ++ s.inFlight.take count
        inFlight := s.inFlight.drop count }
    else none
  | .frame =>
    (readQuint s.toServer).bind fun (q, rest) =>
      (readFull q.n rest).bind fun (pay, rest) =>
        serve host { s with toServer := rest } s.remote (.frame q pay)
  | .loop answer => serve host s s.remote (.loop (if answer.fails then .failed [] else .done))
  | .deliver => serve host s s.remote .deliver
  | .run id answer =>
    s.session.procs[id]?.bind fun proc =>
      serve host s (rewrites host s.remote proc answer) (.run id (outcomeOf host s.remote proc answer))
  | .timeout id => serve host s s.remote (.timeout id)

/-- The session serves no command. -/
structure Quiet (session : Session) : Prop where
  table : session.procTable = fun _ => none
  loop : session.loop = .ready
  alive : session.crashed = false
  finished : ∀ proc ∈ session.procs, proc.stage = .finished

/-- The command is called. -/
def start (ticks : UInt16) (args : List Text) (here : Local) (session : Session)
    (remote : Text → Text) : State where
  client := ⟨ticks.toNat, .begins args, here⟩
  toServer := []
  inFlight := []
  arrived := []
  session := session
  remote := remote

/-! ### Conditions -/

/-- The calls of OS-9 write what they say, and there is no error. -/
def Os9.Succeeds (os9 : Os9) (n : Nat) : Prop :=
  os9.error = none ∧
    ∀ answers, os9 = .wrote answers → Stdio.Legal answers n ∧ ∀ answer ∈ answers, ∃ cc, answer = .ok cc

/-- No call for a file or for the connection fails, and nobody waits too long. -/
def NoErrors (s : State) : Action → Prop
  | .client os9 =>
    match s.client.control with
    | .payload _ q => os9.Succeeds (q.n - 1)
    | _ => True
  | .loop answer => answer.fails = false
  | .run _ answer => answer.fails = false
  | .timeout _ => False
  | _ => True

/-- What is polled for has arrived whole if any of it has. -/
def Timely (s : State) : Prop :=
  match s.client.control with
  | .quint _ => s.arrived = [] ∨ 5 ≤ s.arrived.length
  | .payload _ q => s.arrived = [] ∨ q.n ≤ s.arrived.length
  | _ => True

/-- The message on its way has a place in `inbuf`, with the NUL byte after it and, at the end, the
carriage return. -/
def Fits (s : State) : Prop :=
  match s.client.control with
  | .quint cmd =>
    let coming := s.arrived ++ s.inFlight
    coming.length + 1 ≤ bufSize ∧ (cmd = CMD_END_MUX →
      coming.length + 2 ≤ bufSize ∨ coming.getLast? = some 10 ∨ coming.getLast? = some 13)
  | _ => True

/-- The pieces that a block is written in repeat each other. -/
def WritesRight (s : State) (os9 : Os9) : Prop :=
  match s.client.control with
  | .payload _ q =>
    ∀ answers, os9 = .wrote answers →
      Stdio.Repeats (fun a => (q.bytes ++ s.arrived.take q.n).getD a 0) 6
        (Stdio.counts answers (q.n - 1)) 0
  | _ => True

/-- The condition of a fair run: no errors, and what the code takes for granted. -/
def Fair (s : State) (action : Action) : Prop :=
  NoErrors s action ∧
    match action with
    | .client os9 => Timely s ∧ Fits s ∧ WritesRight s os9
    | .run id _ => ∀ proc, s.session.procs[id]? = some proc → proc.stage = .start → proc.channel ≠ 0
    | _ => True

/-! ### Deciding the condition -/

instance decidableLegal : ∀ (answers : List Stdio.Answer) (n : Nat),
    Decidable (Stdio.Legal answers n)
  | [], _ => .isTrue trivial
  | .error errnum :: _, n => inferInstanceAs (Decidable (n = 0 ∨ errnum ≠ Stdio.OKAY))
  | .ok cc :: later, n =>
    have := decidableLegal later (n - cc)
    inferInstanceAs (Decidable (n = 0 ∨ (1 ≤ cc ∧ cc ≤ n ∧ Stdio.Legal later (n - cc))))

instance decidableRepeats (memory : Nat → UInt8) (buf : Nat) : ∀ (pieces : List Nat) (offset : Nat),
    Decidable (Stdio.Repeats memory buf pieces offset)
  | [], _ => .isTrue trivial
  | cc :: later, offset =>
    have := decidableRepeats memory buf later (offset + cc)
    inferInstanceAs (Decidable (Memory.load memory (buf + offset) cc = Memory.load memory buf cc ∧
      Stdio.Repeats memory buf later (offset + cc)))

instance (answer : Stdio.Answer) : Decidable (∃ cc, answer = .ok cc) :=
  match answer with
  | .ok cc => .isTrue ⟨cc, rfl⟩
  | .error _ => .isFalse fun ⟨_, same⟩ => by cases same

/-- What is said about the parts a block is written in. -/
instance decidableWrote (os9 : Os9) (holds : List Stdio.Answer → Prop) [DecidablePred holds] :
    Decidable (∀ answers, os9 = .wrote answers → holds answers) :=
  match os9 with
  | .wrote answers =>
    decidable_of_iff (holds answers) ⟨fun right _ same => Os9.wrote.inj same ▸ right, fun all => all _ rfl⟩
  | .done => .isTrue fun _ same => by cases same
  | .failed _ => .isTrue fun _ same => by cases same

instance (os9 : Os9) (n : Nat) : Decidable (os9.Succeeds n) :=
  inferInstanceAs (Decidable (_ ∧ ∀ answers, os9 = .wrote answers → Stdio.Legal answers n ∧
    ∀ answer ∈ answers, ∃ cc, answer = .ok cc))

instance (s : State) (action : Action) : Decidable (NoErrors s action) :=
  match action with
  | .client os9 =>
    match control : s.client.control with
    | .payload _ q => decidable_of_iff (os9.Succeeds (q.n - 1)) (by rw [NoErrors, control])
    | .begins _ | .quint _ | .exited _ | .fatal | .spilled =>
      .isTrue (by rw [NoErrors, control]; trivial)
  | .loop answer => inferInstanceAs (Decidable (answer.fails = false))
  | .run _ answer => inferInstanceAs (Decidable (answer.fails = false))
  | .timeout _ => .isFalse id
  | .arrive _ | .frame | .deliver => .isTrue trivial

instance (s : State) : Decidable (Timely s) :=
  match control : s.client.control with
  | .quint _ =>
    decidable_of_iff (s.arrived = [] ∨ 5 ≤ s.arrived.length) (by rw [Timely, control])
  | .payload _ q =>
    decidable_of_iff (s.arrived = [] ∨ q.n ≤ s.arrived.length) (by rw [Timely, control])
  | .begins _ | .exited _ | .fatal | .spilled => .isTrue (by rw [Timely, control]; trivial)

instance (s : State) : Decidable (Fits s) :=
  match control : s.client.control with
  | .quint cmd =>
    decidable_of_iff ((s.arrived ++ s.inFlight).length + 1 ≤ bufSize ∧ (cmd = CMD_END_MUX →
      (s.arrived ++ s.inFlight).length + 2 ≤ bufSize ∨ (s.arrived ++ s.inFlight).getLast? = some 10 ∨
        (s.arrived ++ s.inFlight).getLast? = some 13)) (by rw [Fits, control])
  | .begins _ | .payload _ _ | .exited _ | .fatal | .spilled =>
    .isTrue (by rw [Fits, control]; trivial)

instance (s : State) (os9 : Os9) : Decidable (WritesRight s os9) :=
  match control : s.client.control with
  | .payload _ q =>
    decidable_of_iff (∀ answers, os9 = .wrote answers →
      Stdio.Repeats (fun a => (q.bytes ++ s.arrived.take q.n).getD a 0) 6
        (Stdio.counts answers (q.n - 1)) 0) (by rw [WritesRight, control])
  | .begins _ | .quint _ | .exited _ | .fatal | .spilled =>
    .isTrue (by rw [WritesRight, control]; trivial)

instance (s : State) (action : Action) : Decidable (Fair s action) :=
  match action with
  | .client os9 => inferInstanceAs (Decidable (_ ∧ Timely s ∧ Fits s ∧ WritesRight s os9))
  | .run id _ =>
    inferInstanceAs (Decidable (_ ∧ ∀ proc ∈ s.session.procs[id]?, proc.stage = .start →
      proc.channel ≠ 0))
  | .arrive _ | .frame | .loop _ | .deliver | .timeout _ => inferInstanceAs (Decidable (_ ∧ True))

/-! ### What the two sides keep -/

/-- Bytes are on their way in one direction at most, and they are what is left of one message, of
the command and the channel that the other side waits for. -/
def InStep (s : State) : Prop :=
  (∃ cmd pay, s.client.control = .quint cmd ∧
      s.toServer = (Message.of cmd s.client.channel pay).bytes ∧ s.arrived ++ s.inFlight = []) ∨
    s.toServer = [] ∧
      match s.client.control with
      | .quint cmd =>
        s.arrived ++ s.inFlight = [] ∨ ∃ pay, pay ≠ [] ∧
          s.arrived ++ s.inFlight = (Message.of cmd s.client.channel pay).bytes
      | .payload cmd q => q = newQuint cmd (s.arrived ++ s.inFlight).length s.client.channel
      | _ => s.arrived ++ s.inFlight = []

end Frobio.RCommand
