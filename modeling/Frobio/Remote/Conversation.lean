/-
This file models the two ends of the remote-memory protocol: `PokeRam`, `PeekRam`,
`CheckSum16Ram` and `ScanKeyboard` of `lemma/waiter.go`, and `LemmaClientS1` of
`axiom41/axcore.c` in its loop.

The ends are joined by two streams of bytes, which is what the rings of Axiom's socket
are. A step is one thing an end does that the other can see: a write, a read that
finds all it waits for, or one round of a loop of Axiom. Axiom's own bytes, its code,
its variables and its stack, are `own`; it changes them as it likes. Of the commands
of `LemmaClientS1` those are here that the four calls send.
-/

import Frobio.Coms.Quint
import Frobio.Lib.Ring

namespace Frobio.Remote

open Coms Memory Ring

/-! ### The waiter -/

inductive Call
  | pokeRam (addr : Nat) (data : List UInt8)
  | peekRam (addr n : Nat)
  | checkSum16Ram (addr n : Nat)
  | scanKeyboard
  deriving DecidableEq

/-- The five bytes a call begins with. -/
def Call.quint : Call → Quint
  | pokeRam addr data => newQuint Coms.CMD_POKE data.length addr
  | peekRam addr n => newQuint Coms.CMD_PEEK n addr
  | checkSum16Ram addr n => newQuint Coms.CMD_SUM n addr
  | scanKeyboard => newQuint Coms.CMD_KEYBOARD 0 0

inductive Result
  | poked
  | bytes (z : List UInt8)
  | sum (value : Nat)
  deriving DecidableEq

/-- Where the waiter stands. -/
inductive Stage
  /-- Between calls. -/
  | idle
  /-- In `PokeRam`, before the second write. -/
  | data (data : List UInt8)
  /-- In `ReadN(conn, 5)`. -/
  | header (call : Call)
  /-- In the `ReadN` after that, for so many bytes. -/
  | payload (n : Nat)
  | panicked
  deriving DecidableEq

/-- What a call does with the five bytes of the reply: return, read on, or panic. -/
def Call.header (q : Quint) : Call → Stage × List Result
  | pokeRam _ _ => (.panicked, [])
  | peekRam _ n => if q.q0 = Coms.CMD_DATA then (.payload n, []) else (.panicked, [])
  | checkSum16Ram _ _ =>
    if q.q0 = Coms.CMD_SUM then (.idle, [.sum (hiLo q.q3 q.q4)]) else (.panicked, [])
  | scanKeyboard =>
    if q.q0 ≠ Coms.CMD_KEYBOARD then (.panicked, [])
    else if q.q1 ≠ 0 ∧ q.q2 ≠ 8 then (.panicked, [])
    else (.payload 8, [])

/-! ### Axiom -/

def CMD_POKE : UInt8 := 0
def CMD_KEYBOARD : UInt8 := 193
def CMD_SUM : UInt8 := 194
def CMD_PEEK : UInt8 := 203
def CMD_DATA : UInt8 := 204

def TCP_CHUNK_SIZE : Nat := 1024

/-- The addresses are a ring of 64K. -/
def SPACE : Nat := 65536

/-- Where Axiom stands. -/
inductive Task
  /-- In the loop that polls for a quint. -/
  | polling
  /-- In `TcpRecv(p, n)`. -/
  | poke (p n : Nat)
  /-- In `TcpSend(p, n)`. -/
  | peek (p n : Nat)
  /-- In `CheckSum16`. -/
  | checkSum16 (begin_ end_ sum : Nat)
  /-- Before the second chunk of a reply. -/
  | reply (buf8 : List UInt8)
  | fatal
  deriving DecidableEq

def chunkOf (n : Nat) : Nat := if n < TCP_CHUNK_SIZE then n else TCP_CHUNK_SIZE

/-- The word at an address, high byte first. -/
def word (ram : Nat → UInt8) (address : Nat) : Nat :=
  hiLo (ram address) (ram ((address + 1) % SPACE))

/-! ### Both ends -/

structure State where
  todo : List Call
  stage : Stage
  results : List Result
  /-- The bytes on their way to Axiom, and those on their way to the waiter. -/
  toAxiom : List UInt8
  toWaiter : List UInt8
  ram : Nat → UInt8
  task : Task

inductive Action
  | waiter
  /-- Axiom goes on; `keys` is what `ScanKeyboard` finds if it does that. -/
  | axiom41 (keys : List UInt8)
  /-- Axiom's own bytes change to these. -/
  | own (bytes : Nat → UInt8)

def waiterStep (x : State) : Option State :=
  match x.stage with
  | .idle =>
    match x.todo with
    | [] => none
    | call :: todo =>
      let x := { x with todo, toAxiom := x.toAxiom ++ call.quint.bytes }
      match call with
      | .pokeRam _ data => some { x with stage := .data data }
      | call => some { x with stage := .header call }
  | .data data =>
    some { x with
      stage := .idle, toAxiom := x.toAxiom ++ data, results := x.results ++ [.poked] }
  | .header call =>
    match readQuint x.toWaiter with
    | none => none
    | some (q, toWaiter) =>
      some { x with
        toWaiter, stage := (call.header q).1, results := x.results ++ (call.header q).2 }
  | .payload n =>
    match readFull n x.toWaiter with
    | none => none
    | some (z, toWaiter) =>
      some { x with toWaiter, stage := .idle, results := x.results ++ [.bytes z] }
  | .panicked => none

/-- What `LemmaClientS1` does with a quint, up to its first loop or second chunk. -/
def lemmaClientS1 (x : State) (q : Quint) (keys : List UInt8) : State :=
  if q.q0 = CMD_POKE then { x with task := .poke q.p q.n }
  else if q.q0 = CMD_KEYBOARD then
    { x with
      toWaiter := x.toWaiter ++ ({ q with q1 := hi 8, q2 := lo 8 } : Quint).bytes
      task := .reply keys }
  else if q.q0 = CMD_SUM then { x with task := .checkSum16 q.p ((q.p + q.n) % SPACE) 0 }
  else if q.q0 = CMD_PEEK then
    { x with
      toWaiter := x.toWaiter ++ ({ q with q0 := CMD_DATA } : Quint).bytes
      task := .peek q.p q.n }
  else { x with task := .fatal }

def axiomStep (keys : List UInt8) (x : State) : Option State :=
  match x.task with
  | .polling =>
    match readQuint x.toAxiom with
    | none => none
    | some (q, toAxiom) => some (lemmaClientS1 { x with toAxiom } q keys)
  | .poke p n =>
    if n = 0 then some { x with task := .polling }
    else
      match readFull (chunkOf n) x.toAxiom with
      | none => none
      | some (data, toAxiom) =>
        some { x with
          toAxiom
          ram := put 0 SPACE x.ram p data
          task := .poke ((p + chunkOf n) % SPACE) (n - chunkOf n) }
  | .peek p n =>
    if n = 0 then some { x with task := .polling }
    else
      some { x with
        toWaiter := x.toWaiter ++ get 0 SPACE x.ram p (chunkOf n)
        task := .peek ((p + chunkOf n) % SPACE) (n - chunkOf n) }
  | .checkSum16 begin_ end_ sum =>
    if begin_ < end_ then
      some { x with
        task := .checkSum16 ((begin_ + 2) % SPACE) end_ ((sum + word x.ram begin_) % SPACE) }
    else
      some { x with
        toWaiter := x.toWaiter ++ [CMD_SUM, hi 0, lo 0, hi sum, lo sum]
        task := .polling }
  | .reply buf8 => some { x with toWaiter := x.toWaiter ++ buf8, task := .polling }
  | .fatal => none

/-- A step, with the addresses of Axiom's own bytes. -/
def step (own : Nat → Bool) (x : State) : Action → Option State
  | .waiter => waiterStep x
  | .axiom41 keys => if keys.length = 8 then axiomStep keys x else none
  | .own bytes => some { x with ram := fun a => if own a then bytes a else x.ram a }

def start (calls : List Call) (ram : Nat → UInt8) : State :=
  ⟨calls, .idle, [], [], [], ram, .polling⟩

end Frobio.Remote
