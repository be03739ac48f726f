/-
This file models what `ReadFiveLoop` of `lemma/waiter.go` and the goroutines of
`lemma/mux.go` write to one connection.

The loop handles the frames of the mux and the requests of LemMan in turn. A mux
message is one write. The reply to a LemMan request is two, the quint from
`WriteFive` and then the bytes from `DoLemMan`, and between the two the goroutines of
the session go on. The other sessions of the process share the globals of LemMan.
`hangUp` is any failure of the connection under the loop, which panics and ends.
-/

import Frobio.LemMan.Totality
import Frobio.Mux.Written

namespace Frobio.Waiter

open Coms SlashPath

/-- One connection, with the globals of the process. -/
structure Connection where
  session : Mux.Session
  globals : LemMan.Globals
  /-- The reply whose quint has been written and whose bytes have not. -/
  pending : Option Text
  /-- The bytes written to the connection. -/
  conn : Text
  /-- The messages these bytes are for, in the order of their quints. -/
  sent : List Message

inductive Action
  | mux (action : Mux.Action)
  /-- The loop reads a LemMan request, carries it out, and writes the quint of the reply. -/
  | lemManRequest (q : Quint) (request : LemMan.Request)
  /-- The loop writes the reply. -/
  | lemManReply
  | hangUp
  /-- The loop of another session carries out a LemMan request. -/
  | otherSession (request : LemMan.Request) (pd : Nat)

/-- The loop takes no frame of the mux while a LemMan reply is pending. -/
def muxStep (muxHost : Mux.Host) (w : Connection) (action : Mux.Action) : Option Connection :=
  match action, w.pending with
  | .frame _ _, some _ => none
  | action, _ =>
    (Mux.step muxHost w.session action).map fun session =>
      let message := Mux.written muxHost w.session action
      { w with
        session
        conn := w.conn ++ Mux.bytesOf message
        sent := w.sent ++ message.toList }

def requestStep (lemHost : LemMan.Host) (w : Connection) (q : Quint) (request : LemMan.Request) :
    Option Connection :=
  if w.session.loop = .ready ∧ w.pending = none ∧ q.command = CMD_LEMMAN_REQUEST ∧
      request.input.length = q.n then
    let outcome := LemMan.doLemMan lemHost w.globals request q.p
    match outcome.reply with
    | none =>
      some { w with session := { w.session with loop := .ended }, globals := outcome.globals }
    | some reply =>
      let message := Message.of CMD_LEMMAN_REPLY q.p reply.bytes
      some { w with
        globals := outcome.globals
        pending := some reply.bytes
        conn := w.conn ++ (newQuint CMD_LEMMAN_REPLY message.n q.p).bytes
        sent := w.sent ++ [message] }
  else none

/-- A step of the connection. The process that crashed takes none. -/
def step (muxHost : Mux.Host) (lemHost : LemMan.Host) (w : Connection) (action : Action) :
    Option Connection :=
  if w.session.crashed then none
  else
    match action with
    | .mux action => muxStep muxHost w action
    | .lemManRequest q request => requestStep lemHost w q request
    | .lemManReply =>
      if w.session.loop = .ready then
        w.pending.map fun reply => { w with pending := none, conn := w.conn ++ reply }
      else none
    | .hangUp => some { w with session := { w.session with loop := .ended } }
    | .otherSession request pd =>
      some { w with globals := (LemMan.doLemMan lemHost w.globals request pd).globals }

/-- A connection as it is accepted. -/
def start (id : Nat) (globals : LemMan.Globals) : Connection :=
  ⟨Mux.start id, globals, none, [], []⟩

end Frobio.Waiter
