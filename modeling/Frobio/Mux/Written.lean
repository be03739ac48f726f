/-
This file says what each step of a mux session writes to the connection.

`written` reads the message off the state before the step, and `Framing.step` shows
that it is what the step adds to the session's log, byte for byte. Every message is
of one of the three commands, on a channel that has two bytes.
-/

import Frobio.Mux.Fault

namespace Frobio.Mux

open Coms SlashPath

/-! ### Messages -/

/-- The message a step writes. -/
def written (host : Host) (s : Session) : Action → Option Message
  | .loop outcome =>
    match s.loop with
    | .reply _ q payload => if outcome.fails then none else some (.of q.command q.p payload)
    | _ => none
  | .run id outcome =>
    s.procs[id]?.bind fun proc =>
      (proc.stage.puts host).bind fun (command, payload, _) =>
        if outcome.fails then none else some (.of command proc.channel payload)
  | _ => none

def Event.bytes : Event → Text
  | .frame _ => []
  | .reply _ q payload => q.bytes ++ payload

/-- What a session has written to the connection. -/
def logStream (log : List Event) : Text := log.flatMap Event.bytes

def bytesOf (message : Option Message) : Text := message.elim [] Message.bytes

def muxCommands : List UInt8 := [CMD_BEGIN_MUX, CMD_MID_MUX, CMD_END_MUX]

/-! ### The invariant -/

/-- The channels have two bytes, and so has the channel of the reply that is on its way. -/
structure Framing (s : Session) : Prop where
  channels : ∀ proc ∈ s.procs, proc.channel < 65536
  replying : ∀ writer q payload, s.loop = .reply writer q payload →
    q = replyQuint q.command q.p payload ∧ q.command ∈ muxCommands

section

variable {host : Host} {s next : Session}

theorem Framing.start (id : Nat) : Framing (Mux.start id) where
  channels := nofun
  replying := nofun

theorem Framing.log (framing : Framing s) (log : List Event) : Framing { s with log } :=
  ⟨framing.channels, framing.replying⟩

theorem Framing.loop (framing : Framing s) (loop : Loop)
    (silent : ∀ writer q payload, loop ≠ .reply writer q payload) : Framing { s with loop } :=
  ⟨framing.channels, fun writer q payload same => absurd same (silent writer q payload)⟩

theorem Framing.replyOnChannel (framing : Framing s) (writer : Writer) {command : UInt8} {p : Nat}
    (mux : command ∈ muxCommands) (small : p < 65536) (pay : Text) :
    Framing (replyOnChannel s writer command p pay) where
  channels := framing.channels
  replying := by
    intro writer' q payload same
    rw [Mux.replyOnChannel, Loop.reply.injEq] at same
    obtain ⟨-, rfl, rfl⟩ := same
    have p_same : (replyQuint command p pay).p = p := by
      rw [replyQuint, p_newQuint, Nat.mod_eq_of_lt small]
    have command_same : (replyQuint command p pay).command = command := rfl
    rw [p_same, command_same]
    exact ⟨rfl, mux⟩

theorem Framing.crashed (framing : Framing s) (crashed : Bool) : Framing { s with crashed } :=
  ⟨framing.channels, framing.replying⟩

theorem Framing.started (framing : Framing s) (procTable : Nat → Option Nat) (proc : Proc)
    (small : proc.channel < 65536) :
    Framing { s with procTable, procs := s.procs ++ [proc] } where
  channels := by
    intro other member
    rcases List.mem_append.mp member with old | new
    · exact framing.channels other old
    · rw [List.mem_singleton.mp new]
      exact small
  replying := framing.replying

/-- A goroutine is put back with its channel as it was. -/
theorem Framing.set {id : Nat} {proc : Proc} (framing : Framing s) (other : Proc)
    (found : s.procs[id]? = some proc) (same : other.channel = proc.channel) :
    Framing { s with procs := s.procs.set id other } where
  channels := by
    intro proc' member
    rcases mem_set member with rfl | old
    · rw [same]
      exact framing.channels proc (List.mem_of_getElem? found)
    · exact framing.channels proc' old
  replying := framing.replying

theorem Framing.panicStep {id : Nat} {proc other : Proc} (framing : Framing s)
    (found : s.procs[id]? = some proc) (same : other.channel = proc.channel) (text : Text) :
    Framing (panicStep s id other text) := by
  rw [Mux.panicStep]
  split
  · exact framing.crashed true
  · exact framing.set _ found same

theorem panicStep_log (s : Session) (id : Nat) (proc : Proc) (text : Text) :
    (panicStep s id proc text).log = s.log := by
  rw [panicStep]
  split
  · rfl
  · rfl

/-! ### Steps -/

theorem logStream_append (log : List Event) (event : Event) :
    logStream (log ++ [event]) = logStream log ++ event.bytes := by
  rw [logStream, List.flatMap_append, List.flatMap_singleton]
  rfl

theorem Framing.readFrame {q : Quint} {pay : Text} (framing : Framing s)
    (taken : readFrame host s q pay = some next) :
    Framing next ∧ logStream next.log = logStream s.log := by
  unfold Mux.readFrame at taken
  split at taken
  · have logged := framing.log (s.log ++ [.frame q])
    have stream : logStream (s.log ++ [.frame q]) = logStream s.log := by
      rw [logStream_append, Event.bytes, List.append_nil]
    dsimp only at taken
    split at taken
    · rw [Option.some_inj] at taken
      subst taken
      rcases beginMux_cases host { s with log := s.log ++ [.frame q] } q.p pay with
        ⟨text, -, same⟩ | ⟨-, fn, -, same⟩
      · rw [same]
        exact ⟨logged.replyOnChannel .loop (by decide) q.p_lt text, stream⟩
      · rw [same]
        exact ⟨(logged.started _ _ q.p_lt).replyOnChannel _ (by decide) q.p_lt _, stream⟩
    · have sent : ∀ command ∈ muxCommands,
          Framing (sendMux command { s with log := s.log ++ [.frame q] } q.p pay) ∧
            logStream (sendMux command { s with log := s.log ++ [.frame q] } q.p pay).log =
              logStream s.log := by
        intro command mux
        rcases sendMux_cases command { s with log := s.log ++ [.frame q] } q.p pay with
          ⟨-, text, -, same⟩ | ⟨id, -, same⟩
        · rw [same]
          exact ⟨logged.replyOnChannel .loop mux q.p_lt text, stream⟩
        · rw [same]
          exact ⟨logged.loop _ nofun, stream⟩
      split at taken
      · rw [Option.some_inj] at taken
        exact taken ▸ sent CMD_MID_MUX (by decide)
      · split at taken
        · rw [Option.some_inj] at taken
          exact taken ▸ sent CMD_END_MUX (by decide)
        · cases taken
  · cases taken

theorem Framing.loopStep {outcome : Outcome} (framing : Framing s)
    (taken : loopStep s outcome = some next) :
    Framing next ∧
      logStream next.log = logStream s.log ++ bytesOf (written host s (.loop outcome)) := by
  unfold Mux.loopStep at taken
  rw [written]
  split at taken
  · rename_i writer q payload replying
    obtain ⟨quint, -⟩ := framing.replying writer q payload replying
    rw [replying]
    split at taken
    · rw [Option.some_inj] at taken
      subst taken
      exact ⟨framing.loop _ nofun, (List.append_nil _).symm⟩
    · rename_i unfailing
      rw [Option.some_inj] at taken
      subst taken
      refine ⟨(framing.loop .ready nofun).log _, ?_⟩
      have writes : outcome.fails = false := by
        cases outcome with
        | failed err => exact absurd rfl (unfailing err)
        | _ => rfl
      rw [logStream_append, Event.bytes]
      simp only [writes]
      conv_lhs => rw [quint]
      rfl
  · rename_i id _ _ _ sending
    rw [sending]
    obtain ⟨proc, -, taken⟩ := Option.bind_eq_some_iff.mp taken
    split at taken
    · rw [Option.some_inj] at taken
      subst taken
      exact ⟨framing.loop _ nofun, (List.append_nil _).symm⟩
    · cases taken
  · rename_i id p closing
    rw [closing]
    obtain ⟨proc, found, taken⟩ := Option.map_eq_some_iff.mp taken
    split at taken
    · subst taken
      exact ⟨framing.loop _ nofun, (List.append_nil _).symm⟩
    · subst taken
      refine ⟨⟨?_, nofun⟩, (List.append_nil _).symm⟩
      exact (framing.set { proc with inPacket := .closed } found rfl).channels
  · cases taken

theorem Framing.deliver (framing : Framing s) (taken : deliver host s = some next) :
    Framing next ∧ logStream next.log = logStream s.log := by
  unfold Mux.deliver at taken
  split at taken
  · rename_i id p tag pay sending
    obtain ⟨proc, found, taken⟩ := Option.bind_eq_some_iff.mp taken
    obtain ⟨expected, -, taken⟩ := Option.bind_eq_some_iff.mp taken
    split at taken
    · have onward : Framing { s with loop := if tag = CMD_END_MUX then .close id p else .ready } :=
        framing.loop _ fun _ _ _ same => by split at same <;> cases same
      dsimp only at taken
      split at taken
      · rw [Option.some_inj] at taken
        exact taken ▸ ⟨onward.set _ found rfl, rfl⟩
      · rw [Option.some_inj] at taken
        subst taken
        exact ⟨onward.panicStep found rfl _, by rw [panicStep_log]⟩
    · cases taken
  · cases taken

theorem Stage.puts_command {stage after : Stage} {command : UInt8} {payload : Text}
    (puts : stage.puts host = some (command, payload, after)) : command ∈ muxCommands := by
  cases stage <;> cases puts <;> decide

theorem Framing.runStep {id : Nat} {outcome : Outcome} (framing : Framing s)
    (taken : runStep host s id outcome = some next) :
    Framing next ∧
      logStream next.log = logStream s.log ++ bytesOf (written host s (.run id outcome)) := by
  obtain ⟨proc, found, taken⟩ := Option.bind_eq_some_iff.mp taken
  rw [written, found, Option.bind_some]
  split at taken
  · rename_i starting
    have silent : proc.stage.puts host = none := by
      rw [starting]
      rfl
    rw [silent, Option.bind_none, bytesOf, Option.elim_none, List.append_nil]
    split at taken
    · rw [Option.some_inj] at taken
      exact taken ▸ ⟨framing.crashed true, rfl⟩
    · rw [Option.some_inj] at taken
      exact taken ▸ ⟨framing.set _ found rfl, rfl⟩
  · rename_i taking
    have silent : proc.stage.puts host = none := by
      rw [taking]
      rfl
    rw [silent, Option.bind_none, bytesOf, Option.elim_none, List.append_nil]
    split at taken
    · rw [Option.some_inj] at taken
      subst taken
      exact ⟨framing.panicStep found rfl _, by rw [panicStep_log]⟩
    · rw [Option.some_inj] at taken
      exact taken ▸ ⟨framing.set _ found rfl, rfl⟩
  · split at taken
    · rename_i command payload after puts
      rw [puts, Option.bind_some]
      split at taken
      · rw [Option.some_inj] at taken
        subst taken
        exact ⟨framing.panicStep found rfl _, by rw [panicStep_log]; exact (List.append_nil _).symm⟩
      · rename_i unfailing
        rw [Option.some_inj] at taken
        subst taken
        refine ⟨(framing.set { proc with stage := after } found rfl).log _, ?_⟩
        have writes : outcome.fails = false := by
          cases outcome with
          | failed err => exact absurd rfl (unfailing err)
          | _ => rfl
        rw [logStream_append, Event.bytes]
        simp only [writes]
        rfl
    · rename_i silent
      rw [silent, Option.bind_none, bytesOf, Option.elim_none, List.append_nil]
      split at taken
      · rw [Option.some_inj] at taken
        subst taken
        exact ⟨framing.panicStep found rfl _, by rw [panicStep_log]⟩
      · cases taken

theorem Framing.timeoutStep {id : Nat} (framing : Framing s)
    (taken : timeoutStep s id = some next) :
    Framing next ∧ logStream next.log = logStream s.log := by
  obtain ⟨proc, found, taken⟩ := Option.bind_eq_some_iff.mp taken
  split at taken
  · rw [Option.some_inj] at taken
    subst taken
    have held : (s.procs.set id { proc with inPacket := .nil })[id]? =
        some { proc with inPacket := .nil } := by
      rw [List.getElem?_set_self (List.getElem?_eq_some_iff.mp found).1]
    exact ⟨(framing.set { proc with inPacket := .nil } found rfl).panicStep held rfl _,
      by rw [panicStep_log]⟩
  · cases taken

/-- What a step adds to the log is the message it writes. -/
theorem Framing.step {action : Action} (framing : Framing s)
    (taken : step host s action = some next) :
    Framing next ∧ logStream next.log = logStream s.log ++ bytesOf (written host s action) := by
  unfold Mux.step at taken
  split at taken
  · cases taken
  · cases action with
    | frame q pay =>
      obtain ⟨after, same⟩ := framing.readFrame taken
      exact ⟨after, same.trans (List.append_nil _).symm⟩
    | loop outcome => exact framing.loopStep taken
    | deliver =>
      obtain ⟨after, same⟩ := framing.deliver taken
      exact ⟨after, same.trans (List.append_nil _).symm⟩
    | run id outcome => exact framing.runStep taken
    | timeout id =>
      obtain ⟨after, same⟩ := framing.timeoutStep taken
      exact ⟨after, same.trans (List.append_nil _).symm⟩

/-- Every message is one of the mux's, on a channel of two bytes, with the payload's length. -/
theorem Framing.written {action : Action} (framing : Framing s) {m : Message}
    (writes : written host s action = some m) :
    m = .of m.command m.p m.payload ∧ m.p < 65536 ∧ m.command ∈ muxCommands := by
  cases action with
  | loop outcome =>
    rw [Mux.written] at writes
    split at writes
    · rename_i writer q payload replying
      split at writes
      · cases writes
      · cases writes
        exact ⟨rfl, q.p_lt, (framing.replying writer q payload replying).2⟩
    · cases writes
  | run id outcome =>
    obtain ⟨proc, found, writes⟩ := Option.bind_eq_some_iff.mp writes
    obtain ⟨⟨command, payload, after⟩, puts, writes⟩ := Option.bind_eq_some_iff.mp writes
    dsimp only at writes
    split at writes
    · cases writes
    · cases writes
      exact ⟨rfl, framing.channels proc (List.mem_of_getElem? found), Stage.puts_command puts⟩
  | _ => cases writes

end

end Frobio.Mux
