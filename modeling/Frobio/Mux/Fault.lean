/-
This file is about the panics of a session's goroutines: none of them leaves its
goroutine as long as the client keeps to what the goroutines expect.

`Expected` is that condition, on every step. No command is begun on channel 0,
where the assertion of `RunCommandFunc` fails. A packet is handed over only to a
goroutine that expects its tag: an END that kills a command reaches `Exit3` with
its channel closed. No goroutine waits 500 seconds, and no write of `Exit3` fails.
-/

import Frobio.Lib.Run
import Frobio.Mux.Session

namespace Frobio.Mux

open Coms SlashPath Run

/-! ### What a BEGIN does -/

/-- The answer to a BEGIN that starts no command begins with the mark `MuxBad`. -/
def muxBad : UInt8 := 45

/-- A BEGIN is refused, or the named command is started on a channel that was free. -/
theorem beginMux_cases (host : Host) (s : Session) (p : Nat) (pay : Text) :
    (∃ text, text.head? = some muxBad ∧
      beginMux host s p pay = replyOnChannel s .loop CMD_END_MUX p text) ∨
    (s.procTable p = none ∧ ∃ fn, commandOf host pay = some fn ∧
      beginMux host s p pay = replyOnChannel
        { s with
          procTable := Function.update s.procTable p (some s.procs.length)
          procs := s.procs ++ [⟨p, fn, argvOf pay, .opened, .start⟩] }
        (.starting s.procs.length) CMD_BEGIN_MUX p muxGood) := by
  unfold beginMux
  cases taken : s.procTable p with
  | some id => exact .inl ⟨_, rfl, rfl⟩
  | none =>
    dsimp only
    cases words : argvOf pay with
    | nil => exact .inl ⟨_, rfl, rfl⟩
    | cons name args =>
      dsimp only
      cases found : commandFuncs.lookup (toLower host name) with
      | none => exact .inl ⟨_, rfl, rfl⟩
      | some fn =>
        refine .inr ⟨rfl, fn, ?_, rfl⟩
        rw [commandOf, words]
        exact found

/-- A MID or an END is refused, or is on its way to the goroutine of the channel. -/
theorem sendMux_cases (command : UInt8) (s : Session) (p : Nat) (pay : Text) :
    (s.procTable p = none ∧ ∃ text, text.head? = some muxBad ∧
      sendMux command s p pay = replyOnChannel s .loop command p text) ∨
    ∃ id, s.procTable p = some id ∧
      sendMux command s p pay = { s with loop := .send id p command pay } := by
  unfold sendMux
  cases s.procTable p with
  | none => exact .inl ⟨rfl, _, rfl, rfl⟩
  | some id => exact .inr ⟨id, rfl, rfl⟩

/-! ### The condition -/

def Outcome.fails : Outcome → Bool
  | .failed _ => true
  | _ => false

/-- The step is one the goroutines provide for. -/
def Expected (host : Host) (s : Session) : Action → Prop
  | .frame q pay => q.command = CMD_BEGIN_MUX → q.p = 0 → commandOf host pay = none
  | .loop _ => True
  | .deliver =>
    match s.loop with
    | .send id _ tag _ =>
      match s.procs[id]? with
      | some proc => proc.stage.expected = some tag
      | none => True
    | _ => True
  | .run id outcome =>
    match s.procs[id]? with
    | some proc => proc.stage.exiting = true → outcome.fails = false
    | none => True
  | .timeout _ => False

instance (host : Host) (s : Session) (action : Action) : Decidable (Expected host s action) := by
  unfold Expected
  repeat' split
  all_goals infer_instance

/-! ### The invariant -/

/-- The goroutine has taken its END. -/
def Stage.ending : Stage → Bool
  | .exitEnded _ | .finished => true
  | _ => false

/-- Nothing has gone wrong, and only a goroutine past its last `LowGetOne` has its channel
closed. -/
structure Sound (s : Session) : Prop where
  alive : s.crashed = false
  channels : ∀ proc ∈ s.procs, proc.channel ≠ 0
  packets : ∀ proc ∈ s.procs, proc.inPacket = .opened ∨
    (proc.inPacket = .closed ∧ proc.stage.ending = true)
  closing : ∀ id p, s.loop = .close id p → ∀ proc, s.procs[id]? = some proc →
    proc.stage.ending = true

section

variable {host : Host} {s next : Session}

theorem mem_set {procs : List Proc} {id : Nat} {proc other : Proc}
    (member : other ∈ procs.set id proc) : other = proc ∨ other ∈ procs :=
  (List.mem_or_eq_of_mem_set member).symm

theorem getElem?_set_cases {procs : List Proc} {id id' : Nat} {proc other : Proc}
    (found : (procs.set id proc)[id']? = some other) :
    (id' = id ∧ other = proc) ∨ (id' ≠ id ∧ procs[id']? = some other) := by
  rw [List.getElem?_set] at found
  split at found
  · rename_i same
    split at found
    · exact .inl ⟨same.symm, (Option.some_inj.mp found).symm⟩
    · cases found
  · rename_i other
    exact .inr ⟨fun same => other same.symm, found⟩

/-- A goroutine moves on within its stages, its channel as it was. -/
theorem Sound.set {id : Nat} {proc : Proc} (sound : Sound s) (stage : Stage)
    (found : s.procs[id]? = some proc)
    (onward : proc.stage.ending = true → stage.ending = true) :
    Sound { s with procs := s.procs.set id { proc with stage } } where
  alive := sound.alive
  channels := by
    intro other member
    rcases mem_set member with rfl | old
    · exact sound.channels proc (List.mem_of_getElem? found)
    · exact sound.channels other old
  packets := by
    intro other member
    rcases mem_set member with rfl | old
    · rcases sound.packets proc (List.mem_of_getElem? found) with opened | ⟨closed, ended⟩
      · exact .inl opened
      · exact .inr ⟨closed, onward ended⟩
    · exact sound.packets other old
  closing := by
    intro id' p closing other at_id
    rcases getElem?_set_cases at_id with ⟨rfl, rfl⟩ | ⟨-, old⟩
    · exact onward (sound.closing id' p closing proc found)
    · exact sound.closing id' p closing other old

theorem Sound.log (sound : Sound s) (log : List Event) : Sound { s with log } :=
  ⟨sound.alive, sound.channels, sound.packets, sound.closing⟩

/-- The loop goes anywhere but to closing a channel. -/
theorem Sound.loop (sound : Sound s) {loop : Loop} (open_ : ∀ id p, loop ≠ .close id p) :
    Sound { s with loop } :=
  ⟨sound.alive, sound.channels, sound.packets, fun id p closing => absurd closing (open_ id p)⟩

theorem Sound.replyOnChannel (sound : Sound s) (writer : Writer) (command : UInt8) (p : Nat)
    (pay : Text) : Sound (replyOnChannel s writer command p pay) :=
  sound.loop fun _ _ same => by cases same

theorem Sound.readFrame {q : Quint} {pay : Text} (sound : Sound s)
    (condition : Expected host s (.frame q pay)) (taken : readFrame host s q pay = some next) :
    Sound next := by
  unfold Mux.readFrame at taken
  split at taken
  · have logged := sound.log (s.log ++ [.frame q])
    dsimp only at taken
    split at taken
    · rename_i begins
      rw [Option.some_inj] at taken
      subst taken
      rcases beginMux_cases host { s with log := s.log ++ [.frame q] } q.p pay with
        ⟨text, -, same⟩ | ⟨-, fn, named, same⟩
      · rw [same]
        exact logged.replyOnChannel ..
      · rw [same]
        refine ⟨sound.alive, ?_, ?_, fun id p closing => by cases closing⟩
        · intro proc member
          rcases List.mem_append.mp member with old | new
          · exact sound.channels proc old
          · rw [List.mem_singleton.mp new]
            intro zero
            rw [condition begins zero] at named
            cases named
        · intro proc member
          rcases List.mem_append.mp member with old | new
          · exact sound.packets proc old
          · rw [List.mem_singleton.mp new]
            exact .inl rfl
    · have sent : ∀ command, Sound (sendMux command { s with log := s.log ++ [.frame q] } q.p pay) := by
        intro command
        rcases sendMux_cases command { s with log := s.log ++ [.frame q] } q.p pay with
          ⟨-, text, -, same⟩ | ⟨id, -, same⟩
        · rw [same]
          exact logged.replyOnChannel ..
        · rw [same]
          exact logged.loop fun _ _ same => by cases same
      split at taken
      · rw [Option.some_inj] at taken
        exact taken ▸ sent CMD_MID_MUX
      · split at taken
        · rw [Option.some_inj] at taken
          exact taken ▸ sent CMD_END_MUX
        · cases taken
  · cases taken

theorem Sound.loopStep {outcome : Outcome} (sound : Sound s)
    (taken : loopStep s outcome = some next) : Sound next := by
  unfold Mux.loopStep at taken
  split at taken
  · split at taken
    · rw [Option.some_inj] at taken
      subst taken
      exact sound.loop fun _ _ same => by cases same
    · rw [Option.some_inj] at taken
      subst taken
      have readied : Sound { s with loop := .ready } := sound.loop fun _ _ same => by cases same
      exact readied.log _
  · obtain ⟨proc, -, taken⟩ := Option.bind_eq_some_iff.mp taken
    split at taken
    · rw [Option.some_inj] at taken
      subst taken
      exact sound.loop fun _ _ same => by cases same
    · cases taken
  · rename_i id p closing
    obtain ⟨proc, found, taken⟩ := Option.map_eq_some_iff.mp taken
    split at taken
    · subst taken
      exact sound.loop fun _ _ same => by cases same
    · subst taken
      refine ⟨sound.alive, ?_, ?_, fun id p closing => by cases closing⟩
      · intro other member
        rcases mem_set member with rfl | old
        · exact sound.channels proc (List.mem_of_getElem? found)
        · exact sound.channels other old
      · intro other member
        rcases mem_set member with rfl | old
        · exact .inr ⟨rfl, sound.closing id p closing proc found⟩
        · exact sound.packets other old
  · cases taken

/-- A packet with the expected tag is returned. -/
theorem Stage.lowGetOne_self (host : Host) (channel : Nat) (tag : UInt8) (pay : Text)
    (stage : Stage) : stage.lowGetOne host channel tag tag pay =
      stage.accept host pay := by
  have notKill : ¬(tag = CMD_MID_MUX ∧ tag = CMD_END_MUX) := by
    rintro ⟨mid, ending⟩
    rw [mid] at ending
    cases ending
  rw [Stage.lowGetOne, if_neg notKill, if_neg (fun other => other rfl)]

/-- Only the END leads past the last `LowGetOne`, and `Exit3` accepts whatever it expects. -/
theorem Stage.accept_cases (host : Host) {tag : UInt8} (pay : Text) {stage : Stage}
    (expects : stage.expected = some tag) :
    (∃ after, stage.accept host pay = .ok after ∧ (after.ending = true ↔ tag = CMD_END_MUX)) ∨
      (stage.exiting = false ∧ tag = CMD_MID_MUX ∧ ∃ text, stage.accept host pay = .error text) := by
  have mid : CMD_MID_MUX ≠ CMD_END_MUX := by decide
  cases stage with
  | say message script =>
    cases expects
    exact .inl ⟨_, rfl, by simp [ending, mid]⟩
  | errorPacket src dest =>
    cases expects
    unfold accept
    dsimp only
    split
    · exact .inr ⟨rfl, rfl, _, rfl⟩
    · exact .inl ⟨_, rfl, by simp [ending, mid]⟩
  | packet src dest =>
    cases expects
    unfold accept
    dsimp only
    split
    · exact .inl ⟨_, rfl, by simp [ending, mid]⟩
    · exact .inl ⟨_, rfl, by simp [ending, mid]⟩
    · exact .inl ⟨_, rfl, by simp [ending, mid]⟩
    · exact .inr ⟨rfl, rfl, _, rfl⟩
  | exitDot verdict =>
    cases expects
    exact .inl ⟨_, rfl, by simp [ending, mid]⟩
  | exitEnd verdict =>
    cases expects
    exact .inl ⟨_, rfl, by simp [ending]⟩
  | _ => cases expects

theorem Stage.ending_of_expected {tag : UInt8} {stage : Stage}
    (expects : stage.expected = some tag) : stage.ending = false := by
  cases stage <;> first | rfl | cases expects

theorem Sound.deliver (sound : Sound s) (condition : Expected host s .deliver)
    (taken : deliver host s = some next) : Sound next := by
  unfold Mux.deliver at taken
  split at taken
  · rename_i id p tag pay sending
    obtain ⟨proc, found, taken⟩ := Option.bind_eq_some_iff.mp taken
    obtain ⟨expected, expects, taken⟩ := Option.bind_eq_some_iff.mp taken
    have same : expected = tag := by
      have matched : proc.stage.expected = some tag := by
        simpa only [Expected, sending, found] using condition
      exact Option.some_inj.mp (expects.symm.trans matched)
    subst same
    rw [Stage.lowGetOne_self] at taken
    split at taken
    · have going := Stage.ending_of_expected expects
      rcases Stage.accept_cases host pay expects with
        ⟨after, accepted, ends⟩ | ⟨body, isMid, text, refused⟩
      · rw [accepted] at taken
        dsimp only at taken
        rw [Option.some_inj] at taken
        subst taken
        by_cases final : expected = CMD_END_MUX
        · rw [if_pos final]
          have moved := sound.set after found fun ended => by rw [going] at ended; cases ended
          refine ⟨moved.alive, moved.channels, moved.packets, ?_⟩
          rintro id' p' ⟨⟩ other at_id
          rcases getElem?_set_cases at_id with ⟨-, rfl⟩ | ⟨apart, -⟩
          · exact ends.mpr final
          · exact absurd rfl apart
        · rw [if_neg final]
          exact (sound.set after found fun ended => by
            rw [going] at ended; cases ended).loop fun _ _ same => by cases same
      · rw [refused] at taken
        dsimp only at taken
        rw [Option.some_inj, isMid, if_neg (by decide), panicStep, body] at taken
        subst taken
        exact (sound.set _ found fun ended => by rw [going] at ended; cases ended).loop
          fun _ _ same => by cases same
    · cases taken
  · cases taken

theorem Stage.puts_ending {host : Host} {stage next : Stage} {command : UInt8} {payload : Text}
    (puts : stage.puts host = some (command, payload, next)) :
    stage.ending = true → next.ending = true := by
  cases stage with
  | exitEnded verdict =>
    cases puts
    exact fun _ => rfl
  | finished => cases puts
  | _ => intro ended; cases ended

theorem Sound.panicStep {id : Nat} {proc : Proc} (sound : Sound s)
    (found : s.procs[id]? = some proc) (body : proc.stage.exiting = false)
    (going : proc.stage.ending = false) (text : Text) : Sound (panicStep s id proc text) := by
  rw [Mux.panicStep, body]
  exact sound.set _ found fun ended => by rw [going] at ended; cases ended

theorem Sound.runStep {id : Nat} {outcome : Outcome} (sound : Sound s)
    (condition : Expected host s (.run id outcome)) (taken : runStep host s id outcome = some next) :
    Sound next := by
  obtain ⟨proc, found, taken⟩ := Option.bind_eq_some_iff.mp taken
  have unfailing : proc.stage.exiting = true → outcome.fails = false := by
    simpa only [Expected, found] using condition
  split at taken
  · rename_i at_start
    rw [if_neg (sound.channels proc (List.mem_of_getElem? found)), Option.some_inj] at taken
    exact taken ▸ sound.set _ found fun ended => by rw [at_start] at ended; cases ended
  · rename_i src dest data at_take
    split at taken
    · rw [Option.some_inj] at taken
      exact taken ▸ sound.panicStep found (by rw [at_take]; rfl) (by rw [at_take]; rfl) _
    · rw [Option.some_inj] at taken
      exact taken ▸ sound.set _ found fun ended => by rw [at_take] at ended; cases ended
  · split at taken
    · rename_i command payload after puts
      split at taken
      · rw [Option.some_inj] at taken
        subst taken
        cases exiting : proc.stage.exiting with
        | true => cases unfailing exiting
        | false =>
          refine sound.panicStep found exiting ?_ _
          cases at_stage : proc.stage with
          | exitEnded verdict => rw [at_stage] at exiting; cases exiting
          | finished => rw [at_stage] at puts; cases puts
          | _ => rfl
      · rw [Option.some_inj] at taken
        subst taken
        exact (sound.set _ found (Stage.puts_ending puts)).log _
    · split at taken
      · rename_i waits
        obtain ⟨tag, expects⟩ := Option.isSome_iff_exists.mp waits.1
        rcases sound.packets proc (List.mem_of_getElem? found) with opened | ⟨-, ended⟩
        · rw [opened] at waits
          cases waits.2
        · rw [Stage.ending_of_expected expects] at ended
          cases ended
      · cases taken

theorem Sound.step {action : Action} (sound : Sound s) (condition : Expected host s action)
    (taken : step host s action = some next) : Sound next := by
  unfold Mux.step at taken
  rw [sound.alive, if_neg Bool.false_ne_true] at taken
  cases action with
  | frame q pay => exact sound.readFrame condition taken
  | loop outcome => exact sound.loopStep taken
  | deliver => exact sound.deliver condition taken
  | run id outcome => exact sound.runStep condition taken
  | timeout id => exact condition.elim

end

theorem Sound.start (id : Nat) : Sound (start id) where
  alive := rfl
  channels := fun _ member => (List.not_mem_nil member).elim
  packets := fun _ member => (List.not_mem_nil member).elim
  closing := fun _ _ closing => by cases closing

/-- **Fault isolation.** In every run whose steps the goroutines provide for, no panic leaves a
goroutine. -/
theorem not_crashed_of_expected (host : Host) (id : Nat) (actions : List Action)
    (meets : Meets (step host) (Expected host) (start id) actions) (s : Session)
    (reached : run (step host) (start id) actions = some s) : s.crashed = false :=
  (invariant_of_run Sound (fun _ _ _ sound condition taken => sound.step condition taken)
    (Sound.start id) meets reached).alive

/-- A host without a file system, whose texts are all ASCII. -/
def plainHost : Host where
  fs := []
  quote := fun text => [34] ++ text ++ [34]
  toLowerRunes := id

/-- A frame of the client. -/
def frame (command : UInt8) (p : Nat) (pay : Text) : Action :=
  .frame (replyQuint command p pay) pay

/-- The client begins an `echo`, takes its line and its dot, and ends it. -/
def echoRun : List Action :=
  [frame CMD_BEGIN_MUX 1 (ascii "echo hi"), .loop .done, .run 0 .done,
    frame CMD_MID_MUX 1 [], .deliver, .run 0 .done,
    frame CMD_MID_MUX 1 [], .deliver, .run 0 .done,
    frame CMD_END_MUX 1 [], .deliver, .loop .done, .run 0 .done]

theorem not_crashed_echoRun :
    ∃ s, run (step plainHost) (start 1) echoRun = some s ∧ s.crashed = false := by
  obtain ⟨s, reached⟩ := Option.isSome_iff_exists.mp
    (show (run (step plainHost) (start 1) echoRun).isSome = true by decide +kernel)
  exact ⟨s, reached,
    not_crashed_of_expected plainHost 1 echoRun (by decide +kernel) s reached⟩

/-- A command begun on channel 0 takes the process down, and so does an END that kills a
command, whose `Exit3` then finds its channel closed. -/
theorem crashed_channelZero_kill :
    (∃ s, run (step plainHost) (start 1)
        [frame CMD_BEGIN_MUX 0 (ascii "help"), .loop .done, .run 0 .done] = some s ∧
      s.crashed = true) ∧
    ∃ s, run (step plainHost) (start 1)
        [frame CMD_BEGIN_MUX 1 (ascii "help"), .loop .done, .run 0 .done,
          frame CMD_END_MUX 1 [], .deliver, .loop .done, .run 0 .done] = some s ∧
      s.crashed = true := by
  have channelZero : (run (step plainHost) (start 1)
      [frame CMD_BEGIN_MUX 0 (ascii "help"), .loop .done, .run 0 .done]).map Session.crashed =
        some true := by
    decide +kernel
  have kill : (run (step plainHost) (start 1)
      [frame CMD_BEGIN_MUX 1 (ascii "help"), .loop .done, .run 0 .done,
        frame CMD_END_MUX 1 [], .deliver, .loop .done, .run 0 .done]).map Session.crashed =
          some true := by
    decide +kernel
  exact ⟨Option.map_eq_some_iff.mp channelZero, Option.map_eq_some_iff.mp kill⟩

end Frobio.Mux
