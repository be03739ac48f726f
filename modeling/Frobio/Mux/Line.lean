/-
This file follows one channel of a session through the log, and says when the
client sees a protocol there.

A line is what the client knows about the channel: the command it was told has
started and not that it has ended, and the frame it waits for the answer to.
`follow` accepts an event if it may come next, and `followChannel` reads the whole
log that way. A log that is accepted has one reply to every frame but perhaps the
last one, the reply has the right command, and it comes from the goroutine that the
BEGIN on that channel started, or from the frame loop if there is none.
-/

import Frobio.Mux.Fault

namespace Frobio.Mux

open Coms SlashPath Run

/-! ### Lines -/

structure Line where
  command : Option Nat
  awaiting : Option UInt8
  deriving DecidableEq

def Line.quiet : Line := ⟨none, none⟩

/-- The frame loop may refuse what the line waits for: a BEGIN, with an END, and a MID or an END
where no command is. -/
def Line.Refuses (line : Line) (q : Quint) : Prop :=
  (line.awaiting = some CMD_BEGIN_MUX ∧ q.command = CMD_END_MUX) ∨
    (line.command = none ∧ (q.command = CMD_MID_MUX ∨ q.command = CMD_END_MUX) ∧
      line.awaiting = some q.command)

instance (line : Line) (q : Quint) : Decidable (line.Refuses q) :=
  inferInstanceAs (Decidable (_ ∨ _))

/-- The line after an event, if the event may come next. -/
def follow (line : Line) : Event → Option Line
  | .frame q => if line.awaiting = none then some { line with awaiting := some q.command } else none
  | .reply .loop q payload =>
    if payload.head? = some muxBad ∧ line.Refuses q then some { line with awaiting := none }
    else none
  | .reply (.starting id) q payload =>
    if line = ⟨none, some CMD_BEGIN_MUX⟩ ∧ q.command = CMD_BEGIN_MUX ∧ payload = muxGood then
      some ⟨some id, none⟩
    else none
  | .reply (.proc id) q _ =>
    if line = ⟨some id, some q.command⟩ then
      if q.command = CMD_MID_MUX then some ⟨some id, none⟩
      else if q.command = CMD_END_MUX then some ⟨none, none⟩
      else none
    else none

def Event.channel : Event → Nat
  | .frame q => q.p
  | .reply _ q _ => q.p

/-- The line of a channel after the whole log. -/
def followChannel (p : Nat) (log : List Event) : Option Line :=
  (log.filter fun event => event.channel == p).foldlM follow .quiet

theorem followChannel_append_self {p : Nat} {log : List Event} {line after : Line} {event : Event}
    (here : event.channel = p) (followed : followChannel p log = some line)
    (next : follow line event = some after) : followChannel p (log ++ [event]) = some after := by
  unfold followChannel at followed ⊢
  rw [List.filter_append, List.filter_cons_of_pos (by simpa using here), List.filter_nil,
    List.foldlM_append, followed]
  simpa using next

theorem followChannel_append_of_ne {p : Nat} (log : List Event) {event : Event}
    (elsewhere : event.channel ≠ p) : followChannel p (log ++ [event]) = followChannel p log := by
  unfold followChannel
  rw [List.filter_append, List.filter_cons_of_neg (by simpa using elsewhere), List.filter_nil,
    List.append_nil]

/-- Every channel's line after an event on one of them. -/
theorem followChannel_append {line : Nat → Line} {log : List Event} {after : Line}
    (event : Event) (followed : ∀ p, followChannel p log = some (line p))
    (next : follow (line event.channel) event = some after) (p : Nat) :
    followChannel p (log ++ [event]) = some (Function.update line event.channel after p) := by
  by_cases here : p = event.channel
  · subst here
    rw [Function.update_self]
    exact followChannel_append_self rfl (followed _) next
  · rw [Function.update_of_ne here, followChannel_append_of_ne _ (Ne.symm here)]
    exact followed p

/-! ### The condition -/

/-- A packet is welcome: the goroutine will take it and answer it. A `PutTCommand` that gets an
error from the client, or a packet that is not its file's, panics without an answer. -/
def Stage.welcomes (tag : UInt8) (pay : Text) : Stage → Bool
  | start | say _ _ | exitDot _ => tag = CMD_MID_MUX
  | errorPacket _ _ => tag = CMD_MID_MUX ∧ pay = []
  | packet _ _ => tag = CMD_MID_MUX ∧ (pay = [] ∨ pay.head? = some 54)
  | exitEnd _ => tag = CMD_END_MUX
  | _ => false

/-- The client waits for the reply to its last frame on the channel, begins no command on channel
0, and sends only packets that are welcome; no write fails and no goroutine waits too long. -/
def Kept (host : Host) (s : Session) : Action → Prop
  | .frame q pay =>
    (∀ line ∈ followChannel q.p s.log, line.awaiting = none) ∧
    (q.command = CMD_BEGIN_MUX → q.p = 0 → commandOf host pay = none) ∧
    (q.command ≠ CMD_BEGIN_MUX → ∀ id ∈ s.procTable q.p, ∀ proc ∈ s.procs[id]?,
      proc.stage.welcomes q.command pay = true)
  | .loop outcome => outcome.fails = false
  | .deliver => True
  | .run id outcome =>
    ∀ proc ∈ s.procs[id]?, proc.stage ≠ .start → outcome.fails = false
  | .timeout _ => False

instance (host : Host) (s : Session) : ∀ action, Decidable (Kept host s action)
  | .frame _ _ => inferInstanceAs (Decidable (_ ∧ _ ∧ _))
  | .loop _ => inferInstanceAs (Decidable (_ = _))
  | .deliver => .isTrue trivial
  | .run id _ => inferInstanceAs (Decidable (∀ proc ∈ s.procs[id]?, _))
  | .timeout _ => .isFalse id

/-! ### What the stages owe -/

/-- The reply a goroutine owes the client. -/
def Stage.owes : Stage → Option UInt8
  | said _ _ | ask _ _ | take _ _ _ | close _ _ | exitDotted _ => some CMD_MID_MUX
  | exitEnded _ => some CMD_END_MUX
  | _ => none

section

variable {host : Host} {stage : Stage} {tag : UInt8} {pay : Text}

theorem Stage.owes_cases (owed : stage.owes = some tag) :
    tag = CMD_MID_MUX ∨ tag = CMD_END_MUX := by
  cases stage <;> cases owed <;> first | exact .inl rfl | exact .inr rfl

theorem Stage.welcomes_cases (welcome : stage.welcomes tag pay = true) :
    (tag = CMD_MID_MUX ∨ tag = CMD_END_MUX) ∧ stage.owes = none ∧ stage.ending = false := by
  cases stage <;>
    simp only [welcomes, Bool.false_eq_true, decide_eq_true_eq] at welcome <;>
    first
      | exact ⟨.inl welcome, rfl, rfl⟩
      | exact ⟨.inl welcome.1, rfl, rfl⟩
      | exact ⟨.inr welcome, rfl, rfl⟩

/-- A welcome packet is accepted, and then its answer is owed. -/
theorem Stage.accept_of_welcomes (host : Host) (welcome : stage.welcomes tag pay = true)
    (expects : stage.expected ≠ none) :
    stage.expected = some tag ∧ ∃ after, stage.accept host pay = .ok after ∧
      after.owes = some tag ∧ after ≠ .finished ∧ (after.ending = true ↔ tag = CMD_END_MUX) := by
  have mid : CMD_MID_MUX ≠ CMD_END_MUX := by decide
  cases stage with
  | say message script =>
    have isMid : tag = CMD_MID_MUX := by simpa [welcomes] using welcome
    exact ⟨isMid ▸ rfl, _, rfl, isMid ▸ rfl, by simp, by simp [ending, isMid, mid]⟩
  | errorPacket src dest =>
    have both : tag = CMD_MID_MUX ∧ pay = [] := by simpa [welcomes] using welcome
    obtain ⟨isMid, rfl⟩ := both
    exact ⟨isMid ▸ rfl, _, rfl, isMid ▸ rfl, by simp, by simp [ending, isMid, mid]⟩
  | packet src dest =>
    have both : tag = CMD_MID_MUX ∧ (pay = [] ∨ pay.head? = some 54) := by
      simpa [welcomes] using welcome
    obtain ⟨isMid, content⟩ := both
    refine ⟨isMid ▸ rfl, ?_⟩
    rcases content with rfl | six
    · exact ⟨_, rfl, isMid ▸ rfl, by simp, by simp [ending, isMid, mid]⟩
    · cases pay with
      | nil => cases six
      | cons first rest =>
        obtain rfl : first = 54 := by simpa using six
        cases rest with
        | nil => exact ⟨_, rfl, isMid ▸ rfl, by simp, by simp [ending, isMid, mid]⟩
        | cons => exact ⟨_, rfl, isMid ▸ rfl, by simp, by simp [ending, isMid, mid]⟩
  | exitDot verdict =>
    have isMid : tag = CMD_MID_MUX := by simpa [welcomes] using welcome
    exact ⟨isMid ▸ rfl, _, rfl, isMid ▸ rfl, by simp, by simp [ending, isMid, mid]⟩
  | exitEnd verdict =>
    have isEnd : tag = CMD_END_MUX := by simpa [welcomes] using welcome
    exact ⟨isEnd ▸ rfl, _, rfl, isEnd ▸ rfl, by simp, by simp [ending, isEnd]⟩
  | _ => exact absurd rfl expects

/-- A stage that writes owes what it writes, and then owes nothing. -/
theorem Stage.puts_cases {command : UInt8} {payload : Text} {after : Stage}
    (puts : stage.puts host = some (command, payload, after)) :
    stage.owes = some command ∧ stage ≠ .finished ∧ after.owes = none ∧
      (after = .finished ↔ command = CMD_END_MUX) ∧
      (after.ending = true ↔ command = CMD_END_MUX) ∧ (stage.ending = true ↔ command = CMD_END_MUX) := by
  have mid : CMD_MID_MUX ≠ CMD_END_MUX := by decide
  cases stage with
  | said message script =>
    cases puts
    obtain ⟨messages, ending⟩ := script
    cases messages with
    | cons => simp [owes, Script.next, Stage.ending, mid]
    | nil => cases ending <;> simp [owes, Script.next, Stage.ending, mid]
  | ask src dest => cases puts; simp [owes, ending, mid]
  | close src dest => cases puts; simp [owes, ending, mid]
  | exitDotted verdict => cases puts; simp [owes, ending, mid]
  | exitEnded verdict => cases puts; simp [owes, ending]
  | _ => cases puts

/-- Whatever a command does first, it waits for a MID, whatever the payload. -/
theorem runCommand_welcomes (host : Host) (fn : CommandFunc) (argv : List Text)
    (outcome : Outcome) (pay : Text) :
    (runCommand host fn argv outcome).next.welcomes CMD_MID_MUX pay = true := by
  have messages : ∀ {script : Script}, script.messages ≠ [] →
      script.next.welcomes CMD_MID_MUX pay = true := by
    rintro ⟨messages, ending⟩ some
    cases messages with
    | nil => exact absurd rfl some
    | cons => rfl
  have once : ∀ text, (panicsAtOnce text).next.welcomes CMD_MID_MUX pay = true := fun _ => rfl
  cases fn with
  | help => rfl
  | echo => rfl
  | vecho =>
    rw [runCommand, verticalEchoCommand]
    cases argv.tail <;> rfl
  | gett =>
    rw [runCommand, getTCommand]
    repeat' split
    all_goals first | exact once _ | exact messages (by simp)
  | getb =>
    rw [runCommand, getBCommand]
    repeat' split
    all_goals first | exact once _ | exact messages (by simp)
  | putt =>
    rw [runCommand, putTCommand]
    repeat' split
    all_goals first | exact once _ | exact messages (by simp)

end

end Frobio.Mux
