/-
This file is about the replies of a session: every frame of the client is answered
once, by the goroutine it was meant for.

The invariant keeps, beside the line of every channel, who owes what to whom.
`Tracked` is about one goroutine, and `LoopAt` about the frame loop; the channel of
a goroutine that owes a reply has a line that waits for just this reply, so two
goroutines never owe one on the same channel. `Stage.effort` counts the steps a
goroutine can take before it waits for the client again, which bounds how long the
session can go on by itself.
-/

import Frobio.Mux.Line

namespace Frobio.Mux

open Coms SlashPath Run

/-! ### The invariant -/

/-- The goroutine whose BEGIN the frame loop is about to answer. -/
def Loop.starts : Loop → Option Nat
  | .reply (.starting id) _ _ => some id
  | _ => none

/-- A goroutine is where the lines and the table say it is. -/
structure Tracked (loop : Loop) (table : Nat → Option Nat) (line : Nat → Line) (id : Nat)
    (proc : Proc) : Prop where
  nonzero : proc.channel ≠ 0
  small : proc.channel < 65536
  packet : proc.inPacket = .opened ∨ (proc.inPacket = .closed ∧ proc.stage.ending = true)
  command : proc.stage ≠ .finished → loop.starts ≠ some id →
    (line proc.channel).command = some id
  entry : proc.stage.ending = false → table proc.channel = some id
  owes : ∀ tag, proc.stage.owes = some tag → line proc.channel = ⟨some id, some tag⟩

/-- What the frame loop is at is in line with the channel it is about. -/
def LoopAt (procs : List Proc) (table : Nat → Option Nat) (line : Nat → Line) : Loop → Prop
  | .ready => True
  | .reply .loop q payload => payload.head? = some muxBad ∧ (line q.p).Refuses q
  | .reply (.starting id) q payload =>
    line q.p = ⟨none, some CMD_BEGIN_MUX⟩ ∧ q.command = CMD_BEGIN_MUX ∧ payload = muxGood ∧
      ∃ proc : Proc, procs[id]? = some proc ∧ proc.channel = q.p ∧ proc.stage.owes = none ∧
        proc.stage.ending = false
  | .reply (.proc _) _ _ => False
  | .send id p tag pay =>
    line p = ⟨some id, some tag⟩ ∧
      ∃ proc : Proc, procs[id]? = some proc ∧ proc.channel = p ∧ proc.stage.welcomes tag pay = true
  | .close id p =>
    table p = some id ∧
      ∃ proc : Proc, procs[id]? = some proc ∧ proc.channel = p ∧ proc.stage.ending = true
  | .ended => False

/-- Somebody is at work on the reply. -/
def Owed (s : Session) (p : Nat) (tag : UInt8) : Prop :=
  (∃ writer q payload, s.loop = .reply writer q payload ∧ q.p = p) ∨
    (∃ id pay, s.loop = .send id p tag pay) ∨
    ∃ (id : Nat) (proc : Proc), s.procs[id]? = some proc ∧ proc.channel = p ∧
      proc.stage.owes = some tag

/-- The event tells the client that the command has started. -/
def Event.startsCommand (id : Nat) : Event → Bool
  | .reply (.starting other) _ _ => other == id
  | _ => false

/-- The event tells the client that the command has ended. -/
def Event.endsCommand (id : Nat) : Event → Bool
  | .reply (.proc other) q _ => other == id && q.command == CMD_END_MUX
  | _ => false

structure Invariant (s : Session) (line : Nat → Line) : Prop where
  alive : s.crashed = false
  follows : ∀ p, followChannel p s.log = some (line p)
  tracked : ∀ id proc, s.procs[id]? = some proc → Tracked s.loop s.procTable line id proc
  loop : LoopAt s.procs s.procTable line s.loop
  commands : ∀ p id, (line p).command = some id →
    ∃ proc : Proc, s.procs[id]? = some proc ∧ proc.channel = p ∧ proc.stage ≠ .finished
  table : ∀ p id, s.procTable p = some id → ∃ proc : Proc, s.procs[id]? = some proc ∧
    proc.channel = p ∧ (proc.stage.ending = true → s.loop = .close id p)
  owed : ∀ p tag, (line p).awaiting = some tag → Owed s p tag
  starts : ∀ id, s.log.countP (Event.startsCommand id) =
    if id < s.procs.length ∧ s.loop.starts ≠ some id then 1 else 0
  ends : ∀ id, s.log.countP (Event.endsCommand id) =
    if s.procs[id]?.map Proc.stage = some .finished then 1 else 0

section

variable {host : Host} {s next : Session} {line : Nat → Line}

theorem getElem?_set_self {procs : List Proc} {id : Nat} {proc : Proc} (other : Proc)
    (found : procs[id]? = some proc) : (procs.set id other)[id]? = some other := by
  rw [List.getElem?_set_self (List.getElem?_eq_some_iff.mp found).1]

theorem getElem?_set_of_ne {procs : List Proc} {id id' : Nat} (other : Proc) (apart : id' ≠ id) :
    (procs.set id other)[id']? = procs[id']? :=
  List.getElem?_set_ne apart.symm

/-! ### A goroutine goes on -/

/-- A goroutine that owes what it owed before, and is as far from its end, changes nothing. -/
theorem Invariant.moved {id : Nat} {proc : Proc} {stage : Stage} (invariant : Invariant s line)
    (found : s.procs[id]? = some proc) (owes : stage.owes = proc.stage.owes)
    (going : proc.stage.ending = false) (going' : stage.ending = false)
    (welcome : ∀ tag pay, proc.stage.welcomes tag pay = true → stage.welcomes tag pay = true) :
    Invariant { s with procs := s.procs.set id { proc with stage } } line := by
  have unfinished : ∀ {other : Stage}, other.ending = false → other ≠ .finished := by
    rintro other going rfl
    cases going
  have tracked := invariant.tracked id proc found
  -- who was found before is found now, with the same channel and in the same standing
  have still : ∀ (id' : Nat) (other : Proc), s.procs[id']? = some other → ∃ other' : Proc,
      (s.procs.set id { proc with stage })[id']? = some other' ∧ other'.channel = other.channel ∧
        other'.stage.owes = other.stage.owes ∧ other'.stage.ending = other.stage.ending ∧
        (other.stage ≠ .finished → other'.stage ≠ .finished) ∧
        ∀ tag pay, other.stage.welcomes tag pay = true → other'.stage.welcomes tag pay = true := by
    intro id' other here
    by_cases same : id' = id
    · subst same
      obtain rfl := Option.some_inj.mp (here.symm.trans found)
      exact ⟨_, getElem?_set_self _ found, rfl, owes, going'.trans going.symm,
        fun _ => unfinished going', welcome⟩
    · exact ⟨other, (getElem?_set_of_ne _ same).trans here, rfl, rfl, rfl, fun runs => runs,
        fun _ _ welcomes => welcomes⟩
  refine ⟨invariant.alive, invariant.follows, ?_, ?_, ?_, ?_, ?_, ?_, ?_⟩
  · intro id' other here
    rcases getElem?_set_cases here with ⟨rfl, rfl⟩ | ⟨-, old⟩
    · refine ⟨tracked.nonzero, tracked.small, ?_, fun _ => tracked.command (unfinished going),
        fun _ => tracked.entry going, fun tag owed => tracked.owes tag (owes ▸ owed)⟩
      rcases tracked.packet with opened | ⟨-, ended⟩
      · exact .inl opened
      · rw [going] at ended
        cases ended
    · exact invariant.tracked id' other old
  · have at_loop := invariant.loop
    show LoopAt _ s.procTable line s.loop
    generalize s.loop = loop at at_loop
    match loop with
    | .ready => trivial
    | .reply .loop q payload => exact at_loop
    | .reply (.starting id') q payload =>
      obtain ⟨waits, begins, good, other, here, onChannel, none, apart⟩ := at_loop
      obtain ⟨other', there, channel, sameOwes, sameEnding, -⟩ := still id' other here
      exact ⟨waits, begins, good, other', there, channel.trans onChannel, sameOwes.trans none,
        sameEnding.trans apart⟩
    | .send id' p tag pay =>
      obtain ⟨waits, other, here, onChannel, welcomed⟩ := at_loop
      obtain ⟨other', there, channel, -, -, -, welcomes⟩ := still id' other here
      exact ⟨waits, other', there, channel.trans onChannel, welcomes tag pay welcomed⟩
    | .close id' p =>
      obtain ⟨entry, other, here, onChannel, ended⟩ := at_loop
      obtain ⟨other', there, channel, -, sameEnding, -⟩ := still id' other here
      exact ⟨entry, other', there, channel.trans onChannel, sameEnding.trans ended⟩
  · intro p id' command
    obtain ⟨other, here, onChannel, runs⟩ := invariant.commands p id' command
    obtain ⟨other', there, channel, -, -, runs', -⟩ := still id' other here
    exact ⟨other', there, channel.trans onChannel, runs' runs⟩
  · intro p id' entry
    obtain ⟨other, here, onChannel, closing⟩ := invariant.table p id' entry
    obtain ⟨other', there, channel, -, sameEnding, -⟩ := still id' other here
    exact ⟨other', there, channel.trans onChannel, fun ended => closing (sameEnding ▸ ended)⟩
  · intro p tag waits
    rcases invariant.owed p tag waits with reply | send | ⟨id', other, here, onChannel, owed⟩
    · exact .inl reply
    · exact .inr (.inl send)
    · obtain ⟨other', there, channel, sameOwes, -⟩ := still id' other here
      exact .inr (.inr ⟨id', other', there, channel.trans onChannel, sameOwes.trans owed⟩)
  · intro id'
    rw [invariant.starts id']
    simp only [List.length_set]
  · intro id'
    rw [invariant.ends id']
    by_cases same : id' = id
    · subst same
      rw [found, getElem?_set_self _ found]
      simp [unfinished going, unfinished going']
    · rw [getElem?_set_of_ne _ same]

/-- The line after a goroutine's reply. -/
def replied (id : Nat) (command : UInt8) : Line :=
  if command = CMD_MID_MUX then ⟨some id, none⟩ else ⟨none, none⟩

theorem replyQuint_p {command : UInt8} {p : Nat} (small : p < 65536) (payload : Text) :
    (replyQuint command p payload).p = p := by
  rw [replyQuint, p_newQuint, Nat.mod_eq_of_lt small]

/-- A goroutine writes the reply it owes. -/
theorem Invariant.put {id : Nat} {proc : Proc} {command : UInt8} {payload : Text} {after : Stage}
    (invariant : Invariant s line) (found : s.procs[id]? = some proc)
    (puts : proc.stage.puts host = some (command, payload, after)) :
    Invariant
      { s with
        procs := s.procs.set id { proc with stage := after }
        log := s.log ++ [.reply (.proc id) (replyQuint command proc.channel payload) payload] }
      (Function.update line proc.channel (replied id command)) := by
  obtain ⟨owed, unfinished, settled, finishes, ends, ended⟩ := Stage.puts_cases puts
  have tracked := invariant.tracked id proc found
  have waits := tracked.owes command owed
  have kinds := Stage.owes_cases owed
  have midNotEnd : CMD_MID_MUX ≠ CMD_END_MUX := by decide
  have notBegin : command ≠ CMD_BEGIN_MUX := by
    rcases kinds with rfl | rfl <;> decide
  have channel : (replyQuint command proc.channel payload).p = proc.channel :=
    replyQuint_p tracked.small payload
  have elsewhere : ∀ (id' : Nat) (other : Proc), s.procs[id']? = some other → other.channel ≠ proc.channel →
      id' ≠ id := by
    rintro id' other here apart rfl
    exact apart (congrArg Proc.channel (Option.some_inj.mp (here.symm.trans found)))
  refine ⟨invariant.alive, ?_, ?_, ?_, ?_, ?_, ?_, ?_, ?_⟩
  · intro p
    have followed : follow (line (Event.reply (.proc id)
        (replyQuint command proc.channel payload) payload).channel)
          (.reply (.proc id) (replyQuint command proc.channel payload) payload) =
        some (replied id command) := by
      show follow (line (replyQuint command proc.channel payload).p) _ = _
      rw [channel, waits]
      rcases kinds with rfl | rfl
      · simp [follow, replied, replyQuint]
      · simp [follow, replied, replyQuint, midNotEnd.symm]
    have all := followChannel_append _ invariant.follows followed p
    change _ = some (Function.update line (replyQuint command proc.channel payload).p _ p) at all
    rwa [channel] at all
  · intro id' other here
    rcases getElem?_set_cases here with ⟨rfl, rfl⟩ | ⟨apart, old⟩
    · refine ⟨tracked.nonzero, tracked.small, ?_, ?_, ?_, ?_⟩
      · rcases tracked.packet with opened | ⟨closed, was⟩
        · exact .inl opened
        · exact .inr ⟨closed, ends.mpr (ended.mp was)⟩
      · intro runs _
        have mid : command = CMD_MID_MUX :=
          kinds.resolve_right fun isEnd => runs (finishes.mpr isEnd)
        simp only [Function.update_self, replied, if_pos mid]
      · intro going
        refine tracked.entry ?_
        rw [Bool.eq_false_iff] at going ⊢
        exact fun was => going (ends.mpr (ended.mp was))
      · intro tag owesMore
        rw [settled] at owesMore
        cases owesMore
    · have before := invariant.tracked id' other old
      refine ⟨before.nonzero, before.small, before.packet, ?_, before.entry, ?_⟩
      · intro runs notStarting
        have command := before.command runs notStarting
        by_cases same : other.channel = proc.channel
        · rw [same, waits] at command
          exact absurd (Option.some_inj.mp command).symm apart
        · rwa [Function.update_of_ne same]
      · intro tag owedToo
        have line' := before.owes tag owedToo
        by_cases same : other.channel = proc.channel
        · rw [same, waits, Line.mk.injEq] at line'
          exact absurd (Option.some_inj.mp line'.1).symm apart
        · rwa [Function.update_of_ne same]
  · have at_loop := invariant.loop
    show LoopAt _ s.procTable _ s.loop
    generalize s.loop = loop at at_loop
    match loop with
    | .ready => trivial
    | .reply .loop q payload =>
      obtain ⟨bad, refuses⟩ := at_loop
      have apart : q.p ≠ proc.channel := by
        intro same
        rw [same, waits] at refuses
        rcases refuses with ⟨begins, -⟩ | ⟨none, -⟩
        · exact notBegin (Option.some_inj.mp begins)
        · cases none
      refine ⟨bad, ?_⟩
      rwa [Function.update_of_ne apart]
    | .reply (.starting id') q payload =>
      obtain ⟨waiting, begins, good, other, here, onChannel, none, going⟩ := at_loop
      have apart : q.p ≠ proc.channel := by
        intro same
        rw [same, waits] at waiting
        cases waiting
      refine ⟨(Function.update_of_ne apart ..).trans waiting, begins, good, other, ?_, onChannel,
        none, going⟩
      exact (getElem?_set_of_ne _ (elsewhere id' other here (onChannel ▸ apart))).trans here
    | .send id' p tag pay =>
      obtain ⟨waiting, other, here, onChannel, welcomed⟩ := at_loop
      have apart : p ≠ proc.channel := by
        rintro rfl
        rw [waits, Line.mk.injEq, Option.some_inj] at waiting
        rw [← waiting.1] at here
        have free := (Stage.welcomes_cases welcomed).2.1
        rw [← Option.some_inj.mp (here.symm.trans found).symm, owed] at free
        cases free
      refine ⟨(Function.update_of_ne apart ..).trans waiting, other, ?_, onChannel, welcomed⟩
      exact (getElem?_set_of_ne _ (elsewhere id' other here (onChannel ▸ apart))).trans here
    | .close id' p =>
      obtain ⟨entry, other, here, onChannel, endedAlready⟩ := at_loop
      refine ⟨entry, ?_⟩
      by_cases same : id' = id
      · subst same
        obtain rfl := Option.some_inj.mp (here.symm.trans found)
        exact ⟨_, getElem?_set_self _ found, onChannel, ends.mpr (ended.mp endedAlready)⟩
      · exact ⟨other, (getElem?_set_of_ne _ same).trans here, onChannel, endedAlready⟩
  · intro p id' has
    by_cases same : p = proc.channel
    · subst same
      rw [Function.update_self, replied] at has
      split at has
      · rename_i mid
        obtain rfl := Option.some_inj.mp has
        exact ⟨_, getElem?_set_self _ found, rfl, fun final =>
          midNotEnd (mid.symm.trans (finishes.mp final))⟩
      · cases has
    · rw [Function.update_of_ne same] at has
      obtain ⟨other, here, onChannel, runs⟩ := invariant.commands p id' has
      refine ⟨other, ?_, onChannel, runs⟩
      exact (getElem?_set_of_ne _ (elsewhere id' other here (onChannel ▸ same))).trans here
  · intro p id' entry
    obtain ⟨other, here, onChannel, closing⟩ := invariant.table p id' entry
    by_cases same : id' = id
    · subst same
      obtain rfl := Option.some_inj.mp (here.symm.trans found)
      exact ⟨_, getElem?_set_self _ found, onChannel, fun isEnding =>
        closing (ended.mpr (ends.mp isEnding))⟩
    · exact ⟨other, (getElem?_set_of_ne _ same).trans here, onChannel, closing⟩
  · intro p tag awaiting
    by_cases same : p = proc.channel
    · subst same
      rw [Function.update_self, replied] at awaiting
      split at awaiting <;> cases awaiting
    · rw [Function.update_of_ne same] at awaiting
      rcases invariant.owed p tag awaiting with reply | send | ⟨id', other, here, onChannel, owes⟩
      · exact .inl reply
      · exact .inr (.inl send)
      · refine .inr (.inr ⟨id', other, ?_, onChannel, owes⟩)
        exact (getElem?_set_of_ne _ (elsewhere id' other here (onChannel ▸ same))).trans here
  · intro id'
    rw [List.countP_append, invariant.starts id']
    simp [Event.startsCommand]
  · intro id'
    rw [List.countP_append, invariant.ends id']
    by_cases same : id' = id
    · subst same
      rw [found, getElem?_set_self _ found]
      rcases kinds with rfl | rfl
      · have runs : after ≠ .finished := fun final => midNotEnd (finishes.mp final)
        simp [Event.endsCommand, unfinished, runs, replyQuint, midNotEnd]
      · have final : after = .finished := finishes.mpr rfl
        simp [Event.endsCommand, unfinished, final, replyQuint]
    · rw [getElem?_set_of_ne _ same]
      have other : ¬id = id' := fun equal => same equal.symm
      simp [Event.endsCommand, other]

/-- The frame loop hands a welcome packet over, and the goroutine owes its reply. -/
theorem Invariant.delivered {id p : Nat} {tag : UInt8} {pay : Text} {proc : Proc} {after : Stage}
    (invariant : Invariant s line) (sending : s.loop = .send id p tag pay)
    (found : s.procs[id]? = some proc) (welcome : proc.stage.welcomes tag pay = true)
    (owes : after.owes = some tag) (runs : after ≠ .finished)
    (ends : after.ending = true ↔ tag = CMD_END_MUX) :
    Invariant
      { s with
        procs := s.procs.set id { proc with stage := after }
        loop := if tag = CMD_END_MUX then .close id p else .ready } line := by
  have at_loop := invariant.loop
  rw [sending] at at_loop
  obtain ⟨waits, other, here, onChannel, -⟩ := at_loop
  obtain rfl := Option.some_inj.mp (here.symm.trans found)
  obtain ⟨-, free, going⟩ := Stage.welcomes_cases welcome
  have tracked := invariant.tracked id other found
  have notStarting : ∀ id', s.loop.starts ≠ some id' := by
    rw [sending]
    exact fun _ same => by cases same
  have notStarting' : (if tag = CMD_END_MUX then Loop.close id p else .ready).starts = none := by
    split <;> rfl
  refine ⟨invariant.alive, invariant.follows, ?_, ?_, ?_, ?_, ?_, ?_, ?_⟩
  · intro id' other' at_id
    rcases getElem?_set_cases at_id with ⟨rfl, rfl⟩ | ⟨-, old⟩
    · refine ⟨tracked.nonzero, tracked.small, ?_, fun _ _ => ?_, fun _ => tracked.entry going, ?_⟩
      · rcases tracked.packet with opened | ⟨-, ended⟩
        · exact .inl opened
        · rw [going] at ended
          cases ended
      · rw [onChannel, waits]
      · intro tag' owed
        obtain rfl := Option.some_inj.mp (owes.symm.trans owed)
        rw [onChannel, waits]
    · have before := invariant.tracked id' other' old
      exact ⟨before.nonzero, before.small, before.packet,
        fun runs _ => before.command runs (notStarting id'), before.entry, before.owes⟩
  · by_cases final : tag = CMD_END_MUX
    · simp only [if_pos final]
      exact ⟨onChannel ▸ tracked.entry going, _, getElem?_set_self _ found, onChannel,
        ends.mpr final⟩
    · simp only [if_neg final]
      trivial
  · intro p' id' command
    obtain ⟨other', there, channel, runs'⟩ := invariant.commands p' id' command
    by_cases same : id' = id
    · subst same
      obtain rfl := Option.some_inj.mp (there.symm.trans found)
      exact ⟨_, getElem?_set_self _ found, channel, runs⟩
    · exact ⟨other', (getElem?_set_of_ne _ same).trans there, channel, runs'⟩
  · intro p' id' entry
    obtain ⟨other', there, channel, closing⟩ := invariant.table p' id' entry
    by_cases same : id' = id
    · subst same
      obtain rfl := Option.some_inj.mp (there.symm.trans found)
      refine ⟨_, getElem?_set_self _ found, channel, fun ended => ?_⟩
      have here : p' = p := channel.symm.trans onChannel
      simp only [if_pos (ends.mp ended), here]
    · refine ⟨other', (getElem?_set_of_ne _ same).trans there, channel, fun ended => ?_⟩
      have now := closing ended
      rw [sending] at now
      cases now
  · intro p' tag' awaiting
    rcases invariant.owed p' tag' awaiting with
      ⟨_, _, _, replying, -⟩ | ⟨id', pay', alsoSending⟩ | ⟨id', other', there, channel, owed⟩
    · rw [sending] at replying
      cases replying
    · rw [sending] at alsoSending
      cases alsoSending
      exact .inr (.inr ⟨id, _, getElem?_set_self _ found, onChannel, owes⟩)
    · refine .inr (.inr ⟨id', other', ?_, channel, owed⟩)
      refine (getElem?_set_of_ne _ ?_).trans there
      rintro rfl
      obtain rfl := Option.some_inj.mp (there.symm.trans found)
      rw [free] at owed
      cases owed
  · intro id'
    have before := notStarting id'
    rw [invariant.starts id']
    simp [notStarting', before]
  · intro id'
    rw [invariant.ends id']
    by_cases same : id' = id
    · subst same
      have unfinished : other.stage ≠ .finished := by
        intro final
        rw [final] at going
        cases going
      rw [found, getElem?_set_self _ found]
      simp [runs, unfinished]
    · rw [getElem?_set_of_ne _ same]

/-! ### The frame loop goes on -/

/-- The frame loop writes a reply. -/
theorem Invariant.replied {writer : Writer} {q : Quint} {payload : Text}
    (invariant : Invariant s line) (replying : s.loop = .reply writer q payload) :
    ∃ line', Invariant { s with
      loop := .ready
      log := s.log ++ [.reply writer q payload] } line' := by
  have at_loop := invariant.loop
  rw [replying] at at_loop
  have notClosing : ∀ id p, s.loop ≠ .close id p := by
    rw [replying]
    exact fun _ _ same => by cases same
  have others : ∀ p, p ≠ q.p → ∀ tag, (line p).awaiting = some tag →
      Owed { s with loop := .ready, log := s.log ++ [.reply writer q payload] } p tag := by
    intro p apart tag awaiting
    rcases invariant.owed p tag awaiting with
      ⟨_, q', _, same, onChannel⟩ | ⟨_, _, sending⟩ | owed
    · rw [replying] at same
      cases same
      exact absurd onChannel.symm apart
    · rw [replying] at sending
      cases sending
    · exact .inr (.inr owed)
  have table : ∀ p id, s.procTable p = some id → ∃ proc : Proc, s.procs[id]? = some proc ∧
      proc.channel = p ∧ (proc.stage.ending = true → Loop.ready = .close id p) := by
    intro p id entry
    obtain ⟨proc, found, channel, closing⟩ := invariant.table p id entry
    exact ⟨proc, found, channel, fun ended => absurd (closing ended) (notClosing id p)⟩
  cases writer with
  | loop =>
    obtain ⟨bad, refuses⟩ := at_loop
    have notStarting : s.loop.starts = none := by rw [replying]; rfl
    have nobody : ∀ id tag, (tag = CMD_MID_MUX ∨ tag = CMD_END_MUX) →
        line q.p ≠ ⟨some id, some tag⟩ := by
      intro id tag kinds same
      rw [same] at refuses
      rcases refuses with ⟨begins, -⟩ | ⟨none, -⟩
      · rw [Option.some_inj] at begins
        rcases kinds with rfl | rfl <;> cases begins
      · cases none
    refine ⟨Function.update line q.p { line q.p with awaiting := none }, invariant.alive, ?_, ?_,
      trivial, ?_, table, ?_, ?_, ?_⟩
    · exact followChannel_append (.reply .loop q payload) invariant.follows
        (if_pos ⟨bad, refuses⟩)
    · intro id proc found
      have before := invariant.tracked id proc found
      refine ⟨before.nonzero, before.small, before.packet, ?_, before.entry, ?_⟩
      · intro runs _
        have command := before.command runs (by rw [notStarting]; exact fun same => by cases same)
        by_cases same : proc.channel = q.p
        · rw [same] at command ⊢
          rwa [Function.update_self]
        · rwa [Function.update_of_ne same]
      · intro tag owed
        have waits := before.owes tag owed
        by_cases same : proc.channel = q.p
        · rw [same] at waits
          exact absurd waits (nobody id tag (Stage.owes_cases owed))
        · rwa [Function.update_of_ne same]
    · intro p id command
      refine invariant.commands p id ?_
      by_cases same : p = q.p
      · subst same
        rwa [Function.update_self] at command
      · rwa [Function.update_of_ne same] at command
    · intro p tag awaiting
      by_cases same : p = q.p
      · subst same
        rw [Function.update_self] at awaiting
        cases awaiting
      · rw [Function.update_of_ne same] at awaiting
        exact others p same tag awaiting
    · intro id
      rw [List.countP_append, invariant.starts id, notStarting]
      simp [Event.startsCommand, Loop.starts]
    · intro id
      rw [List.countP_append, invariant.ends id]
      simp [Event.endsCommand]
  | starting id =>
    obtain ⟨waits, begins, good, proc, found, onChannel, free, going⟩ := at_loop
    have starting : s.loop.starts = some id := by rw [replying]; rfl
    have inRange : id < s.procs.length := (List.getElem?_eq_some_iff.mp found).1
    refine ⟨Function.update line q.p ⟨some id, none⟩, invariant.alive, ?_, ?_, trivial, ?_, table,
      ?_, ?_, ?_⟩
    · exact followChannel_append (.reply (.starting id) q payload) invariant.follows
        (if_pos ⟨waits, begins, good⟩)
    · intro id' other here
      have before := invariant.tracked id' other here
      refine ⟨before.nonzero, before.small, before.packet, ?_, before.entry, ?_⟩
      · intro runs _
        by_cases same : id' = id
        · subst same
          obtain rfl := Option.some_inj.mp (here.symm.trans found)
          rw [onChannel, Function.update_self]
        · have command := before.command runs (by
            rw [starting]
            exact fun equal => same (Option.some_inj.mp equal).symm)
          by_cases there : other.channel = q.p
          · rw [there, waits] at command
            cases command
          · rwa [Function.update_of_ne there]
      · intro tag owed
        have wait := before.owes tag owed
        by_cases there : other.channel = q.p
        · rw [there, waits] at wait
          cases wait
        · rwa [Function.update_of_ne there]
    · intro p id' command
      by_cases same : p = q.p
      · subst same
        rw [Function.update_self] at command
        obtain rfl := Option.some_inj.mp command
        refine ⟨proc, found, onChannel, fun final => ?_⟩
        rw [final] at going
        cases going
      · rw [Function.update_of_ne same] at command
        exact invariant.commands p id' command
    · intro p tag awaiting
      by_cases same : p = q.p
      · subst same
        rw [Function.update_self] at awaiting
        cases awaiting
      · rw [Function.update_of_ne same] at awaiting
        exact others p same tag awaiting
    · intro id'
      rw [List.countP_append, invariant.starts id', starting]
      by_cases same : id' = id
      · subst same
        simp [Event.startsCommand, Loop.starts, inRange]
      · have apart : ¬id = id' := fun equal => same equal.symm
        simp [Event.startsCommand, Loop.starts, apart]
    · intro id'
      rw [List.countP_append, invariant.ends id']
      simp [Event.endsCommand]
  | proc id => exact at_loop.elim

/-- The frame loop closes the channel of a goroutine that has taken its END. -/
theorem Invariant.closed {id p : Nat} {proc : Proc} (invariant : Invariant s line)
    (closing : s.loop = .close id p) (found : s.procs[id]? = some proc) :
    Invariant
      { s with
        procs := s.procs.set id { proc with inPacket := .closed }
        procTable := Function.update s.procTable p none
        loop := .ready } line := by
  have at_loop := invariant.loop
  rw [closing] at at_loop
  obtain ⟨entry, other, here, onChannel, ended⟩ := at_loop
  obtain rfl := Option.some_inj.mp (here.symm.trans found)
  have tracked := invariant.tracked id other found
  have notStarting : s.loop.starts = none := by rw [closing]; rfl
  have still : ∀ (id' : Nat) (proc : Proc), s.procs[id']? = some proc → ∃ proc' : Proc,
      (s.procs.set id { other with inPacket := .closed })[id']? = some proc' ∧
        proc'.channel = proc.channel ∧ proc'.stage = proc.stage := by
    intro id' proc there
    by_cases same : id' = id
    · rw [same] at there ⊢
      have equal := Option.some_inj.mp (found.symm.trans there)
      exact ⟨_, getElem?_set_self _ found, by rw [← equal], by rw [← equal]⟩
    · exact ⟨proc, (getElem?_set_of_ne _ same).trans there, rfl, rfl⟩
  refine ⟨invariant.alive, invariant.follows, ?_, trivial, ?_, ?_, ?_, ?_, ?_⟩
  · intro id' proc at_id
    rcases getElem?_set_cases at_id with ⟨rfl, rfl⟩ | ⟨apart, old⟩
    · refine ⟨tracked.nonzero, tracked.small, .inr ⟨rfl, ended⟩,
        fun runs _ => tracked.command runs (by rw [notStarting]; exact fun same => by cases same),
        fun going => ?_, tracked.owes⟩
      rw [ended] at going
      cases going
    · have before := invariant.tracked id' proc old
      refine ⟨before.nonzero, before.small, before.packet,
        fun runs _ => before.command runs (by rw [notStarting]; exact fun same => by cases same),
        fun going => ?_, before.owes⟩
      have itsEntry := before.entry going
      by_cases same : proc.channel = p
      · rw [same, entry] at itsEntry
        exact absurd (Option.some_inj.mp itsEntry).symm apart
      · exact (Function.update_of_ne same ..).trans itsEntry
  · intro p' id' command
    obtain ⟨proc, here, channel, runs⟩ := invariant.commands p' id' command
    obtain ⟨proc', there, channel', sameStage⟩ := still id' proc here
    exact ⟨proc', there, channel'.trans channel, sameStage ▸ runs⟩
  · intro p' id' hasEntry
    change Function.update s.procTable p none p' = some id' at hasEntry
    by_cases same : p' = p
    · subst same
      rw [Function.update_self] at hasEntry
      cases hasEntry
    · rw [Function.update_of_ne same] at hasEntry
      obtain ⟨proc, here, channel, closes⟩ := invariant.table p' id' hasEntry
      obtain ⟨proc', there, channel', sameStage⟩ := still id' proc here
      refine ⟨proc', there, channel'.trans channel, fun ended => ?_⟩
      have now := closes (sameStage ▸ ended)
      rw [closing] at now
      cases now
      exact absurd rfl same
  · intro p' tag awaiting
    rcases invariant.owed p' tag awaiting with
      ⟨_, _, _, replying, -⟩ | ⟨_, _, sending⟩ | ⟨id', proc, here, channel, owed⟩
    · rw [closing] at replying
      cases replying
    · rw [closing] at sending
      cases sending
    · obtain ⟨proc', there, channel', sameStage⟩ := still id' proc here
      exact .inr (.inr ⟨id', proc', there, channel'.trans channel, sameStage ▸ owed⟩)
  · intro id'
    rw [invariant.starts id', notStarting]
    simp [Loop.starts]
  · intro id'
    rw [invariant.ends id']
    by_cases same : id' = id
    · subst same
      rw [found, getElem?_set_self _ found]
      rfl
    · rw [getElem?_set_of_ne _ same]

end

end Frobio.Mux
