/-
This file puts the steps of a session together: the invariant is kept by every step
of a run in which the protocol is kept, and by itself the session goes on only
until every frame has its reply.

`Progress` lists what the session can do by itself. Each case keeps the invariant
and takes effort away, and while a reply is owed there is always one to take.
-/

import Frobio.Mux.Protocol

namespace Frobio.Mux

open Coms SlashPath Run

section

variable {host : Host} {s next : Session} {line : Nat → Line}

/-! ### A frame comes in -/

theorem Stage.owes_of_ending {stage : Stage} (ended : stage.ending = true)
    (runs : stage ≠ .finished) : stage.owes = some CMD_END_MUX := by
  cases stage with
  | exitEnded verdict => rfl
  | finished => exact absurd rfl runs
  | _ => cases ended

/-- Where the table has no entry, and no frame waits, the client knows of no command. -/
theorem Invariant.command_eq_none {p : Nat} (invariant : Invariant s line)
    (quiet : (line p).awaiting = none) (free : s.procTable p = none) :
    (line p).command = none := by
  by_contra has
  obtain ⟨id, command⟩ := Option.ne_none_iff_exists'.mp has
  obtain ⟨proc, found, rfl, runs⟩ := invariant.commands p id command
  have tracked := invariant.tracked id proc found
  cases ended : proc.stage.ending with
  | false =>
    have entry := tracked.entry ended
    rw [free] at entry
    cases entry
  | true =>
    rw [tracked.owes _ (Stage.owes_of_ending ended runs)] at quiet
    cases quiet

/-- Where the table has an entry, the client knows of this command. -/
theorem Invariant.command_eq_some {p id : Nat} (invariant : Invariant s line)
    (ready : s.loop = .ready) (entry : s.procTable p = some id) :
    (line p).command = some id ∧ ∃ proc : Proc, s.procs[id]? = some proc ∧ proc.channel = p ∧
      proc.stage.ending = false := by
  obtain ⟨proc, found, rfl, closing⟩ := invariant.table p id entry
  have going : proc.stage.ending = false := by
    rw [Bool.eq_false_iff]
    intro ended
    have now := closing ended
    rw [ready] at now
    cases now
  refine ⟨(invariant.tracked id proc found).command ?_ ?_, proc, found, rfl, going⟩
  · intro final
    rw [final] at going
    cases going
  · rw [ready]
    exact fun same => by cases same

/-- The line of the channel after a frame. -/
def asked (line : Nat → Line) (q : Quint) : Nat → Line :=
  Function.update line q.p { line q.p with awaiting := some q.command }

theorem Invariant.follows_asked {q : Quint} (invariant : Invariant s line)
    (quiet : (line q.p).awaiting = none) (p : Nat) :
    followChannel p (s.log ++ [.frame q]) = some (asked line q p) :=
  followChannel_append (.frame q) invariant.follows (if_pos quiet) p

theorem asked_self (line : Nat → Line) (q : Quint) :
    asked line q q.p = ⟨(line q.p).command, some q.command⟩ :=
  Function.update_self ..

theorem command_asked (line : Nat → Line) (q : Quint) (p : Nat) :
    (asked line q p).command = (line p).command := by
  by_cases same : p = q.p
  · rw [same, asked, Function.update_self]
  · rw [asked, Function.update_of_ne same]

/-- No goroutine owes a reply on a channel where no frame waits. -/
theorem Invariant.tracked_asked {q : Quint} {loop : Loop} {table : Nat → Option Nat}
    {id : Nat} {proc : Proc} (invariant : Invariant s line) (ready : s.loop = .ready)
    (quiet : (line q.p).awaiting = none) (found : s.procs[id]? = some proc)
    (entry : proc.stage.ending = false → table proc.channel = some id) :
    Tracked loop table (asked line q) id proc := by
  have before := invariant.tracked id proc found
  refine ⟨before.nonzero, before.small, before.packet, fun runs _ => ?_, entry, ?_⟩
  · rw [command_asked]
    exact before.command runs (by rw [ready]; exact fun same => by cases same)
  · intro tag owed
    have waits := before.owes tag owed
    by_cases same : proc.channel = q.p
    · rw [same] at waits
      rw [waits] at quiet
      cases quiet
    · rwa [asked, Function.update_of_ne same]

/-- The frame loop takes a frame and starts no command. -/
theorem Invariant.framed {q : Quint} {loop : Loop} (invariant : Invariant s line)
    (ready : s.loop = .ready) (quiet : (line q.p).awaiting = none) (notStarting : loop.starts = none)
    (at_loop : LoopAt s.procs s.procTable (asked line q) loop)
    (owed : Owed { s with loop } q.p q.command) :
    Invariant { s with log := s.log ++ [.frame q], loop } (asked line q) := by
  have wasReady : s.loop.starts = none := by rw [ready]; rfl
  refine ⟨invariant.alive, invariant.follows_asked quiet, ?_, at_loop, ?_, ?_, ?_, ?_, ?_⟩
  · intro id proc found
    exact invariant.tracked_asked ready quiet found (invariant.tracked id proc found).entry
  · intro p id command
    rw [command_asked] at command
    exact invariant.commands p id command
  · intro p id entry
    obtain ⟨proc, found, channel, closing⟩ := invariant.table p id entry
    refine ⟨proc, found, channel, fun ended => ?_⟩
    have now := closing ended
    rw [ready] at now
    cases now
  · intro p tag awaiting
    by_cases same : p = q.p
    · rw [same, asked, Function.update_self] at awaiting
      cases awaiting
      exact same ▸ owed
    · rw [asked, Function.update_of_ne same] at awaiting
      rcases invariant.owed p tag awaiting with ⟨_, _, _, replying, -⟩ | ⟨_, _, sending⟩ | work
      · rw [ready] at replying
        cases replying
      · rw [ready] at sending
        cases sending
      · exact .inr (.inr work)
  · intro id
    rw [List.countP_append, invariant.starts id, wasReady]
    simp [Event.startsCommand, notStarting]
  · intro id
    rw [List.countP_append, invariant.ends id]
    simp [Event.endsCommand]

/-- The frame loop starts a command on a free channel. -/
theorem Invariant.began {q : Quint} {fn : CommandFunc} {argv : List Text}
    (invariant : Invariant s line) (ready : s.loop = .ready)
    (quiet : (line q.p).awaiting = none) (begins : q.command = CMD_BEGIN_MUX) (nonzero : q.p ≠ 0)
    (free : s.procTable q.p = none) :
    Invariant
      { s with
        log := s.log ++ [.frame q]
        procTable := Function.update s.procTable q.p (some s.procs.length)
        procs := s.procs ++ [⟨q.p, fn, argv, .opened, .start⟩]
        loop := .reply (.starting s.procs.length) (replyQuint CMD_BEGIN_MUX q.p muxGood) muxGood }
      (asked line q) := by
  have none := invariant.command_eq_none quiet free
  have wasReady : s.loop.starts = Option.none := by rw [ready]; rfl
  have old : ∀ {id : Nat} {proc : Proc}, s.procs[id]? = some proc →
      (s.procs ++ [⟨q.p, fn, argv, .opened, .start⟩])[id]? = some proc := fun found =>
    (List.getElem?_append_left (List.getElem?_eq_some_iff.mp found).1).trans found
  have new : (s.procs ++ [⟨q.p, fn, argv, .opened, .start⟩])[s.procs.length]? =
      some ⟨q.p, fn, argv, .opened, .start⟩ := by simp
  have cases : ∀ {id : Nat} {proc : Proc},
      (s.procs ++ [⟨q.p, fn, argv, .opened, .start⟩])[id]? = some proc →
        s.procs[id]? = some proc ∨ (id = s.procs.length ∧
          proc = ⟨q.p, fn, argv, .opened, .start⟩) := by
    intro id proc found
    rcases Nat.lt_trichotomy id s.procs.length with inside | here | beyond
    · rw [List.getElem?_append_left inside] at found
      exact .inl found
    · subst here
      rw [new, Option.some_inj] at found
      exact .inr ⟨rfl, found.symm⟩
    · rw [List.getElem?_eq_none (by simp; omega)] at found
      cases found
  refine ⟨invariant.alive, invariant.follows_asked quiet, ?_, ?_, ?_, ?_, ?_, ?_, ?_⟩
  · intro id proc found
    rcases cases found with before | ⟨rfl, rfl⟩
    · refine invariant.tracked_asked ready quiet before fun going => ?_
      have entry := (invariant.tracked id proc before).entry going
      refine (Function.update_of_ne ?_ ..).trans entry
      intro same
      rw [same, free] at entry
      cases entry
    · refine ⟨nonzero, q.p_lt, .inl rfl, fun _ notStarting => absurd rfl notStarting,
        fun _ => Function.update_self .., fun tag owed => by cases owed⟩
  · refine ⟨?_, rfl, rfl, ⟨q.p, fn, argv, .opened, .start⟩, new, (replyQuint_p q.p_lt _).symm, rfl,
      rfl⟩
    rw [replyQuint_p q.p_lt, asked_self, none, begins]
  · intro p id command
    rw [command_asked] at command
    obtain ⟨proc, found, channel, runs⟩ := invariant.commands p id command
    exact ⟨proc, old found, channel, runs⟩
  · intro p id entry
    change Function.update s.procTable q.p _ p = some id at entry
    by_cases same : p = q.p
    · subst same
      rw [Function.update_self, Option.some_inj] at entry
      subst entry
      exact ⟨_, new, rfl, fun ended => by cases ended⟩
    · rw [Function.update_of_ne same] at entry
      obtain ⟨proc, found, channel, closing⟩ := invariant.table p id entry
      refine ⟨proc, old found, channel, fun ended => ?_⟩
      have now := closing ended
      rw [ready] at now
      cases now
  · intro p tag awaiting
    by_cases same : p = q.p
    · exact .inl ⟨_, _, _, rfl, (replyQuint_p q.p_lt _).trans same.symm⟩
    · rw [asked, Function.update_of_ne same] at awaiting
      rcases invariant.owed p tag awaiting with
        ⟨_, _, _, replying, -⟩ | ⟨_, _, sending⟩ | ⟨id, proc, found, work⟩
      · rw [ready] at replying
        cases replying
      · rw [ready] at sending
        cases sending
      · exact .inr (.inr ⟨id, proc, old found, work⟩)
  · intro id
    have boundary : id < s.procs.length ↔ id < s.procs.length + 1 ∧ ¬s.procs.length = id := by
      omega
    rw [List.countP_append, invariant.starts id, wasReady]
    simp [Event.startsCommand, Loop.starts, boundary]
  · intro id
    rw [List.countP_append, invariant.ends id]
    by_cases here : id = s.procs.length
    · subst here
      simp [Event.endsCommand]
    · by_cases inside : id < s.procs.length
      · simp [Event.endsCommand, List.getElem?_append_left inside]
      · have outside : s.procs.length + 1 ≤ id := by omega
        simp [Event.endsCommand, List.getElem?_eq_none (Nat.le_of_not_lt inside),
          List.getElem?_eq_none (show (s.procs ++ [_]).length ≤ id by simpa using outside)]

theorem Invariant.readFrame {q : Quint} {pay : Text} (invariant : Invariant s line)
    (kept : Kept host s (.frame q pay)) (taken : readFrame host s q pay = some next) :
    ∃ line', Invariant next line' := by
  obtain ⟨waited, nonzero, welcome⟩ := kept
  have quiet : (line q.p).awaiting = none := waited _ (invariant.follows q.p)
  unfold Mux.readFrame at taken
  split at taken
  · rename_i conditions
    have ready := conditions.1
    dsimp only at taken
    have refused : ∀ {q' : Quint} {text : Text}, q'.p = q.p → text.head? = some muxBad →
        (asked line q q.p).Refuses q' → Invariant
          { s with log := s.log ++ [.frame q], loop := .reply .loop q' text } (asked line q) := by
      intro q' text onChannel bad refuses
      have at_loop : LoopAt s.procs s.procTable (asked line q) (.reply .loop q' text) :=
        ⟨bad, by rw [onChannel]; exact refuses⟩
      exact invariant.framed ready quiet rfl at_loop (.inl ⟨_, _, _, rfl, onChannel⟩)
    have sent : ∀ command, q.command = command → command ≠ CMD_BEGIN_MUX →
        command = CMD_MID_MUX ∨ command = CMD_END_MUX →
        Invariant (sendMux command { s with log := s.log ++ [.frame q] } q.p pay)
          (asked line q) := by
      rintro command rfl notBegin kinds
      rcases sendMux_cases q.command { s with log := s.log ++ [.frame q] } q.p pay with
        ⟨free, text, bad, same⟩ | ⟨id, entry, same⟩
      · rw [same]
        refine refused (replyQuint_p q.p_lt _) bad (.inr ⟨?_, kinds, ?_⟩)
        · rw [command_asked]
          exact invariant.command_eq_none quiet free
        · rw [asked_self]
          rfl
      · rw [same]
        obtain ⟨command, proc, found, channel, -⟩ := invariant.command_eq_some ready entry
        refine invariant.framed ready quiet rfl ⟨?_, proc, found, channel, ?_⟩
          (.inr (.inl ⟨id, pay, rfl⟩))
        · rw [asked_self, command]
        · exact welcome notBegin id entry proc found
    split at taken
    · rename_i begins
      rw [Option.some_inj] at taken
      subst taken
      rcases beginMux_cases host { s with log := s.log ++ [.frame q] } q.p pay with
        ⟨text, bad, same⟩ | ⟨free, fn, named, same⟩
      · rw [same]
        refine ⟨_, refused (replyQuint_p q.p_lt _) bad (.inl ⟨?_, rfl⟩)⟩
        rw [asked_self, begins]
      · rw [same]
        refine ⟨_, invariant.began ready quiet begins ?_ free⟩
        intro zero
        rw [nonzero begins zero] at named
        cases named
    · rename_i notBegin
      split at taken
      · rename_i mid
        rw [Option.some_inj] at taken
        subst taken
        exact ⟨_, sent CMD_MID_MUX mid (mid ▸ notBegin) (.inl rfl)⟩
      · split at taken
        · rename_i ends
          rw [Option.some_inj] at taken
          subst taken
          exact ⟨_, sent CMD_END_MUX ends (ends ▸ notBegin) (.inr rfl)⟩
        · cases taken
  · cases taken

/-! ### What the session does by itself -/

/-- The steps a goroutine can take before it waits for the client. -/
def Stage.effort : Stage → Nat
  | start | said _ _ | ask _ _ | close _ _ | exitDotted _ | exitEnded _ => 1
  | take _ _ _ => 2
  | _ => 0

def Loop.effort : Loop → Nat
  | .reply _ _ _ => 1
  | .send _ _ _ _ => 3
  | .close _ _ => 1
  | _ => 0

/-- A bound on the steps the session can take before it waits for the client. -/
def effort (s : Session) : Nat :=
  s.loop.effort + (s.procs.map fun proc => proc.stage.effort).sum

/-- A step the session takes by itself. -/
def Internal : Action → Prop
  | .frame _ _ => False
  | .timeout _ => False
  | _ => True

inductive Progress (host : Host) (s : Session) : Session → Prop
  | moved (id : Nat) (proc : Proc) (stage : Stage) (found : s.procs[id]? = some proc)
      (owes : stage.owes = proc.stage.owes) (going : proc.stage.ending = false)
      (going' : stage.ending = false)
      (welcome : ∀ tag pay, proc.stage.welcomes tag pay = true → stage.welcomes tag pay = true)
      (less : stage.effort < proc.stage.effort) :
      Progress host s { s with procs := s.procs.set id { proc with stage } }
  | put (id : Nat) (proc : Proc) (command : UInt8) (payload : Text) (after : Stage)
      (found : s.procs[id]? = some proc)
      (puts : proc.stage.puts host = some (command, payload, after)) :
      Progress host s
        { s with
          procs := s.procs.set id { proc with stage := after }
          log := s.log ++ [.reply (.proc id) (replyQuint command proc.channel payload) payload] }
  | delivered (id p : Nat) (tag : UInt8) (pay : Text) (proc : Proc) (after : Stage)
      (sending : s.loop = .send id p tag pay) (found : s.procs[id]? = some proc)
      (welcome : proc.stage.welcomes tag pay = true) (owes : after.owes = some tag)
      (runs : after ≠ .finished) (ends : after.ending = true ↔ tag = CMD_END_MUX) :
      Progress host s
        { s with
          procs := s.procs.set id { proc with stage := after }
          loop := if tag = CMD_END_MUX then .close id p else .ready }
  | replied (writer : Writer) (q : Quint) (payload : Text)
      (replying : s.loop = .reply writer q payload) :
      Progress host s { s with loop := .ready, log := s.log ++ [.reply writer q payload] }
  | closed (id p : Nat) (proc : Proc) (closing : s.loop = .close id p)
      (found : s.procs[id]? = some proc) :
      Progress host s
        { s with
          procs := s.procs.set id { proc with inPacket := .closed }
          procTable := Function.update s.procTable p none
          loop := .ready }

theorem Progress.invariant (invariant : Invariant s line) (progress : Progress host s next) :
    ∃ line', Invariant next line' := by
  cases progress with
  | moved id proc stage found owes going going' welcome =>
    exact ⟨line, invariant.moved found owes going going' welcome⟩
  | put id proc command payload after found puts => exact ⟨_, invariant.put found puts⟩
  | delivered id p tag pay proc after sending found welcome owes runs ends =>
    exact ⟨line, invariant.delivered sending found welcome owes runs ends⟩
  | replied writer q payload replying => exact invariant.replied replying
  | closed id p proc closing found => exact ⟨line, invariant.closed closing found⟩

theorem sum_map_set (f : Proc → Nat) {procs : List Proc} {id : Nat} {proc : Proc} (other : Proc)
    (found : procs[id]? = some proc) :
    ((procs.set id other).map f).sum + f proc = (procs.map f).sum + f other := by
  induction procs generalizing id with
  | nil => cases found
  | cons first rest inductionHypothesis =>
    cases id with
    | zero =>
      obtain rfl : first = proc := by simpa using found
      simp only [List.set_cons_zero, List.map_cons, List.sum_cons]
      omega
    | succ id =>
      have there : ((rest.set id other).map f).sum + f proc = (rest.map f).sum + f other :=
        inductionHypothesis (by simpa using found)
      simp only [List.set_cons_succ, List.map_cons, List.sum_cons]
      omega

theorem Stage.puts_effort {stage after : Stage} {command : UInt8} {payload : Text}
    (puts : stage.puts host = some (command, payload, after)) : after.effort < stage.effort := by
  cases stage with
  | said message script =>
    cases puts
    obtain ⟨messages, ending⟩ := script
    cases messages with
    | cons => exact Nat.zero_lt_one
    | nil => cases ending <;> exact Nat.zero_lt_one
  | ask src dest => cases puts; exact Nat.zero_lt_one
  | close src dest => cases puts; exact Nat.zero_lt_one
  | exitDotted verdict => cases puts; exact Nat.zero_lt_one
  | exitEnded verdict => cases puts; exact Nat.zero_lt_one
  | _ => cases puts

theorem Stage.effort_of_welcomes {stage : Stage} (welcome : stage.welcomes CMD_MID_MUX [] = true)
    (notStart : stage ≠ .start) : stage.effort = 0 := by
  cases stage <;> first | rfl | exact absurd rfl notStart | cases welcome

theorem Script.next_ne_start (script : Script) : script.next ≠ .start := by
  obtain ⟨messages, ending⟩ := script
  cases messages with
  | cons => exact fun same => by cases same
  | nil => cases ending <;> exact fun same => by cases same

theorem Stage.effort_le (stage : Stage) :
    stage.effort ≤ 2 ∧ (stage.ending = true → stage.effort ≤ 1) := by
  cases stage <;> simp [effort, ending]

theorem Progress.effort_lt (progress : Progress host s next) : effort next < effort s := by
  cases progress with
  | moved id proc stage found owes going going' welcome less =>
    have total := sum_map_set (fun proc => proc.stage.effort) { proc with stage } found
    simp only [effort] at total ⊢
    omega
  | put id proc command payload after found puts =>
    have total := sum_map_set (fun proc => proc.stage.effort) { proc with stage := after } found
    have less := Stage.puts_effort puts
    simp only [effort] at total ⊢
    omega
  | delivered id p tag pay proc after sending found welcome owes runs ends =>
    have total := sum_map_set (fun proc => proc.stage.effort) { proc with stage := after } found
    have bound := after.effort_le
    by_cases final : tag = CMD_END_MUX
    · have small := bound.2 (ends.mpr final)
      simp only [effort, sending, if_pos final, Loop.effort] at total ⊢
      omega
    · simp only [effort, sending, if_neg final, Loop.effort] at total ⊢
      omega
  | replied writer q payload replying =>
    simp only [effort, replying, Loop.effort]
    omega
  | closed id p proc closing found =>
    have total := sum_map_set (fun proc => proc.stage.effort) { proc with inPacket := .closed } found
    simp only [effort, closing, Loop.effort] at total ⊢
    omega

/-- Every step the session takes by itself, the protocol kept, is one of the cases. -/
theorem Invariant.progress {action : Action} (invariant : Invariant s line)
    (kept : Kept host s action) (internal : Internal action)
    (taken : step host s action = some next) : Progress host s next := by
  unfold Mux.step at taken
  rw [invariant.alive, if_neg Bool.false_ne_true] at taken
  have at_loop := invariant.loop
  cases action with
  | frame => exact internal.elim
  | timeout => exact internal.elim
  | loop outcome =>
    have fine : outcome.fails = false := kept
    change loopStep s outcome = some next at taken
    unfold loopStep at taken
    split at taken
    · rename_i writer q payload replying
      split at taken
      · cases fine
      · rw [Option.some_inj] at taken
        exact taken ▸ .replied writer q payload replying
    · rename_i id p tag pay sending
      rw [sending] at at_loop
      obtain ⟨-, proc, found, -, welcome⟩ := at_loop
      rw [found, Option.bind_some] at taken
      split at taken
      · rename_i closed
        have going := (Stage.welcomes_cases welcome).2.2
        rcases (invariant.tracked id proc found).packet with opened | ⟨-, ended⟩
        · rw [opened] at closed
          cases closed
        · rw [going] at ended
          cases ended
      · cases taken
    · rename_i id p closing
      obtain ⟨proc, found, taken⟩ := Option.map_eq_some_iff.mp taken
      split at taken
      · rename_i isNil
        rcases (invariant.tracked id proc found).packet with opened | ⟨closed, -⟩
        · rw [opened] at isNil
          cases isNil
        · rw [closed] at isNil
          cases isNil
      · exact taken ▸ .closed id p proc closing found
    · cases taken
  | deliver =>
    change deliver host s = some next at taken
    unfold deliver at taken
    split at taken
    · rename_i id p tag pay sending
      rw [sending] at at_loop
      obtain ⟨-, proc, found, -, welcome⟩ := at_loop
      rw [found, Option.bind_some] at taken
      obtain ⟨expected, expects, taken⟩ := Option.bind_eq_some_iff.mp taken
      obtain ⟨same, after, accepted, owes, runs, ends⟩ := Stage.accept_of_welcomes host
        welcome (by rw [expects]; exact fun none => by cases none)
      obtain rfl := Option.some_inj.mp (expects.symm.trans same)
      rw [Stage.lowGetOne_self, accepted] at taken
      split at taken
      · dsimp only at taken
        rw [Option.some_inj] at taken
        exact taken ▸ .delivered id p expected pay proc after sending found welcome owes runs ends
      · cases taken
    · cases taken
  | run id outcome =>
    obtain ⟨proc, found, taken⟩ := Option.bind_eq_some_iff.mp taken
    have tracked := invariant.tracked id proc found
    split at taken
    · rename_i at_start
      rw [if_neg tracked.nonzero, Option.some_inj] at taken
      subst taken
      have welcomes := runCommand_welcomes host proc.fn proc.argv outcome
      have standing := Stage.welcomes_cases (welcomes [])
      refine .moved id proc _ found ?_ (by rw [at_start]; rfl) standing.2.2 ?_ ?_
      · rw [at_start]
        exact standing.2.1
      · intro tag pay welcome
        rw [at_start] at welcome
        obtain rfl : tag = CMD_MID_MUX := by simpa [Stage.welcomes] using welcome
        exact welcomes pay
      · rw [at_start]
        exact Nat.lt_one_iff.mpr (Stage.effort_of_welcomes (welcomes []) (Script.next_ne_start _))
    · rename_i src dest data at_take
      have fine : outcome.fails = false :=
        kept proc found (by rw [at_take]; exact fun same => by cases same)
      split at taken
      · cases fine
      · rw [Option.some_inj] at taken
        subst taken
        refine .moved id proc _ found ?_ (by rw [at_take]; rfl) rfl ?_ ?_
        · rw [at_take]
          rfl
        · intro tag pay welcome
          rw [at_take] at welcome
          cases welcome
        · rw [at_take]
          exact Nat.one_lt_two
    · rename_i notStart notTake
      have fine : outcome.fails = false := kept proc found notStart
      split at taken
      · rename_i command payload after puts
        split at taken
        · cases fine
        · rw [Option.some_inj] at taken
          exact taken ▸ .put id proc command payload after found puts
      · split at taken
        · rename_i waits
          obtain ⟨tag, expects⟩ := Option.isSome_iff_exists.mp waits.1
          rcases tracked.packet with opened | ⟨-, ended⟩
          · rw [opened] at waits
            cases waits.2
          · rw [Stage.ending_of_expected expects] at ended
            cases ended
        · cases taken

/-- Every step of a run in which the protocol is kept keeps the invariant. -/
theorem Invariant.step {action : Action} (invariant : Invariant s line)
    (kept : Kept host s action) (taken : step host s action = some next) :
    ∃ line', Invariant next line' := by
  cases action with
  | frame q pay =>
    unfold Mux.step at taken
    rw [invariant.alive, if_neg Bool.false_ne_true] at taken
    exact invariant.readFrame kept taken
  | timeout id => exact kept.elim
  | _ => exact (invariant.progress kept trivial taken).invariant invariant

/-! ### The session comes to rest -/

/-- The session can take no step by itself that succeeds. -/
def Idle (host : Host) (s : Session) : Prop :=
  step host s (.loop .done) = none ∧ step host s .deliver = none ∧
    ∀ id, step host s (.run id .done) = none

theorem runStep_isSome_of_owes {id : Nat} {proc : Proc} {tag : UInt8}
    (found : s.procs[id]? = some proc) (owes : proc.stage.owes = some tag) :
    runStep host s id .done ≠ none := by
  rw [runStep, found, Option.bind_some]
  cases at_stage : proc.stage <;> rw [at_stage] at owes <;>
    first | (simp [Stage.puts]; done) | cases owes

theorem Invariant.settled (invariant : Invariant s line) (idle : Idle host s) :
    s.loop.starts = none ∧ ∀ p, (line p).awaiting = none := by
  obtain ⟨noLoop, noDeliver, noRun⟩ := idle
  have alive := invariant.alive
  unfold Mux.step at noLoop noDeliver noRun
  rw [alive, if_neg Bool.false_ne_true] at noLoop noDeliver
  simp only [alive, Bool.false_eq_true, if_false] at noRun
  have at_loop := invariant.loop
  have notReplying : ∀ writer q payload, s.loop ≠ .reply writer q payload := by
    intro writer q payload replying
    change loopStep s .done = none at noLoop
    unfold loopStep at noLoop
    rw [replying] at noLoop
    cases noLoop
  refine ⟨?_, fun p => ?_⟩
  · generalize loop : s.loop = current at notReplying ⊢
    cases current with
    | reply writer q payload => exact absurd rfl (notReplying writer q payload)
    | _ => rfl
  · by_contra waits
    obtain ⟨tag, waits⟩ := Option.ne_none_iff_exists'.mp waits
    rcases invariant.owed p tag waits with
      ⟨writer, q, payload, replying, -⟩ | ⟨id, pay, sending⟩ | ⟨id, proc, found, -, owes⟩
    · exact notReplying writer q payload replying
    · rw [sending] at at_loop
      obtain ⟨-, proc, found, -, welcome⟩ := at_loop
      have tracked := invariant.tracked id proc found
      by_cases expects : proc.stage.expected = none
      · have at_start : proc.stage = .start := by
          cases at_stage : proc.stage <;> rw [at_stage] at expects welcome <;>
            first | rfl | (cases expects; done) | (cases welcome; done)
        have run := noRun id
        rw [runStep, found, Option.bind_some, at_start] at run
        simp only [if_neg tracked.nonzero, reduceCtorEq] at run
      · obtain ⟨same, after, accepted, -⟩ := Stage.accept_of_welcomes host welcome expects
        have opened : proc.inPacket = .opened := by
          rcases tracked.packet with opened | ⟨-, ended⟩
          · exact opened
          · rw [(Stage.welcomes_cases welcome).2.2] at ended
            cases ended
        change deliver host s = none at noDeliver
        unfold deliver at noDeliver
        rw [sending] at noDeliver
        simp only [found, Option.bind_some, same, if_pos opened, Stage.lowGetOne_self, accepted,
          reduceCtorEq] at noDeliver
    · exact runStep_isSome_of_owes found owes (noRun id)

/-- By itself the session takes no more steps than its effort. -/
theorem Invariant.bounded {actions : List Action} {final : Session} (invariant : Invariant s line)
    (internal : ∀ action ∈ actions, Internal action)
    (meets : Meets (Mux.step host) (Kept host) s actions)
    (reached : run (Mux.step host) s actions = some final) : actions.length ≤ effort s := by
  induction actions generalizing s line with
  | nil => exact Nat.zero_le _
  | cons action rest inductionHypothesis =>
    obtain ⟨next, taken, onward⟩ := run_cons_eq_some.mp reached
    have progress := invariant.progress meets.1 (internal action List.mem_cons_self) taken
    obtain ⟨line', invariant'⟩ := progress.invariant invariant
    have later := inductionHypothesis invariant'
      (fun other member => internal other (List.mem_cons_of_mem _ member)) (meets.2 next taken)
      onward
    have less := progress.effort_lt
    rw [List.length_cons]
    omega

/-- Only the goroutines there are can go on. -/
theorem idle_of_procs (noLoop : step host s (.loop .done) = none)
    (noDeliver : step host s .deliver = none)
    (noRun : ∀ id < s.procs.length, step host s (.run id .done) = none) : Idle host s := by
  refine ⟨noLoop, noDeliver, fun id => ?_⟩
  by_cases inside : id < s.procs.length
  · exact noRun id inside
  · change (if s.crashed then none else runStep host s id .done) = none
    rw [runStep, List.getElem?_eq_none (Nat.le_of_not_lt inside)]
    split <;> rfl

end

/-! ### The protocol -/

/-- Every channel's log is accepted: one reply to every frame but perhaps the last one. Every
command started is announced once and ends once, and left to itself the session comes to rest with
every frame answered. -/
structure Served (host : Host) (s : Session) : Prop where
  lines : ∀ p, ∃ line, followChannel p s.log = some line
  started : ∀ id, s.log.countP (Event.startsCommand id) =
    if id < s.procs.length ∧ s.loop.starts ≠ some id then 1 else 0
  ended : ∀ id, s.log.countP (Event.endsCommand id) =
    if s.procs[id]?.map Proc.stage = some .finished then 1 else 0
  settled : Idle host s → s.loop.starts = none ∧
    ∀ p line, followChannel p s.log = some line → line.awaiting = none
  bounded : ∀ actions final, (∀ action ∈ actions, Internal action) →
    Meets (step host) (Kept host) s actions → run (step host) s actions = some final →
      actions.length ≤ effort s

theorem Invariant.start (id : Nat) : Invariant (start id) fun _ => .quiet where
  alive := rfl
  follows := fun _ => rfl
  tracked := fun _ _ found => by cases found
  loop := trivial
  commands := fun _ _ command => by cases command
  table := fun _ _ entry => by cases entry
  owed := fun _ _ waits => by cases waits
  starts := fun _ => by simp [Mux.start]
  ends := fun _ => by simp [Mux.start]

/-- **The channel protocol.** In every run in which the client keeps the protocol, no write fails
and no goroutine waits too long, every frame is answered once and by the right goroutine. -/
theorem served_of_kept (host : Host) (id : Nat) (actions : List Action)
    (meets : Meets (step host) (Kept host) (start id) actions) (s : Session)
    (reached : run (step host) (start id) actions = some s) : Served host s := by
  obtain ⟨line, invariant⟩ := invariant_of_run (fun s => ∃ line, Invariant s line)
    (fun _ _ _ ⟨_, invariant⟩ kept taken => invariant.step kept taken)
    ⟨_, Invariant.start id⟩ meets reached
  refine ⟨fun p => ⟨line p, invariant.follows p⟩, invariant.starts, invariant.ends, ?_, ?_⟩
  · intro idle
    obtain ⟨notStarting, quiet⟩ := invariant.settled idle
    refine ⟨notStarting, fun p after followed => ?_⟩
    rw [invariant.follows p, Option.some_inj] at followed
    exact followed ▸ quiet p
  · intro actions final internal meets reached
    exact invariant.bounded internal meets reached

/-- Two commands, one after the other on the same channel. -/
def echoTwice : List Action := echoRun ++ (echoRun.take 2 ++ [.run 1 .done])

theorem served_echoTwice :
    ∃ s, run (step plainHost) (start 1) echoTwice = some s ∧
      followChannel 1 s.log = some ⟨some 1, none⟩ ∧ Served plainHost s := by
  have evaluated : (run (step plainHost) (start 1) echoTwice).bind
      (fun s => followChannel 1 s.log) = some ⟨some 1, none⟩ := by
    decide +kernel
  obtain ⟨s, reached, followed⟩ := Option.bind_eq_some_iff.mp evaluated
  exact ⟨s, reached, followed,
    served_of_kept plainHost 1 echoTwice (by decide +kernel) s reached⟩

/-- A `putt` whose file the client cannot open, which the client says in its packet. -/
def refusedPut : List Action :=
  [frame CMD_BEGIN_MUX 1 (ascii "putt a"), .loop .done, .run 0 .done,
    frame CMD_MID_MUX 1 [], .deliver, .run 0 .done,
    frame CMD_MID_MUX 1 (ascii "e"), .deliver]

/-- The panic of `PutTCommand` comes between its `LowGetOne` and its `LowPutOne`, so the MID the
client waits on gets no reply, and nothing is left to do. -/
theorem not_served_refusedPut :
    let host : Host := { plainHost with fs := ascii "/f" }
    ∃ s, run (step host) (start 1) refusedPut = some s ∧ Idle host s ∧
      followChannel 1 s.log = some ⟨some 0, some CMD_MID_MUX⟩ ∧ ¬Served host s := by
  intro host
  have evaluated : (run (step host) (start 1) refusedPut).map (fun s =>
      (s.procs.length, (step host s (.loop .done)).isNone, (step host s .deliver).isNone,
        (step host s (.run 0 .done)).isNone, followChannel 1 s.log)) =
      some (1, true, true, true, some ⟨some 0, some CMD_MID_MUX⟩) := by
    decide +kernel
  obtain ⟨s, reached, facts⟩ := Option.map_eq_some_iff.mp evaluated
  obtain ⟨one, noLoop, noDeliver, noRun, followed⟩ :
      s.procs.length = 1 ∧ (step host s (.loop .done)).isNone = true ∧
        (step host s .deliver).isNone = true ∧ (step host s (.run 0 .done)).isNone = true ∧
          followChannel 1 s.log = some ⟨some 0, some CMD_MID_MUX⟩ := by
    simpa only [Prod.mk.injEq] using facts
  have idle : Idle host s := by
    refine idle_of_procs (Option.isNone_iff_eq_none.mp noLoop)
      (Option.isNone_iff_eq_none.mp noDeliver) fun id inside => ?_
    obtain rfl : id = 0 := by omega
    exact Option.isNone_iff_eq_none.mp noRun
  refine ⟨s, reached, idle, followed, fun served => ?_⟩
  have quiet := (served.settled idle).2 1 _ followed
  cases quiet

end Frobio.Mux
